import CSC360.Base.Traced
import CSC360.Disk.WalkEnds

/-!
# The walks with a log of their clusters

Both `parse_sub`s again, with a log of the cluster numbers that a chain loop turns into addresses and of
those whose FAT entries it looks up. The chain loop is the one of the programs (`clusterLoop`), at a state
that holds the log besides; with the log left out these are the programs
(`DiskInfo.parseSubTraced_erase`, `DiskList.parseSubTraced_erase`), and no step shortens the log.
-/

namespace CSC360.Disk
open CSC360.Base Logged Relation

/-- What a chain loop does with a cluster number. -/
inductive Use where
  /-- `(31 + (int)next_loc) * SECTOR_SIZE` -/
  | address (c : Nat)
  /-- `get_FAT_entry(fat_table_location, next_loc)` -/
  | lookup (c : Nat)
  deriving DecidableEq, Repr

section Loop

variable {ε σ : Type}

/-- One round of a chain loop, up to the lookup. -/
def round (body : Nat → Logged Use σ → Except (Logged Use ε) (Logged Use σ)) (c : Nat) (t : Logged Use σ) :
    Except (Logged Use ε) (Logged Use σ) := do
  let t ← body c (t.add (.address c))
  pure (t.add (.lookup c))

/-- The chain loop with the log. -/
def clusterLoopTraced (p : Image) (stop : σ → Fault → ε)
    (body : Nat → Logged Use σ → Except (Logged Use ε) (Logged Use σ)) :
    Nat → Nat → Logged Use σ → Except (Logged Use ε) (Logged Use σ) :=
  clusterLoop p (fun t fault => ⟨t.log, stop t.value fault⟩) (round body)

end Loop

namespace DiskInfo

/-- `countSlot` with the log. -/
def countSlotTraced (p : Image) (parseSub : Nat → List Use → Except (Logged Use Fault) (Logged Use Int))
    (t : Logged Use Int) (s : Slot) : Except (Logged Use Fault) (Logged Use Int) := do
  let kind ← keep t.log (p.classify s)
  match kind.value with
  | .skip => pure t
  | .file => pure { t with value := Image.toInt32 (t.value + 1) }
  | .dir => do
    let sub ← parseSub (p.flc s) t.log
    pure { sub with value := Image.toInt32 (t.value + sub.value) }

/-- `parse_sub` with the log. -/
def parseSubTraced (p : Image) : Nat → Nat → List Use → Except (Logged Use Fault) (Logged Use Int)
  | 0, _, log => .error ⟨log, .outOfFuel⟩
  | fuel + 1, flc, log =>
    clusterLoopTraced p (fun _ fault => fault)
      (fun c t => (clusterSlots c).foldlM (countSlotTraced p (parseSubTraced p fuel)) t) (fuel + 1) flc ⟨log, 0⟩

end DiskInfo

namespace DiskList

/-- `enterSlot` with the log. -/
def enterSlotTraced (p : Image) (parseSub : Nat → Logged Use Printer → Except (Logged Use Stop) (Logged Use Printer))
    (t : Logged Use Printer) (s : Slot) : Except (Logged Use Stop) (Logged Use Printer) := do
  let kind ← keep t.log (t.value.checked (p.classify s))
  match kind.value with
  | .dir => parseSub (p.flc s) { t with value := { t.value with dirPath := appendPath p t.value s }.header }
  | _ => pure t

/-- `parse_sub` with the log. -/
def parseSubTraced (p : Image) : Nat → Nat → Logged Use Printer → Except (Logged Use Stop) (Logged Use Printer)
  | 0, _, t => .error ⟨t.log, t.value.stop .outOfFuel⟩
  | fuel + 1, flc, t => do
    let t ← clusterLoopTraced p Printer.stop (fun c t => keep t.log (listSector p (clusterAddr c) t.value))
      (fuel + 1) flc t
    clusterLoopTraced p Printer.stop
      (fun c t => (clusterSlots c).foldlM (enterSlotTraced p (parseSubTraced p fuel)) t) (fuel + 1) flc t

end DiskList

variable {p : Image}

/-! ## The chain loop -/

section Loop

variable {ε σ : Type} {stop : σ → Fault → ε} {body : Nat → Logged Use σ → Except (Logged Use ε) (Logged Use σ)}

theorem round_erases {body' : Nat → σ → Except ε σ} (bodies : ∀ c t, Erases (body c t) (body' c t.value)) (c : Nat)
    (t : Logged Use σ) : Erases (round body c t) (body' c t.value) :=
  (bodies c (t.add (.address c))).logging fun _ => rfl

theorem clusterLoopTraced_erases {body' : Nat → σ → Except ε σ} (bodies : ∀ c t, Erases (body c t) (body' c t.value))
    (fuel c : Nat) (t : Logged Use σ) :
    Erases (clusterLoopTraced p stop body fuel c t) (clusterLoop p stop body' fuel c t.value) :=
  related_clusterLoop (fun c t _ same => same ▸ round_erases bodies c t) (fun _ _ _ same => same ▸ rfl) rfl

theorem round_returns {c : Nat} {t t' : Logged Use σ} (returns : body c (t.add (.address c)) = .ok t') :
    round body c t = .ok (t'.add (.lookup c)) := by
  rw [round, returns]
  rfl

theorem mem_trace_of_body {c : Nat} {t : Logged Use σ} {item : Use}
    (inBody : item ∈ trace (body c (t.add (.address c)))) : item ∈ trace (round body c t) := by
  rw [round]
  refine trace_bind (fun t => ?_) inBody
  exact log_subset_add t _

theorem address_mem_round (grows : ∀ c t, t.log ⊆ trace (body c t)) (c : Nat) (t : Logged Use σ) :
    .address c ∈ trace (round body c t) :=
  mem_trace_of_body (grows c _ (mem_add t _))

theorem lookup_mem_round {c : Nat} {t t' : Logged Use σ} (returns : body c (t.add (.address c)) = .ok t') :
    .lookup c ∈ trace (round body c t) := by
  rw [round_returns returns]
  exact mem_add t' _

theorem round_grows (grows : ∀ c t, t.log ⊆ trace (body c t)) (c : Nat) (t : Logged Use σ) :
    t.log ⊆ trace (round body c t) :=
  fun _ mem => mem_trace_of_body (grows c _ (log_subset_add t _ mem))

/-- What is logged in a round whose cluster satisfies the invariant. -/
theorem round_only {P : Use → Prop} {c : Nat} {t : Logged Use σ} (before : ∀ item ∈ t.log, P item)
    (address : P (.address c)) (inBody : ∀ t, (∀ item ∈ t.log, P item) → Only P (body c t))
    (lookup : ∀ t t', body c t = .ok t' → P (.lookup c)) : Only P (round body c t) := by
  rw [round]
  exact (inBody _ (only_add before address)).bind fun t' returns before' => only_add before' (lookup _ t' returns)

theorem clusterLoopTraced_succ {c : Nat} (le : c ≤ 0xff0) (fuel : Nat) (t : Logged Use σ) :
    clusterLoopTraced p stop body (fuel + 1) c t = round body c t >>= fun t =>
      match p.getFATEntry p.fatTableLocation c with
      | .ok next => clusterLoopTraced p stop body fuel next t
      | .error fault => .error ⟨t.log, stop t.value fault⟩ := by
  rw [clusterLoopTraced, clusterLoop, if_pos le]
  apply bind_congr
  intro t
  cases p.getFATEntry p.fatTableLocation c with
  | ok next => rfl
  | error fault => rfl

theorem clusterLoopTraced_above {c : Nat} (above : 0xff0 < c) (fuel : Nat) (t : Logged Use σ) :
    clusterLoopTraced p stop body (fuel + 1) c t = .ok t := by
  rw [clusterLoopTraced, clusterLoop, if_neg (by omega)]
  rfl

theorem clusterLoopTraced_grows (grows : ∀ c t, t.log ⊆ trace (body c t)) : ∀ (fuel c : Nat) (t : Logged Use σ),
    t.log ⊆ trace (clusterLoopTraced p stop body fuel c t) := by
  intro fuel
  induction fuel with
  | zero => exact fun c t _ mem => mem
  | succ fuel ih =>
    intro c t item mem
    rcases Nat.lt_or_ge 0xff0 c with above | le
    · rw [clusterLoopTraced_above above]
      exact mem
    · rw [clusterLoopTraced_succ le]
      refine trace_bind (fun t => ?_) (round_grows grows c t mem)
      cases p.getFATEntry p.fatTableLocation c with
      | ok next => exact ih next t
      | error fault => exact fun _ mem => mem

/-- What the first round logs is logged by the loop. -/
theorem mem_trace_of_round (grows : ∀ c t, t.log ⊆ trace (body c t)) {fuel c : Nat} {t : Logged Use σ} {item : Use}
    (le : c ≤ 0xff0) (here : item ∈ trace (round body c t)) :
    item ∈ trace (clusterLoopTraced p stop body (fuel + 1) c t) := by
  rw [clusterLoopTraced_succ le]
  refine trace_bind (fun t => ?_) here
  cases p.getFATEntry p.fatTableLocation c with
  | ok next => exact clusterLoopTraced_grows grows fuel next t
  | error fault => exact fun _ mem => mem

/-- What the loop logs from the next cluster on is logged by the loop. -/
theorem mem_trace_of_next {fuel c next : Nat} {t t' : Logged Use σ} {item : Use} (le : c ≤ 0xff0)
    (returns : round body c t = .ok t') (fat : p.getFATEntry p.fatTableLocation c = .ok next)
    (later : item ∈ trace (clusterLoopTraced p stop body fuel next t')) :
    item ∈ trace (clusterLoopTraced p stop body (fuel + 1) c t) := by
  rw [clusterLoopTraced_succ le, returns, ok_bind, fat]
  exact later

/-- An invariant of the log, where `R` leads from each cluster to the next. -/
theorem clusterLoopTraced_only {P : Use → Prop} {R : Nat → Nat → Prop}
    (step : ∀ a b t t', a ≤ 0xff0 → body a t = .ok t' → p.getFATEntry p.fatTableLocation a = .ok b → R a b) :
    ∀ {fuel c : Nat} {t : Logged Use σ},
      (∀ a, ReflTransGen R c a → a ≤ 0xff0 → P (.address a) ∧
        (∀ t, (∀ item ∈ t.log, P item) → Only P (body a t)) ∧ ∀ t t', body a t = .ok t' → P (.lookup a)) →
      (∀ item ∈ t.log, P item) → Only P (clusterLoopTraced p stop body fuel c t) := by
  intro fuel
  induction fuel with
  | zero => exact fun _ before => before
  | succ fuel ih =>
    intro c t rounds before
    rcases Nat.lt_or_ge 0xff0 c with above | le
    · rw [clusterLoopTraced_above above]
      exact before
    · obtain ⟨address, inBody, lookup⟩ := rounds c .refl le
      rw [clusterLoopTraced_succ le]
      refine (round_only before address inBody lookup).bind fun t' returns before' => ?_
      cases fat : p.getFATEntry p.fatTableLocation c with
      | error fault => exact before'
      | ok next =>
        obtain ⟨t'', body', _⟩ := bind_eq_ok.1 returns
        exact ih (fun a path => rounds a (.head (step c next _ t'' le body' fat) path)) before'

end Loop

/-! ## The two programs -/

namespace DiskInfo

theorem countSlotTraced_erases {sub : Nat → Except Fault Int}
    {subTraced : Nat → List Use → Except (Logged Use Fault) (Logged Use Int)}
    (nested : ∀ c log, Erases (subTraced c log) (sub c)) (t : Logged Use Int) (s : Slot) :
    Erases (countSlotTraced p subTraced t s) (countSlot p sub t.value s) := by
  rw [countSlotTraced, countSlot]
  refine (erases_keep t.log (p.classify s)).bind fun kind _ same => ?_
  subst same
  cases kind.value with
  | skip => exact .ok rfl
  | file => exact .ok rfl
  | dir => exact (nested (p.flc s) t.log).bind fun sub _ same => .ok (same ▸ rfl)

theorem scanTraced_erases {sub : Nat → Except Fault Int}
    {subTraced : Nat → List Use → Except (Logged Use Fault) (Logged Use Int)}
    (nested : ∀ c log, Erases (subTraced c log) (sub c)) (ss : List Slot) (t : Logged Use Int) :
    Erases (ss.foldlM (countSlotTraced p subTraced) t) (ss.foldlM (countSlot p sub) t.value) :=
  Related.foldlM (fun t _ s same => same ▸ countSlotTraced_erases nested t s) ss rfl

theorem parseSubTraced_erases : ∀ (fuel c : Nat) (log : List Use),
    Erases (parseSubTraced p fuel c log) (parseSub p fuel c) := by
  intro fuel
  induction fuel with
  | zero => exact fun c log => .error rfl
  | succ fuel ih =>
    intro c log
    rw [parseSubTraced, parseSub]
    exact clusterLoopTraced_erases (fun c t => scanTraced_erases ih (clusterSlots c) t) (fuel + 1) c ⟨log, 0⟩

/-- **The log changes nothing.** -/
theorem parseSubTraced_erase (fuel c : Nat) (log : List Use) : erase (parseSubTraced p fuel c log) = parseSub p fuel c :=
  (parseSubTraced_erases fuel c log).erase_eq

/-- What a nested scan logs is logged. -/
theorem mem_trace_countSlot {subTraced : Nat → List Use → Except (Logged Use Fault) (Logged Use Int)}
    {t : Logged Use Int} {s : Slot} (isDir : p.classify s = .ok .dir) {item : Use}
    (nested : item ∈ trace (subTraced (p.flc s) t.log)) : item ∈ trace (countSlotTraced p subTraced t s) := by
  rw [countSlotTraced, isDir]
  simp only [keep, ok_bind]
  refine trace_bind (fun sub => ?_) nested
  exact fun _ mem => mem

theorem countSlotTraced_grows {subTraced : Nat → List Use → Except (Logged Use Fault) (Logged Use Int)}
    (nested : ∀ c log, log ⊆ trace (subTraced c log)) (t : Logged Use Int) (s : Slot) :
    t.log ⊆ trace (countSlotTraced p subTraced t s) := by
  by_cases isDir : p.classify s = .ok .dir
  · exact fun item mem => mem_trace_countSlot isDir (nested _ _ mem)
  · rw [countSlotTraced]
    cases isKind : p.classify s with
    | error fault => exact fun _ mem => mem
    | ok kind =>
      cases kind with
      | skip => exact fun _ mem => mem
      | file => exact fun _ mem => mem
      | dir => exact absurd isKind isDir

theorem parseSubTraced_grows : ∀ (fuel c : Nat) (log : List Use), log ⊆ trace (parseSubTraced p fuel c log) := by
  intro fuel
  induction fuel with
  | zero => exact fun c log _ mem => mem
  | succ fuel ih =>
    intro c log
    rw [parseSubTraced]
    exact clusterLoopTraced_grows (fun c t => trace_foldlM (countSlotTraced_grows ih) _ t) (fuel + 1) c ⟨log, 0⟩

end DiskInfo

namespace DiskList

theorem enterSlotTraced_erases {sub : Nat → Printer → Except Stop Printer}
    {subTraced : Nat → Logged Use Printer → Except (Logged Use Stop) (Logged Use Printer)}
    (nested : ∀ c t, Erases (subTraced c t) (sub c t.value)) (t : Logged Use Printer) (s : Slot) :
    Erases (enterSlotTraced p subTraced t s) (enterSlot p sub t.value s) := by
  rw [enterSlotTraced, enterSlot, descend]
  refine (erases_keep t.log (t.value.checked (p.classify s))).bind fun kind _ same => ?_
  subst same
  cases kind.value with
  | skip => exact .ok rfl
  | file => exact .ok rfl
  | dir => exact nested (p.flc s) _

theorem scanTraced_erases {sub : Nat → Printer → Except Stop Printer}
    {subTraced : Nat → Logged Use Printer → Except (Logged Use Stop) (Logged Use Printer)}
    (nested : ∀ c t, Erases (subTraced c t) (sub c t.value)) (ss : List Slot) (t : Logged Use Printer) :
    Erases (ss.foldlM (enterSlotTraced p subTraced) t) (ss.foldlM (enterSlot p sub) t.value) :=
  Related.foldlM (fun t _ s same => same ▸ enterSlotTraced_erases nested t s) ss rfl

theorem parseSubTraced_erases : ∀ (fuel c : Nat) (t : Logged Use Printer),
    Erases (parseSubTraced p fuel c t) (parseSub p fuel c t.value) := by
  intro fuel
  induction fuel with
  | zero => exact fun c t => .error rfl
  | succ fuel ih =>
    intro c t
    rw [parseSubTraced, parseSub]
    refine (clusterLoopTraced_erases (fun c t => erases_keep t.log _) (fuel + 1) c t).bind fun t _ same => ?_
    subst same
    exact clusterLoopTraced_erases (fun c t => scanTraced_erases ih (clusterSlots c) t) (fuel + 1) c t

/-- **The log changes nothing.** -/
theorem parseSubTraced_erase (fuel c : Nat) (t : Logged Use Printer) :
    erase (parseSubTraced p fuel c t) = parseSub p fuel c t.value :=
  (parseSubTraced_erases fuel c t).erase_eq

/-- What a nested call logs is logged. -/
theorem mem_trace_enterSlot {subTraced : Nat → Logged Use Printer → Except (Logged Use Stop) (Logged Use Printer)}
    {t : Logged Use Printer} {s : Slot} (isDir : p.classify s = .ok .dir) {item : Use}
    (nested : ∀ st, item ∈ trace (subTraced (p.flc s) { t with value := st })) :
    item ∈ trace (enterSlotTraced p subTraced t s) := by
  rw [enterSlotTraced, isDir]
  exact nested _

theorem enterSlotTraced_grows {subTraced : Nat → Logged Use Printer → Except (Logged Use Stop) (Logged Use Printer)}
    (nested : ∀ c t, t.log ⊆ trace (subTraced c t)) (t : Logged Use Printer) (s : Slot) :
    t.log ⊆ trace (enterSlotTraced p subTraced t s) := by
  by_cases isDir : p.classify s = .ok .dir
  · exact fun item mem => mem_trace_enterSlot isDir fun st => nested _ { t with value := st } mem
  · rw [enterSlotTraced]
    cases isKind : p.classify s with
    | error fault => exact fun _ mem => mem
    | ok kind =>
      cases kind with
      | skip => exact fun _ mem => mem
      | file => exact fun _ mem => mem
      | dir => exact absurd isKind isDir

theorem parseSubTraced_grows : ∀ (fuel c : Nat) (t : Logged Use Printer), t.log ⊆ trace (parseSubTraced p fuel c t) := by
  intro fuel
  induction fuel with
  | zero => exact fun c t _ mem => mem
  | succ fuel ih =>
    intro c t item mem
    rw [parseSubTraced]
    refine trace_bind (fun t => ?_) (clusterLoopTraced_grows (fun c t => ?_) (fuel + 1) c t mem)
    · exact clusterLoopTraced_grows (fun c t => trace_foldlM (enterSlotTraced_grows ih) _ t) (fuel + 1) c t
    · rw [trace_keep]
      exact fun _ mem => mem

end DiskList

/-! ## More fuel and other states

A run that returns does so with more fuel and in any state.
-/

namespace DiskInfo

theorem countSlot_returns {sub sub' : Nat → Except Fault Int} (nested : ∀ c, Returns (sub c) (sub' c)) (a b : Int)
    (s : Slot) : Returns (countSlot p sub a s) (countSlot p sub' b s) := by
  rw [countSlot, countSlot]
  refine Returns.bind_same (fun _ => id) fun kind => ?_
  cases kind with
  | skip => exact .ok trivial
  | file => exact .ok trivial
  | dir => exact (nested (p.flc s)).bind fun _ _ _ => .ok trivial

theorem parseSub_returns : ∀ {fuel fuel' : Nat} (c : Nat), fuel ≤ fuel' →
    Returns (parseSub p fuel c) (parseSub p fuel' c) := by
  intro fuel
  induction fuel with
  | zero => exact fun c _ => .undefined trivial
  | succ fuel ih =>
    intro fuel' c more
    obtain ⟨fuel', rfl⟩ : ∃ k, fuel' = k + 1 := ⟨fuel' - 1, by omega⟩
    rw [parseSub, parseSub]
    refine returns_clusterLoop (fun c a b => ?_) more
    exact Related.foldlM (fun a b s _ => countSlot_returns (fun c => ih c (by omega)) a b s) _ trivial

theorem scan_returns {fuel fuel' : Nat} (more : fuel ≤ fuel') (ss : List Slot) (a b : Int) :
    Returns (ss.foldlM (countSlot p (parseSub p fuel)) a) (ss.foldlM (countSlot p (parseSub p fuel')) b) :=
  Related.foldlM (fun a b s _ => countSlot_returns (fun c => parseSub_returns c more) a b s) ss trivial

end DiskInfo

namespace DiskList

/-- What is read does not depend on what has been printed. -/
theorem checked_bind_returns {α β : Type} {st st' : Printer} {x : Except Fault α} {f g : α → Except Stop β}
    (next : ∀ a, Returns (f a) (g a)) : Returns (st.checked x >>= f) (st'.checked x >>= g) :=
  Returns.bind_same (fun _ run => checked_eq_ok.2 (checked_eq_ok.1 run)) next

theorem printEntry_returns (s : Slot) (st st' : Printer) : Returns (printEntry p s st) (printEntry p s st') := by
  rw [printEntry, printEntry]
  refine checked_bind_returns fun kind => ?_
  cases kind with
  | skip => exact .ok trivial
  | file => exact checked_bind_returns fun _ => .ok trivial
  | dir => exact .ok trivial

theorem printSlots_returns : ∀ (left temp : Nat) (st st' : Printer),
    Returns (printSlots p left temp st) (printSlots p left temp st') := by
  intro left
  induction left with
  | zero => exact fun temp st st' => checked_bind_returns fun _ => .ok trivial
  | succ left ih =>
    intro temp st st'
    rw [printSlots, printSlots]
    refine checked_bind_returns fun b => ?_
    by_cases free : b = 0x00
    · rw [if_pos free, if_pos free]
      exact .ok trivial
    · rw [if_neg free, if_neg free]
      exact (printEntry_returns _ st st').bind fun st st' _ => ih (temp + 32) st st'

theorem listSector_returns (a : Nat) (st st' : Printer) : Returns (listSector p a st) (listSector p a st') :=
  (printSlots_returns 16 a st st').bind fun _ _ _ => .ok trivial

theorem enterSlot_returns {sub sub' : Nat → Printer → Except Stop Printer}
    (nested : ∀ c st st', Returns (sub c st) (sub' c st')) (st st' : Printer) (s : Slot) :
    Returns (enterSlot p sub st s) (enterSlot p sub' st' s) := by
  rw [enterSlot, descend, descend]
  refine checked_bind_returns fun kind => ?_
  cases kind with
  | skip => exact .ok trivial
  | file => exact .ok trivial
  | dir => exact nested _ _ _

theorem parseSub_returns : ∀ {fuel fuel' : Nat} (c : Nat) (st st' : Printer), fuel ≤ fuel' →
    Returns (parseSub p fuel c st) (parseSub p fuel' c st') := by
  intro fuel
  induction fuel with
  | zero => exact fun c st st' _ => .undefined trivial
  | succ fuel ih =>
    intro fuel' c st st' more
    obtain ⟨fuel', rfl⟩ : ∃ k, fuel' = k + 1 := ⟨fuel' - 1, by omega⟩
    rw [parseSub, parseSub]
    refine (returns_clusterLoop (fun c st st' => listSector_returns (clusterAddr c) st st') more).bind fun st st' _ => ?_
    refine returns_clusterLoop (fun c st st' => ?_) more
    exact Related.foldlM (fun st st' s _ => enterSlot_returns (fun c st st' => ih c st st' (by omega)) st st' s) _ trivial

theorem scan_returns {fuel fuel' : Nat} (more : fuel ≤ fuel') (ss : List Slot) (st st' : Printer) :
    Returns (ss.foldlM (enterSlot p (parseSub p fuel)) st) (ss.foldlM (enterSlot p (parseSub p fuel')) st') :=
  Related.foldlM (fun st st' s _ => enterSlot_returns (fun c st st' => parseSub_returns c st st' more) st st' s) ss trivial

end DiskList

end CSC360.Disk
