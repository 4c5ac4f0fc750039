import CSC360.Base.Cycles
import CSC360.Base.Ends
import CSC360.Disk.Count
import CSC360.Disk.Listing

/-!
# When the directory walk ends

Neither `parse_sub` keeps track of the clusters it has been at. Its loop goes on to
the cluster that the FAT names, its recursion to the first cluster of a
directory entry. Where these links lead into no cycle both programs' walks end;
from a cluster that a cycle can be reached from they never return.
-/

namespace CSC360.Disk
open CSC360.Base Relation Filter

/-- From cluster `a` a walk goes on to the cluster number `b`: by the FAT entry of `a`
when all slots of `a` are `done`, by a directory entry in `a` when the slots before it are. -/
inductive Leads (p : Image) (done : List Slot → Prop) (a b : Nat) : Prop where
  | next : a ≤ 0xff0 → done (clusterSlots a) → p.getFATEntry p.fatTableLocation a = .ok b → Leads p done a b
  | entry {before s after} : a ≤ 0xff0 → clusterSlots a = before ++ s :: after → done before →
      p.classify s = .ok .dir → p.flc s = b → Leads p done a b

/-- The image links cluster `a` to the cluster number `b`. -/
abbrev Link (p : Image) : Nat → Nat → Prop := Leads p fun _ => True

variable {p : Image}

theorem Leads.le {done : List Slot → Prop} {a b : Nat} (leads : Leads p done a b) : a ≤ 0xff0 := by
  cases leads with
  | next le => exact le
  | entry le => exact le

theorem Leads.mono {done done' : List Slot → Prop} (weaker : ∀ ss, done ss → done' ss) {a b : Nat}
    (leads : Leads p done a b) : Leads p done' a b := by
  cases leads with
  | next le slots fat => exact .next le (weaker _ slots) fat
  | entry le split earlier isDir first => exact .entry le split (weaker _ earlier) isDir first

theorem Link.ofSlot {a : Nat} {s : Slot} (le : a ≤ 0xff0) (mem : s ∈ clusterSlots a)
    (isDir : p.classify s = .ok .dir) : Link p a (p.flc s) := by
  obtain ⟨before, after, split⟩ := List.append_of_mem mem
  exact .entry le split trivial isDir rfl

theorem finite_links : {a | ∃ b, Link p a b}.Finite :=
  (Set.finite_le_nat 0xff0).subset fun _ ⟨_, link⟩ => link.le

theorem pathsEnd_above {c : Nat} (above : 0xff0 < c) : PathsEnd (Link p) c := by
  constructor
  intro b link
  exact absurd link.le (by omega)

section Reads

variable {a n : Nat} {s : Slot} {base : Int}

theorem touch_ne_outOfFuel : p.touch a n ≠ .error .outOfFuel := by
  unfold Image.touch
  split <;> simp

theorem read_ne_outOfFuel : p.read a ≠ .error .outOfFuel := by
  unfold Image.read Image.touch
  split <;> simp [pure, Except.pure]

theorem classify_ne_outOfFuel : p.classify s ≠ .error .outOfFuel := by
  unfold Image.classify Image.touch
  split <;> simp [pure, Except.pure]

theorem getFATEntry_ne_outOfFuel : p.getFATEntry base n ≠ .error .outOfFuel := by
  simp only [Image.getFATEntry]
  split <;> simp

end Reads

/-- The recursion's fuel and the loop's fuel of a call grow with the fuel of the call. -/
theorem tendsto_fuel : Tendsto (fun fuel : Nat => (fuel - 1, fuel)) atTop (atTop ×ˢ atTop) :=
  (tendsto_sub_atTop_nat 1).prodMk tendsto_id

/-- A chain whose directories have no infinite path has none either. -/
theorem Follows.pathsEnd {c : Nat} {cs : List Nat} (follows : Follows p c cs)
    (dirs : ∀ k ∈ cs, ∀ s ∈ clusterSlots k, p.classify s = .ok .dir → PathsEnd (Link p) (p.flc s)) :
    PathsEnd (Link p) c := by
  induction follows with
  | stop above => exact pathsEnd_above above
  | @link c next cs le fat _ ih =>
    have rest := ih fun k mem => dirs k (List.mem_cons_of_mem c mem)
    constructor
    intro b link
    cases link with
    | next _ _ fat' =>
      rw [fat, Except.ok.injEq] at fat'
      exact fat' ▸ rest
    | @entry before s after _ split _ isDir first =>
      have mem : s ∈ clusterSlots c := by rw [split]; simp
      exact first ▸ dirs c (by simp) s mem isDir

/-- **The chain loop ends** where no path of links goes on for ever, if its body ends at every
cluster whose directories lead to ends. The fuel is the pair of the body's and the loop's. -/
theorem clusterLoop_ends {ε σ : Type} {stop : σ → Fault → ε} (body : Nat → Nat → σ → Except ε σ) {Q : ε → Prop}
    (faults : ∀ st fault, fault ≠ .outOfFuel → Q (stop st fault)) {c : Nat} (ends : PathsEnd (Link p) c)
    (bodyEnds : ∀ k, ReflTransGen (Link p) c k → k ≤ 0xff0 → ∀ st, Ends atTop Q fun depth => body depth k st) :
    ∀ st, Ends (atTop ×ˢ atTop) Q fun i : Nat × Nat => clusterLoop p stop (body i.1) i.2 c st := by
  induction ends with
  | intro c _ ih =>
    intro st
    -- One unit of the loop's fuel is used up at `c`.
    have into : Tendsto (fun i : Nat × Nat => (i.1, i.2 - 1)) (atTop ×ˢ atTop) (atTop ×ˢ atTop) :=
      tendsto_fst.prodMk ((tendsto_sub_atTop_nat 1).comp tendsto_snd)
    have enough : ∀ᶠ i : Nat × Nat in atTop ×ˢ atTop, i.2 - 1 + 1 = i.2 := by
      filter_upwards [tendsto_snd.eventually (eventually_ge_atTop 1)] with i le
      omega
    have unfolds : ∀ᶠ i : Nat × Nat in atTop ×ˢ atTop, clusterLoop p stop (body i.1) i.2 c st =
        (fun j : Nat × Nat => clusterLoop p stop (body j.1) (j.2 + 1) c st) (i.1, i.2 - 1) := by
      filter_upwards [enough] with i eq
      rw [eq]
    have unfolded : Ends (atTop ×ˢ atTop) Q
        fun j : Nat × Nat => clusterLoop p stop (body j.1) (j.2 + 1) c st := by
      by_cases le : c ≤ 0xff0
      · simp only [clusterLoop, if_pos le]
        apply Ends.bind
        · exact (bodyEnds c .refl le st).comp tendsto_fst
        · intro st' _
          cases fat : p.getFATEntry p.fatTableLocation c with
          | ok b =>
            have link : Link p c b := .next le trivial fat
            simp only [mapError_ok, ok_bind]
            exact ih b link (fun k path => bodyEnds k (.head link path)) st'
          | error fault =>
            have notFuel : fault ≠ .outOfFuel := fun same => getFATEntry_ne_outOfFuel (same ▸ fat)
            simp only [mapError_error, error_bind]
            exact Ends.of_error (.of_forall fun _ => rfl) (faults st' fault notFuel)
      · simp only [clusterLoop, if_neg le]
        exact Ends.of_ok (.of_forall fun _ => rfl)
    exact (unfolded.comp into).congr unfolds

/-! ## `diskinfo` -/

namespace DiskInfo

theorem countSlot_ends {s : Slot} {Q : Fault → Prop} (faults : ∀ fault, p.classify s = .error fault → Q fault)
    (sub : p.classify s = .ok .dir → Ends atTop Q fun fuel => parseSub p fuel (p.flc s)) (total : Int) :
    Ends atTop Q fun fuel => countSlot p (parseSub p fuel) total s := by
  unfold countSlot
  cases isKind : p.classify s with
  | error fault => exact Ends.of_error (.of_forall fun _ => rfl) (faults fault isKind)
  | ok kind =>
    simp only [ok_bind]
    cases kind with
    | skip => exact Ends.of_ok (.of_forall fun _ => rfl)
    | file => exact Ends.of_ok (.of_forall fun _ => rfl)
    | dir => exact (sub isKind).bind fun _ _ => Ends.of_ok (.of_forall fun _ => rfl)

theorem parseSub_ends {c : Nat} (ends : PathsEnd (Link p) c) :
    Ends atTop (· ≠ Fault.outOfFuel) fun fuel => parseSub p fuel c := by
  apply ends.rec_reached
  intro c ends ih
  have loop : Ends (atTop ×ˢ atTop) (· ≠ Fault.outOfFuel) fun i : Nat × Nat =>
      clusterLoop p (fun _ fault => fault)
        (fun k total => (clusterSlots k).foldlM (countSlot p (parseSub p i.1)) total) i.2 c 0 := by
    apply clusterLoop_ends
      (fun depth k total => (clusterSlots k).foldlM (countSlot p (parseSub p depth)) total) (by simp) ends
    intro k path le total
    apply Ends.foldlM
    intro before s after total' split _
    have mem : s ∈ clusterSlots k := by rw [split]; simp
    have faults : ∀ fault, p.classify s = .error fault → fault ≠ .outOfFuel :=
      fun fault fails same => classify_ne_outOfFuel (same ▸ fails)
    exact countSlot_ends faults (fun isDir => ih _ (.tail' path (.ofSlot le mem isDir))) total'
  apply (loop.comp tendsto_fuel).congr
  filter_upwards [eventually_ge_atTop 1] with fuel le
  obtain ⟨depth, rfl⟩ : ∃ depth, fuel = depth + 1 := ⟨fuel - 1, by omega⟩
  rfl

/-- A walk that returns has come to the end of every path. -/
theorem parseSub_pathsEnd : ∀ {fuel c : Nat} {r : Int}, parseSub p fuel c = .ok r → PathsEnd (Link p) c := by
  intro fuel
  induction fuel with
  | zero => intro c r run; simp [parseSub] at run
  | succ fuel ih =>
    intro c r run
    obtain ⟨cs, follows, _, folded⟩ := clusterLoop_ok (parseSub.eq_2 .. ▸ run)
    apply follows.pathsEnd
    intro k inChain s inCluster isDir
    obtain ⟨total, total', cluster⟩ := exists_step_of_foldlM inChain folded
    obtain ⟨before, after, slot⟩ := exists_step_of_foldlM inCluster cluster
    rw [countSlot, isDir, ok_bind] at slot
    obtain ⟨sub, returns, _⟩ := bind_eq_ok.1 slot
    exact ih returns

end DiskInfo

/-! ## `disklist` -/

namespace DiskList

/-- No error but a read outside the mapping stops the printing. -/
abbrev Terminates (f : Nat → Except Stop Printer) : Prop := Ends atTop (fun e => e.fault ≠ .outOfFuel) f

theorem Terminates.checked {α : Type} {st : Printer} {x : Except Fault α} (never : x ≠ .error .outOfFuel)
    {f : Nat → α → Except Stop Printer} (next : ∀ a, x = .ok a → Terminates fun fuel => f fuel a) :
    Terminates fun fuel => st.checked x >>= f fuel := by
  cases x with
  | ok a => exact next a rfl
  | error fault => exact Ends.of_error (.of_forall fun _ => rfl) fun same : fault = _ => never (same ▸ rfl)

theorem terminates_pure {st : Printer} : Terminates fun _ => .ok st := Ends.of_const (by simp)

theorem printEntry_terminates {s : Slot} {st : Printer} : Terminates fun _ => printEntry p s st := by
  unfold printEntry
  apply Terminates.checked classify_ne_outOfFuel
  intro kind _
  cases kind with
  | skip => exact terminates_pure
  | file => exact Terminates.checked touch_ne_outOfFuel fun _ _ => terminates_pure
  | dir => exact terminates_pure

theorem printSlots_terminates : ∀ {left temp : Nat} {st : Printer},
    Terminates fun _ => printSlots p left temp st := by
  intro left
  induction left with
  | zero => exact fun {_ _} => Terminates.checked read_ne_outOfFuel fun _ _ => terminates_pure
  | succ left ih =>
    intro temp st
    unfold printSlots
    apply Terminates.checked read_ne_outOfFuel
    intro b _
    split
    · exact terminates_pure
    · exact printEntry_terminates.bind fun _ _ => ih

theorem listSector_terminates {a : Nat} {st : Printer} : Terminates fun _ => listSector p a st :=
  Ends.bind printSlots_terminates fun _ _ => terminates_pure

theorem enterSlot_ends {s : Slot} {Q : Stop → Prop}
    (faults : ∀ (st : Printer) fault, p.classify s = .error fault → Q (st.stop fault))
    (sub : p.classify s = .ok .dir → ∀ st, Ends atTop Q fun fuel => parseSub p fuel (p.flc s) st) (st : Printer) :
    Ends atTop Q fun fuel => enterSlot p (parseSub p fuel) st s := by
  unfold enterSlot descend
  cases isKind : p.classify s with
  | error fault => exact Ends.of_error (.of_forall fun _ => rfl) (faults st fault isKind)
  | ok kind =>
    simp only [checked_ok, ok_bind]
    cases kind with
    | skip => exact Ends.of_ok (.of_forall fun _ => rfl)
    | file => exact Ends.of_ok (.of_forall fun _ => rfl)
    | dir => exact sub isKind _

theorem parseSub_ends {c : Nat} (ends : PathsEnd (Link p) c) : ∀ st, Terminates fun fuel => parseSub p fuel c st := by
  apply ends.rec_reached
  intro c ends ih st
  have listing : Ends (atTop ×ˢ atTop) (fun e : Stop => e.fault ≠ .outOfFuel) fun i : Nat × Nat =>
      clusterLoop p Printer.stop (fun k st => listSector p (clusterAddr k) st) i.2 c st := by
    apply clusterLoop_ends (fun _ k st => listSector p (clusterAddr k) st) (fun _ _ notFuel => notFuel) ends
    exact fun k _ _ st => listSector_terminates
  have entering : ∀ st, Ends (atTop ×ˢ atTop) (fun e : Stop => e.fault ≠ .outOfFuel) fun i : Nat × Nat =>
      clusterLoop p Printer.stop (fun k st => (clusterSlots k).foldlM (enterSlot p (parseSub p i.1)) st) i.2 c st := by
    apply clusterLoop_ends (fun depth k st => (clusterSlots k).foldlM (enterSlot p (parseSub p depth)) st)
      (fun _ _ notFuel => notFuel) ends
    intro k path le st
    apply Ends.foldlM
    intro before s after st' split _
    have mem : s ∈ clusterSlots k := by rw [split]; simp
    have faults : ∀ (st : Printer) fault, p.classify s = .error fault → (st.stop fault).fault ≠ .outOfFuel :=
      fun _ fault fails same => classify_ne_outOfFuel (fails.trans (congrArg Except.error same))
    exact enterSlot_ends faults (fun isDir => ih _ (.tail' path (.ofSlot le mem isDir))) st'
  apply ((listing.bind fun st' _ => entering st').comp tendsto_fuel).congr
  filter_upwards [eventually_ge_atTop 1] with fuel le
  obtain ⟨depth, rfl⟩ : ∃ depth, fuel = depth + 1 := ⟨fuel - 1, by omega⟩
  rfl

theorem parseSub_pathsEnd : ∀ {fuel c : Nat} {st r : Printer}, parseSub p fuel c st = .ok r →
    PathsEnd (Link p) c := by
  intro fuel
  induction fuel with
  | zero => intro c st r run; simp [parseSub] at run
  | succ fuel ih =>
    intro c st r run
    rw [parseSub, bind_eq_ok] at run
    obtain ⟨st', _, run⟩ := run
    obtain ⟨cs, follows, _, folded⟩ := clusterLoop_ok run
    apply follows.pathsEnd
    intro k inChain s inCluster isDir
    obtain ⟨st, st', cluster⟩ := exists_step_of_foldlM inChain folded
    obtain ⟨before, after, slot⟩ := exists_step_of_foldlM inCluster cluster
    rw [enterSlot, descend, isDir, checked_ok, ok_bind] at slot
    exact ih slot

end DiskList

/-- **Walks and cycles.** Both walks end, in a result or in a read outside the mapping, from
every cluster that no cycle of links is reached from; where one is reached, neither returns. -/
theorem walks_end_without_cycles (p : Image) (c : Nat) :
    (CycleFree (Link p) c →
      (∃ r, Settles (fun fuel => DiskInfo.parseSub p fuel c) r ∧ r ≠ .error .outOfFuel) ∧
      ∀ st, ∃ r, Settles (fun fuel => DiskList.parseSub p fuel c st) r ∧ ∀ e, r = .error e → e.fault ≠ .outOfFuel) ∧
    (¬ CycleFree (Link p) c →
      (∀ fuel r, DiskInfo.parseSub p fuel c ≠ .ok r) ∧ ∀ fuel st r, DiskList.parseSub p fuel c st ≠ .ok r) := by
  constructor
  · intro free
    have ends : PathsEnd (Link p) c := free.pathsEnd finite_links
    constructor
    · obtain ⟨r, settles, notFuel⟩ := (DiskInfo.parseSub_ends ends).settles
      exact ⟨r, settles, fun same => notFuel _ same rfl⟩
    · exact fun st => (DiskList.parseSub_ends ends st).settles
  · intro cycle
    constructor
    · exact fun fuel r run => cycle (DiskInfo.parseSub_pathsEnd run).cycleFree
    · exact fun fuel st r run => cycle (DiskList.parseSub_pathsEnd run).cycleFree

/-- A loop at a cluster whose FAT entry names itself uses up every fuel. -/
theorem clusterLoop_selfLink {ε σ : Type} (stop : σ → Fault → ε) (body : Nat → σ → Except ε σ) {c : Nat}
    (le : c ≤ 0xff0) (fat : p.getFATEntry p.fatTableLocation c = .ok c) (returns : ∀ st, ∃ st', body c st = .ok st') :
    ∀ (fuel : Nat) (st : σ), ∃ st', clusterLoop p stop body fuel c st = .error (stop st' .outOfFuel) := by
  intro fuel
  induction fuel with
  | zero => exact fun st => ⟨st, rfl⟩
  | succ fuel ih =>
    intro st
    obtain ⟨st', body⟩ := returns st
    simp only [clusterLoop, if_pos le, body, fat, mapError_ok, ok_bind]
    exact ih st'

/-- An image of 34 sectors: the FAT entry of cluster 2 is 2, the cluster is blank. -/
def selfLink : Image where
  size := 17408
  byte a := if a.val = 12 then 2 else if a.val = 14 then 1 else if a.val = 19 then 34 else if a.val = 515 then 2 else 0

theorem selfLink_fat : selfLink.getFATEntry selfLink.fatTableLocation 2 = .ok 2 := by decide +kernel

theorem selfLink_blank : ∀ s ∈ clusterSlots 2, selfLink.classify s = .ok .skip := by decide +kernel

theorem walks_of_selfLink_never_end :
    (∀ fuel, DiskInfo.parseSub selfLink fuel 2 = .error .outOfFuel) ∧
      ∀ fuel st, ∃ e, DiskList.parseSub selfLink fuel 2 st = .error e ∧ e.fault = .outOfFuel := by
  have listable : DiskList.Listable selfLink (clusterAddr 2) := ⟨by decide, .inl ⟨⟨16896, true⟩, by decide, by decide⟩⟩
  constructor
  · intro fuel
    cases fuel with
    | zero => rfl
    | succ fuel =>
      have scan : ∀ total, (clusterSlots 2).foldlM
          (DiskInfo.countSlot selfLink (DiskInfo.parseSub selfLink fuel)) total = .ok total := by
        intro total
        apply foldlM_unchanged
        intro s mem
        rw [DiskInfo.countSlot, selfLink_blank s mem]
        rfl
      obtain ⟨_, run⟩ := clusterLoop_selfLink (fun _ fault => fault)
        (fun k total => (clusterSlots k).foldlM (DiskInfo.countSlot selfLink (DiskInfo.parseSub selfLink fuel)) total)
        (by decide) selfLink_fat (fun total => ⟨total, scan total⟩) (fuel + 1) 0
      exact run
  · intro fuel st
    cases fuel with
    | zero => exact ⟨_, rfl, rfl⟩
    | succ fuel =>
      obtain ⟨st', run⟩ := clusterLoop_selfLink DiskList.Printer.stop
        (fun k st => DiskList.listSector selfLink (clusterAddr k) st) (by decide) selfLink_fat
        (fun st => ⟨_, DiskList.listSector_eq listable st⟩) (fuel + 1) st
      refine ⟨st'.stop .outOfFuel, ?_, rfl⟩
      rw [DiskList.parseSub, run, error_bind]

end CSC360.Disk
