import CSC360.Base.Related
import CSC360.Base.Forest
import CSC360.Disk.Image

/-!
# The directories a walk visits

Both programs descend in the same way: a scanned slot of kind `dir` is entered,
the chain from its first cluster is followed while the entries are at most
`0xff0`, and the slots of the chain's clusters are scanned in turn. `Walk`
relates scanned slots to the ordered forest of directories met this way. A chain
loop is a fold over the chain (`clusterLoop_eq`), and a chain loop that returns
has followed a chain (`clusterLoop_ok`).
-/

namespace CSC360.Disk
open CSC360.Base

/-- A directory met by a walk: its entry and the clusters of its chain. -/
structure Dir where
  entry : Slot
  chain : List Nat
  deriving DecidableEq, Repr

/-- The slots of a directory, in on-disk order. -/
def Dir.slots (d : Dir) : List Slot := d.chain.flatMap clusterSlots

/-- The walk enters slot `s` as the directory `d`. -/
structure Enters (p : Image) (s : Slot) (d : Dir) : Prop where
  entry : d.entry = s
  kind : p.kind s = .dir
  chain : Follows p (p.flc s) d.chain

/-- The walk of the slots `ss` visits the forest `f`. -/
abbrev Walk (p : Image) : List Slot → Forest Dir → Prop :=
  Unfolds (Enters p) (fun s => p.kind s ≠ .dir) Dir.slots

/-- All slots a walk scans. -/
abbrev scanned (ss : List Slot) (f : Forest Dir) : List Slot := places Dir.slots ss f

/-- The fields a scan reads of the slot lie inside the mapping. -/
def Readable (p : Image) (s : Slot) : Prop := s.addr + 28 ≤ p.size

/-- The root slots from `i` on, `n` of them. -/
def rootSlots (i n : Nat) : List Slot := (List.range' i n).map rootSlot

/-- The root directory has a `0x00` slot, the first one after `n` others from slot `i` on. -/
structure RootEnds (p : Image) (i n : Nat) : Prop where
  used : ∀ j, j < n → p.first (rootSlot (i + j)) ≠ 0
  free : p.first (rootSlot (i + n)) = 0
  inside : (rootSlot (i + n)).addr + 1 ≤ p.size

/-- How many of the slots are files. -/
def fileCount (p : Image) (ss : List Slot) : Nat := ss.countP fun s => p.kind s = .file

variable {p : Image}

theorem Follows.unique {c : Nat} {cs ds : List Nat} (h : Follows p c cs) (h' : Follows p c ds) :
    cs = ds := by
  induction h generalizing ds with
  | stop above =>
    cases h' with
    | stop => rfl
    | link le _ _ => omega
  | link le next _ ih =>
    cases h' with
    | stop above => omega
    | link _ next' rest =>
      cases next.symm.trans next'
      rw [ih rest]

theorem deterministic_enters : Deterministic (Enters p) (fun s => p.kind s ≠ .dir) where
  label := by
    intro s a b ha hb
    cases a; cases b
    have entry := ha.entry.trans hb.entry.symm
    have chain := ha.chain.unique hb.chain
    simp only at entry chain
    rw [entry, chain]
  notLeaf entered leaf := leaf entered.kind

section ChainLoop

variable {ε σ : Type} {stop : σ → Fault → ε} {body : Nat → σ → Except ε σ}

/-- **The chain loop** is the fold of its body over the chain. -/
theorem clusterLoop_eq {c : Nat} {cs : List Nat} (follows : Follows p c cs) :
    ∀ {fuel : Nat} {st : σ}, cs.length < fuel →
      clusterLoop p stop body fuel c st = cs.foldlM (fun st c => body c st) st := by
  induction follows with
  | stop above =>
    intro fuel st lt
    obtain ⟨fuel, rfl⟩ : ∃ k, fuel = k + 1 := ⟨fuel - 1, by simp at lt; omega⟩
    rw [clusterLoop, if_neg (by omega)]
    rfl
  | @link c next cs le entry _ ih =>
    intro fuel st lt
    obtain ⟨fuel, rfl⟩ : ∃ k, fuel = k + 1 := ⟨fuel - 1, by simp at lt; omega⟩
    rw [clusterLoop, if_pos le, List.foldlM_cons]
    apply bind_congr
    intro st
    rw [entry, mapError_ok, ok_bind]
    exact ih (by simpa using lt)

/-- A chain loop that returns has followed a chain and folded its body over it. -/
theorem clusterLoop_ok : ∀ {fuel c : Nat} {st r : σ}, clusterLoop p stop body fuel c st = .ok r →
    ∃ cs, Follows p c cs ∧ cs.length < fuel ∧ cs.foldlM (fun st c => body c st) st = .ok r := by
  intro fuel
  induction fuel with
  | zero => intro c st r h; simp [clusterLoop] at h
  | succ fuel ih =>
    intro c st r h
    rw [clusterLoop] at h
    by_cases le : c ≤ 0xff0
    · rw [if_pos le] at h
      obtain ⟨st', first, h⟩ := bind_eq_ok.1 h
      obtain ⟨next, entry, h⟩ := bind_eq_ok.1 h
      obtain ⟨cs, follows, len, rest⟩ := ih h
      refine ⟨c :: cs, .link le (mapError_eq_ok.1 entry) follows, by simpa using len, ?_⟩
      rw [List.foldlM_cons, first, ok_bind]
      exact rest
    · rw [if_neg le] at h
      cases h
      exact ⟨[], .stop (by omega), by simp, rfl⟩

/-- Chain loops with related bodies are related. -/
theorem related_clusterLoop {ε' σ' : Type} {S : σ → σ' → Prop} {E : ε → ε' → Prop} {U : ε → Prop}
    {stop' : σ' → Fault → ε'} {body' : Nat → σ' → Except ε' σ'}
    (bodies : ∀ c a b, S a b → Related S E U (body c a) (body' c b))
    (stops : ∀ a b fault, S a b → E (stop a fault) (stop' b fault)) : ∀ {fuel c : Nat} {a : σ} {b : σ'}, S a b →
      Related S E U (clusterLoop p stop body fuel c a) (clusterLoop p stop' body' fuel c b) := by
  intro fuel
  induction fuel with
  | zero => exact fun same => .error (stops _ _ _ same)
  | succ fuel ih =>
    intro c a b same
    rw [clusterLoop, clusterLoop]
    by_cases le : c ≤ 0xff0
    · rw [if_pos le, if_pos le]
      refine (bodies c a b same).bind fun a b same => ?_
      exact (Related.mapError (S := Eq) (fun _ => rfl) (stops a b · same) _).bind fun _ _ next => next ▸ ih same
    · rw [if_neg le, if_neg le]
      exact .ok same

/-- More rounds do no harm. -/
theorem returns_clusterLoop {ε' σ' : Type} {stop' : σ' → Fault → ε'} {body' : Nat → σ' → Except ε' σ'}
    (bodies : ∀ c a b, Returns (body c a) (body' c b)) : ∀ {fuel fuel' c : Nat} {a : σ} {b : σ'}, fuel ≤ fuel' →
      Returns (clusterLoop p stop body fuel c a) (clusterLoop p stop' body' fuel' c b) := by
  intro fuel
  induction fuel with
  | zero => exact fun _ => .undefined trivial
  | succ fuel ih =>
    intro fuel' c a b more
    obtain ⟨fuel', rfl⟩ : ∃ k, fuel' = k + 1 := ⟨fuel' - 1, by omega⟩
    rw [clusterLoop, clusterLoop]
    by_cases le : c ≤ 0xff0
    · rw [if_pos le, if_pos le]
      refine (bodies c a b).bind fun a b _ => Returns.bind_same (fun next fat => ?_) fun next => ih (by omega)
      exact mapError_eq_ok.2 (mapError_eq_ok.1 fat)
    · rw [if_neg le, if_neg le]
      exact .ok trivial

end ChainLoop

theorem classify_eq_ok {s : Slot} {k : Kind} :
    p.classify s = .ok k ↔ Readable p s ∧ k = p.kind s := by
  unfold Image.classify Readable
  rw [bind_eq_ok]
  constructor
  · rintro ⟨_, inside, h⟩
    exact ⟨Image.touch_eq_ok.1 inside, (Except.ok.inj h).symm⟩
  · rintro ⟨inside, rfl⟩
    exact ⟨(), Image.touch_eq_ok.2 inside, rfl⟩

theorem rootSlots_succ (i n : Nat) : rootSlots i (n + 1) = rootSlot i :: rootSlots (i + 1) n := by
  simp [rootSlots, List.range'_succ]

theorem mem_rootSlots {i n : Nat} {s : Slot} : s ∈ rootSlots i n ↔ ∃ j, j < n ∧ s = rootSlot (i + j) := by
  simp [rootSlots, List.mem_range', eq_comm]

theorem rootSlots_append (i m k : Nat) : rootSlots i (m + k) = rootSlots i m ++ rootSlots (i + m) k := by
  simp [rootSlots, ← List.range'_append_1, List.map_append]

theorem rootSlots_take (i n k : Nat) : (rootSlots i n).take k = rootSlots i (min n k) := by
  rcases Nat.le_total k n with le | le
  · obtain ⟨r, rfl⟩ := Nat.exists_eq_add_of_le le
    rw [rootSlots_append, Nat.min_eq_right le, List.take_left' (by simp [rootSlots])]
  · rw [Nat.min_eq_left le, List.take_of_length_le (by simp [rootSlots, le])]

theorem RootEnds.skip {i m k : Nat} (h : RootEnds p i (m + k)) : RootEnds p (i + k) m where
  used j lt := by rw [Nat.add_assoc]; exact h.used (k + j) (by omega)
  free := by rw [Nat.add_assoc, Nat.add_comm k]; exact h.free
  inside := by rw [Nat.add_assoc, Nat.add_comm k]; exact h.inside

theorem RootEnds.tail {i n : Nat} (h : RootEnds p i (n + 1)) : RootEnds p (i + 1) n := h.skip

theorem RootEnds.cons {i n : Nat} (h : RootEnds p (i + 1) n) (used : p.first (rootSlot i) ≠ 0) :
    RootEnds p i (n + 1) where
  used j lt := by
    rcases j with _ | j
    · exact used
    · rw [← Nat.add_assoc, Nat.add_right_comm]
      exact h.used j (by omega)
  free := by rw [← Nat.add_assoc, Nat.add_right_comm]; exact h.free
  inside := by rw [← Nat.add_assoc, Nat.add_right_comm]; exact h.inside

/-- The number of root slots before the first `0x00` slot is unique. -/
theorem RootEnds.unique {i n m : Nat} (h : RootEnds p i n) (h' : RootEnds p i m) : n = m := by
  rcases Nat.lt_trichotomy n m with lt | eq | gt
  · exact absurd h.free (h'.used n lt)
  · exact eq
  · exact absurd h'.free (h.used m gt)

@[simp] theorem fileCount_nil : fileCount p [] = 0 := rfl

theorem fileCount_append (ss ts : List Slot) :
    fileCount p (ss ++ ts) = fileCount p ss + fileCount p ts :=
  List.countP_append

theorem fileCount_cons_file {s : Slot} {ss : List Slot} (h : p.kind s = .file) :
    fileCount p (s :: ss) = fileCount p ss + 1 := by
  simp [fileCount, h]

theorem fileCount_cons_other {s : Slot} {ss : List Slot} (h : p.kind s ≠ .file) :
    fileCount p (s :: ss) = fileCount p ss := by
  simp [fileCount, h]

theorem fileCount_scanned_leaf {s : Slot} {ss : List Slot} {f : Forest Dir} :
    fileCount p (scanned (s :: ss) f) = fileCount p [s] + fileCount p (scanned ss f) := by
  rw [scanned, places, List.cons_append, ← List.singleton_append, fileCount_append]
  rfl

theorem fileCount_scanned_enter {s : Slot} {ss : List Slot} {d : Dir} {kids rest : Forest Dir}
    (h : p.kind s = .dir) :
    fileCount p (scanned (s :: ss) (.cons d kids rest)) =
      fileCount p (scanned d.slots kids) + fileCount p (scanned ss rest) := by
  have notFile : p.kind s ≠ .file := by rw [h]; decide
  simp only [scanned, places, Forest.nodes, List.cons_append, List.flatMap_cons, List.flatMap_append,
    fileCount_cons_other notFile, fileCount_append]
  omega

/-- Entering a slot scans the slot, the directory behind it and the other slots. -/
theorem mem_scanned_enter {s t : Slot} {ss : List Slot} {d : Dir} {kids rest : Forest Dir} :
    t ∈ scanned (s :: ss) (.cons d kids rest) ↔
      t = s ∨ t ∈ scanned d.slots kids ∨ t ∈ scanned ss rest := by
  simp only [scanned, places, Forest.nodes, List.mem_append, List.mem_cons, List.flatMap_cons,
    List.flatMap_append]
  tauto

theorem mem_scanned_leaf {s t : Slot} {ss : List Slot} {f : Forest Dir} :
    t ∈ scanned (s :: ss) f ↔ t = s ∨ t ∈ scanned ss f := by
  simp [scanned, places]

end CSC360.Disk
