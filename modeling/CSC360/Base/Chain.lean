import Mathlib.Data.Finset.Card

/-!
# Linked cells on a heap

A heap of cells with a value and a next pointer, where `none` is the null pointer.
`Seg h p l q`: following the next pointers from `p`, one meets the cells `l`
(addresses with values) and arrives at `q`. A list that ends in null is unique
(`Seg.unique`), so it has no cycle (`Seg.nodup`). Writes outside a segment keep it
(`Seg.frame`); `Seg.link` adds a cell behind the last one, `Seg.pop` and `Seg.unlink` take
one out and give it back (`Deleted`).
-/

namespace CSC360.Base

universe u

/-- A cell: its value and the pointer to the next one. -/
structure Cell (β : Type u) where
  val : β
  next : Option Nat

/-- The cells at addresses; those from `bound` on have not been allocated yet. -/
structure Heap (β : Type u) where
  cell : Nat → Option (Cell β)
  bound : Nat
  fresh : ∀ a, bound ≤ a → cell a = none

namespace Heap

variable {β : Type u}

/-- The heap without cells. -/
def empty : Heap β := ⟨fun _ => none, 0, fun _ _ => rfl⟩

/-- Replace the content of an allocated cell. -/
def put (h : Heap β) (a : Nat) (c : Option (Cell β)) (inside : a < h.bound) : Heap β where
  cell := Function.update h.cell a c
  bound := h.bound
  fresh b le := by
    rw [Function.update_of_ne (by omega)]
    exact h.fresh b le

/-- A new cell without successor, at address `h.bound`. -/
def alloc (h : Heap β) (v : β) : Heap β where
  cell := Function.update h.cell h.bound (some ⟨v, none⟩)
  bound := h.bound + 1
  fresh b le := by
    rw [Function.update_of_ne (by omega)]
    exact h.fresh b (by omega)

theorem lt_bound {h : Heap β} {a : Nat} {c : Cell β} (found : h.cell a = some c) : a < h.bound := by
  by_contra outside
  rw [h.fresh a (by omega)] at found
  cases found

/-- The write `a->next = p`; `none` when `a` is not allocated. -/
def setNext (h : Heap β) (a : Nat) (p : Option Nat) : Option (Heap β) :=
  match found : h.cell a with
  | none => none
  | some c => some (h.put a (some { c with next := p }) (lt_bound found))

/-- Give a cell back; `none` when it is not allocated. -/
def free (h : Heap β) (a : Nat) : Option (Heap β) :=
  match found : h.cell a with
  | none => none
  | some _ => some (h.put a none (lt_bound found))

theorem free_eq {h : Heap β} {a : Nat} {c : Cell β} (found : h.cell a = some c) :
    ∃ h', h.free a = some h' ∧ h'.bound = h.bound ∧ h'.cell = Function.update h.cell a none := by
  unfold free
  split
  · rename_i missing
    rw [missing] at found
    cases found
  · exact ⟨_, rfl, rfl, rfl⟩

theorem setNext_eq {h : Heap β} {a : Nat} {c : Cell β} (p : Option Nat) (found : h.cell a = some c) :
    ∃ h', h.setNext a p = some h' ∧ h'.bound = h.bound ∧
      h'.cell = Function.update h.cell a (some { c with next := p }) := by
  unfold setNext
  split
  · rename_i missing
    rw [missing] at found
    cases found
  · rename_i c' found'
    obtain rfl := Option.some.inj (found.symm.trans found')
    exact ⟨_, rfl, rfl, rfl⟩

end Heap

variable {β : Type u} {h h' : Heap β} {p q r : Option Nat} {l l' : List (Nat × β)}

/-- The cells `l` lead from `p` to `q`. -/
def Seg (h : Heap β) : Option Nat → List (Nat × β) → Option Nat → Prop
  | p, [], q => p = q
  | p, (a, v) :: l, q => p = some a ∧ ∃ next, h.cell a = some ⟨v, next⟩ ∧ Seg h next l q

namespace Seg

theorem append_iff : Seg h p (l ++ l') q ↔ ∃ m, Seg h p l m ∧ Seg h m l' q := by
  induction l generalizing p with
  | nil => simp [Seg]
  | cons c l ih =>
    obtain ⟨a, v⟩ := c
    simp only [List.cons_append, Seg, ih]
    constructor
    · rintro ⟨rfl, next, found, m, first, second⟩
      exact ⟨m, ⟨rfl, next, found, first⟩, second⟩
    · rintro ⟨m, ⟨rfl, next, found, first⟩, second⟩
      exact ⟨rfl, next, found, m, first, second⟩

/-- The cells on the way to null are unique. -/
theorem unique (left : Seg h p l none) (right : Seg h p l' none) : l = l' := by
  induction l generalizing p l' with
  | nil =>
    cases l' with
    | nil => rfl
    | cons c l' =>
      obtain ⟨a, v⟩ := c
      simp only [Seg] at left right
      rw [left] at right
      simp at right
  | cons c l ih =>
    obtain ⟨a, v⟩ := c
    obtain ⟨rfl, next, found, rest⟩ := left
    cases l' with
    | nil => simp [Seg] at right
    | cons c' l' =>
      obtain ⟨b, w⟩ := c'
      obtain ⟨same, next', found', rest'⟩ := right
      obtain rfl := Option.some.inj same
      rw [found] at found'
      obtain ⟨rfl, rfl⟩ := Cell.mk.inj (Option.some.inj found')
      rw [ih rest rest']

/-- A list that ends in null meets no cell twice. -/
theorem nodup (seg : Seg h p l none) : (l.map Prod.fst).Nodup := by
  induction l generalizing p with
  | nil => exact List.nodup_nil
  | cons c l ih =>
    obtain ⟨a, v⟩ := c
    have whole := seg
    obtain ⟨rfl, next, found, rest⟩ := seg
    rw [List.map_cons, List.nodup_cons]
    refine ⟨fun mem => ?_, ih rest⟩
    -- from the second visit of `a` on, the list would be its own proper suffix
    obtain ⟨⟨b, w⟩, inRest, same⟩ := List.mem_map.1 mem
    obtain rfl : b = a := same
    obtain ⟨before, after, rfl⟩ := List.append_of_mem inRest
    obtain ⟨m, _, second⟩ := append_iff.1 rest
    have start : m = some b := second.1
    rw [start] at second
    have lengths := congrArg List.length (whole.unique second)
    simp only [List.length_cons, List.length_append] at lengths
    omega

theorem cell_of_mem (seg : Seg h p l q) {a : Nat} {v : β} (mem : (a, v) ∈ l) :
    ∃ next, h.cell a = some ⟨v, next⟩ := by
  induction l generalizing p with
  | nil => simp at mem
  | cons c l ih =>
    obtain ⟨b, w⟩ := c
    obtain ⟨rfl, next, found, rest⟩ := seg
    rcases List.mem_cons.1 mem with same | mem
    · obtain ⟨rfl, rfl⟩ := Prod.mk.inj same
      exact ⟨next, found⟩
    · exact ih rest mem

theorem lt_bound (seg : Seg h p l q) {a : Nat} (mem : a ∈ l.map Prod.fst) : a < h.bound := by
  obtain ⟨⟨b, v⟩, inList, rfl⟩ := List.mem_map.1 mem
  obtain ⟨next, found⟩ := seg.cell_of_mem inList
  exact Heap.lt_bound found

/-- A heap that agrees on the cells of a segment has it. -/
theorem frame (seg : Seg h p l q) (same : ∀ a ∈ l.map Prod.fst, h'.cell a = h.cell a) : Seg h' p l q := by
  induction l generalizing p with
  | nil => exact seg
  | cons c l ih =>
    obtain ⟨a, v⟩ := c
    obtain ⟨rfl, next, found, rest⟩ := seg
    refine ⟨rfl, next, ?_, ih rest fun b mem => same b (by simp [mem])⟩
    rw [same a (by simp), found]

/-- There are at least as many addresses as cells in a list. -/
theorem length_le_bound (seg : Seg h p l none) : l.length ≤ h.bound := by
  have addresses : (l.map Prod.fst).toFinset ⊆ Finset.range h.bound := fun a mem =>
    Finset.mem_range.2 (seg.lt_bound (List.mem_toFinset.1 mem))
  have card := Finset.card_le_card addresses
  rwa [List.toFinset_card_of_nodup seg.nodup, List.length_map, Finset.card_range] at card

variable {a b : Nat} {v w : β}

theorem last (seg : Seg h p (l ++ [(a, v)]) none) : h.cell a = some ⟨v, none⟩ := by
  obtain ⟨m, -, rfl, next, found, rest⟩ := append_iff.1 seg
  obtain rfl : next = none := rest
  exact found

/-- The rewritten cell in the middle: the cells before and after it are elsewhere. -/
theorem rewritten {next : Option Nat} (seg : Seg h p (l ++ (a, v) :: l') none)
    (cell : h'.cell = Function.update h.cell a (some ⟨v, next⟩)) : Seg h' p (l ++ [(a, v)]) next := by
  have distinct := seg.nodup
  rw [List.map_append, List.nodup_append] at distinct
  obtain ⟨m, first, rfl, -⟩ := append_iff.1 seg
  refine append_iff.2 ⟨some a, first.frame fun c mem => ?_, rfl, next, ?_, rfl⟩
  · have ne : c ≠ a := distinct.2.2 c mem a (by simp)
    rw [cell, Function.update_of_ne ne]
  · rw [cell, Function.update_self]

/-- Setting the last next pointer adds a cell at the end. -/
theorem link (seg : Seg h p (l ++ [(a, v)]) none) (new : h.cell b = some ⟨w, none⟩)
    (outside : b ∉ (l ++ [(a, v)]).map Prod.fst) :
    ∃ h', h.setNext a (some b) = some h' ∧ Seg h' p (l ++ [(a, v)] ++ [(b, w)]) none ∧
      h'.bound = h.bound ∧ ∀ c, c ≠ a → h'.cell c = h.cell c := by
  obtain ⟨h', write, bound, cell⟩ := Heap.setNext_eq (some b) seg.last
  have ne : b ≠ a := fun same => outside (by simp [same])
  refine ⟨h', write, append_iff.2 ⟨some b, seg.rewritten cell, rfl, none, ?_, rfl⟩, bound, fun c other => ?_⟩
  · rw [cell, Function.update_of_ne ne, new]
  · rw [cell, Function.update_of_ne other]

theorem mem_of_start (seg : Seg h (some b) l none) : b ∈ l.map Prod.fst := by
  cases l with
  | nil => cases seg
  | cons c l =>
    obtain ⟨same, -⟩ := seg
    obtain rfl := Option.some.inj same
    exact List.mem_cons_self

/-- The next pointers of a list stay in it. -/
theorem mem_of_next (seg : Seg h p l none) (mem : a ∈ l.map Prod.fst) {c : Cell β} (found : h.cell a = some c)
    (next : c.next = some b) : b ∈ l.map Prod.fst := by
  induction l generalizing p with
  | nil => cases mem
  | cons d l ih =>
    obtain ⟨e, u⟩ := d
    obtain ⟨rfl, next', found', rest⟩ := seg
    rcases List.mem_cons.1 mem with rfl | later
    · obtain rfl := Option.some.inj (found.symm.trans found')
      obtain rfl : next' = some b := next
      exact List.mem_cons_of_mem _ rest.mem_of_start
    · exact List.mem_cons_of_mem _ (ih rest later)

end Seg

/-- The next pointer of the cell `a`, which led to `b`, now skips `b`. -/
def Skips (h h' : Heap β) (a b : Nat) (c : Cell β) : Prop :=
  c.next = some b ∧ ∃ d, h.cell b = some d ∧ h'.cell a = some { c with next := d.next }

/-- The cell `b` has been taken out of a list and given back; `l` is the list without it. -/
structure Deleted (h h' : Heap β) (p : Option Nat) (b : Nat) (l : List (Nat × β)) : Prop where
  list : Seg h' p l none
  freed : ∀ a, h'.cell a = none ↔ a = b ∨ h.cell a = none
  /-- Only the pointer of the list that led to `b` has changed. -/
  kept : ∀ a c, a ≠ b → h.cell a = some c → h'.cell a = some c ∨ a ∈ l.map Prod.fst ∧ Skips h h' a b c
  start : p ≠ some b
  /-- A cell that still points to `b` is none of the list, and has done so before. -/
  unreferenced : ∀ a c, h'.cell a = some c → c.next = some b → a ∉ l.map Prod.fst ∧ h.cell a = some c

namespace Seg

variable {a b : Nat} {v w : β}

/-- A list does not lead to a cell that is not allocated. -/
theorem deleted (seg : Seg h' p l none) (freed : ∀ a, h'.cell a = none ↔ a = b ∨ h.cell a = none)
    (kept : ∀ a c, a ≠ b → h.cell a = some c → h'.cell a = some c ∨ a ∈ l.map Prod.fst ∧ Skips h h' a b c) :
    Deleted h h' p b l := by
  have outside : b ∉ l.map Prod.fst := by
    intro mem
    obtain ⟨⟨_, v⟩, inList, rfl⟩ := List.mem_map.1 mem
    obtain ⟨next, found⟩ := seg.cell_of_mem inList
    rw [(freed _).2 (.inl rfl)] at found
    cases found
  refine ⟨seg, freed, kept, ?_, fun a c found next => ?_⟩
  · rintro rfl
    exact outside seg.mem_of_start
  · have elsewhere : a ∉ l.map Prod.fst := fun mem => outside (seg.mem_of_next mem found next)
    have survives : ¬ (a = b ∨ h.cell a = none) := by
      rw [← freed, found]
      exact Option.some_ne_none c
    obtain ⟨other, allocated⟩ := not_or.1 survives
    obtain ⟨d, before⟩ := Option.ne_none_iff_exists'.1 allocated
    rcases kept a d other before with same | ⟨mem, -⟩
    · exact ⟨elsewhere, before.trans (same.symm.trans found)⟩
    · exact absurd mem elsewhere

/-- A list keeps its cells when another cell is given back. -/
theorem free_other {c : Cell β} (seg : Seg h p l none) (outside : b ∉ l.map Prod.fst) (found : h.cell b = some c) :
    ∃ h', h.free b = some h' ∧ Seg h' p l none ∧ (∀ a, h'.cell a = none ↔ a = b ∨ h.cell a = none) ∧
      ∀ a, a ≠ b → h'.cell a = h.cell a := by
  obtain ⟨h', free, -, cell⟩ := Heap.free_eq found
  have others : ∀ a, a ≠ b → h'.cell a = h.cell a := fun a other => by rw [cell, Function.update_of_ne other]
  refine ⟨h', free, seg.frame fun a mem => others a ?_, fun a => ?_, others⟩
  · rintro rfl
    exact outside mem
  · by_cases here : a = b
    · rw [here, cell, Function.update_self]
      exact ⟨fun _ => .inl rfl, fun _ => rfl⟩
    · rw [others a here, or_iff_right here]

/-- Going on to the second cell; the first one is then given back. -/
theorem pop (seg : Seg h p ((b, w) :: l) none) :
    ∃ next h', h.cell b = some ⟨w, next⟩ ∧ h.free b = some h' ∧ Deleted h h' next b l := by
  have distinct := seg.nodup
  rw [List.map_cons, List.nodup_cons] at distinct
  obtain ⟨rfl, next, found, rest⟩ := seg
  obtain ⟨h', free, kept, freed, others⟩ := rest.free_other distinct.1 found
  refine ⟨next, h', found, free, kept.deleted freed fun a c other before => .inl ?_⟩
  rw [others a other, before]

/-- Setting a next pointer past the next cell takes that one out. -/
theorem skip (seg : Seg h p (l ++ (a, v) :: (b, w) :: l') none) :
    ∃ next h', h.cell a = some ⟨v, some b⟩ ∧ h.cell b = some ⟨w, next⟩ ∧ h.setNext a next = some h' ∧
      Seg h' p (l ++ (a, v) :: l') none ∧ h'.cell = Function.update h.cell a (some ⟨v, next⟩) := by
  have distinct := seg.nodup
  simp only [List.map_append, List.map_cons, List.nodup_append, List.nodup_cons, List.mem_cons] at distinct
  obtain ⟨m, first, rfl, next₀, cellA, rfl, next, cellB, rest⟩ := append_iff.1 seg
  obtain ⟨h', write, -, cell⟩ := Heap.setNext_eq next cellA
  have front : Seg h' p (l ++ [(a, v)]) next := seg.rewritten cell
  have back : Seg h' next l' none := rest.frame fun c mem => by
    have other : c ≠ a := by
      rintro rfl
      exact distinct.2.1.1 (.inr mem)
    rw [cell, Function.update_of_ne other]
  have linked := append_iff.2 ⟨next, front, back⟩
  rw [List.append_assoc] at linked
  exact ⟨next, h', cellA, cellB, write, linked, cell⟩

/-- The cell that was skipped is then given back. -/
theorem unlink (seg : Seg h p (l ++ (a, v) :: (b, w) :: l') none) :
    ∃ next h₁ h₂, h.cell b = some ⟨w, next⟩ ∧ h.setNext a next = some h₁ ∧ h₁.free b = some h₂ ∧
      Deleted h h₂ p b (l ++ (a, v) :: l') := by
  have distinct := seg.nodup
  simp only [List.map_append, List.map_cons, List.nodup_append, List.nodup_cons, List.mem_cons] at distinct
  have ne : b ≠ a := fun same => distinct.2.1.1 (.inl same.symm)
  have outside : b ∉ (l ++ (a, v) :: l').map Prod.fst := by
    simp only [List.map_append, List.map_cons, List.mem_append, List.mem_cons]
    rintro (before | same | after)
    · exact distinct.2.2 b before b (.inr (.inl rfl)) rfl
    · exact ne same
    · exact distinct.2.1.2.1 after
  obtain ⟨next, h₁, cellA, cellB, write, linked, cell⟩ := seg.skip
  have found : h₁.cell b = some ⟨w, next⟩ := by rw [cell, Function.update_of_ne ne, cellB]
  obtain ⟨h₂, free, kept, freed, others⟩ := linked.free_other outside found
  refine ⟨next, h₁, h₂, cellB, write, free, kept.deleted (fun c => ?_) fun c d other before => ?_⟩
  · -- the write has not changed what is allocated
    rw [freed, cell]
    by_cases previous : c = a
    · simp only [previous, Function.update_self, cellA, reduceCtorEq]
    · rw [Function.update_of_ne previous]
  · by_cases previous : c = a
    · subst previous
      obtain rfl := Option.some.inj (cellA.symm.trans before)
      refine .inr ⟨by simp, rfl, _, cellB, ?_⟩
      rw [others c other, cell, Function.update_self]
    · refine .inl ?_
      rw [others c other, cell, Function.update_of_ne previous, before]

end Seg

end CSC360.Base
