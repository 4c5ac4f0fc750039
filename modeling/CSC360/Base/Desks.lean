import CSC360.Base.Transition

/-!
# Desks

Parties that wait in lines and are called to desks, one at a time to each desk: what a component
that serves them does, whatever its threads, mutexes and conditions. `fifo` says that each line is
what has joined it, less what has been called from it, in the order of the joining. Renaming the
parties renames the states (`foldl_map`).
-/

namespace CSC360.Base

open Function

universe u v w x

variable {κ : Type u} {δ : Type v} {α : Type w} {α' : Type x}

/-- Lines of parties that wait, and desks at which at most one party is served. -/
structure Desks (κ : Type u) (δ : Type v) (α : Type w) where
  line : κ → List α
  desk : δ → Option α

namespace Desks

inductive Event (κ : Type u) (δ : Type v) (α : Type w)
  | join (q : κ) (a : α)
  /-- the first party of the line goes to the desk -/
  | call (k : δ) (q : κ) (a : α)
  | dismiss (k : δ) (a : α)
  deriving DecidableEq

def Event.map (f : α → α') : Event κ δ α → Event κ δ α'
  | .join q a => .join q (f a)
  | .call k q a => .call k q (f a)
  | .dismiss k a => .dismiss k (f a)

/-- Nobody has come yet. -/
def opened : Desks κ δ α := ⟨fun _ => [], fun _ => none⟩

def Can (d : Desks κ δ α) : Event κ δ α → Prop
  | .join _ _ => True
  | .call k q a => d.desk k = none ∧ (d.line q).head? = some a
  | .dismiss k a => d.desk k = some a

instance [DecidableEq α] (d : Desks κ δ α) : DecidablePred d.Can
  | .join _ _ => inferInstanceAs (Decidable True)
  | .call _ _ _ => inferInstanceAs (Decidable (_ ∧ _))
  | .dismiss _ _ => inferInstanceAs (Decidable (_ = _))

/-- The same desks with other names for the parties. -/
def map (f : α → α') (d : Desks κ δ α) : Desks κ δ α' := ⟨fun q => (d.line q).map f, fun k => (d.desk k).map f⟩

variable [DecidableEq κ]

/-- The parties that have joined the line. -/
def joined (q : κ) (es : List (Event κ δ α)) : List α :=
  es.filterMap fun
    | .join q' a => if q' = q then some a else none
    | _ => none

theorem joined_append (q : κ) (es es' : List (Event κ δ α)) : joined q (es ++ es') = joined q es ++ joined q es' :=
  List.filterMap_append

/-- The parties that have been called from the line. -/
def calledFrom (q : κ) (es : List (Event κ δ α)) : List α :=
  es.filterMap fun
    | .call _ q' a => if q' = q then some a else none
    | _ => none

variable [DecidableEq δ]

def next (d : Desks κ δ α) : Event κ δ α → Desks κ δ α
  | .join q a => { d with line := update d.line q (d.line q ++ [a]) }
  | .call k q a => { line := update d.line q (d.line q).tail, desk := update d.desk k (some a) }
  | .dismiss k _ => { d with desk := update d.desk k none }

variable {d : Desks κ δ α} {es : List (Event κ δ α)}

/-- **First come, first called.** -/
theorem fifo (run : Run Can next opened es d) (q : κ) : calledFrom q es ++ d.line q = joined q es := by
  refine run.invariant (I := fun es d => calledFrom q es ++ d.line q = joined q es) rfl ?_
  intro es d e _ holds can
  rw [joined_append, ← holds, calledFrom, List.filterMap_append, ← calledFrom, joined]
  cases e with
  | join q' a =>
    by_cases here : q' = q
    · subst here
      simp [next]
    · simp [next, here, update_of_ne (Ne.symm here)]
  | call k q' a =>
    by_cases here : q' = q
    · subst here
      obtain ⟨rest, split⟩ := List.head?_eq_some_iff.1 can.2
      simp [next, split]
    · simp [next, here, update_of_ne (Ne.symm here)]
  | dismiss k a => simp [next]

/-! ### Lines and desks after an event -/

theorem mem_line_join {q q' : κ} {a b : α} :
    b ∈ (d.next (.join q a)).line q' ↔ b ∈ d.line q' ∨ q = q' ∧ b = a := by
  by_cases here : q' = q
  · subst here
    simp [next]
  · simp [next, update_of_ne here, Ne.symm here]

/-- Only the party that is called leaves its line. -/
theorem mem_line_call {k : δ} {q q' : κ} {a b : α} (can : d.Can (.call k q a)) (once : (d.line q).Nodup) :
    b ∈ (d.next (.call k q a)).line q' ↔ b ∈ d.line q' ∧ (q = q' → b ≠ a) := by
  by_cases here : q' = q
  · subst here
    obtain ⟨rest, split⟩ := List.head?_eq_some_iff.1 can.2
    rw [split] at once
    have new := (List.nodup_cons.1 once).1
    simp only [next, update_self, split, List.tail_cons, List.mem_cons]
    constructor
    · exact fun mem => ⟨.inr mem, fun _ same => new (same ▸ mem)⟩
    · exact fun mem => mem.1.resolve_left (mem.2 trivial)
  · simp [next, update_of_ne here, Ne.symm here]

theorem desk_call_some {k k' : δ} {q : κ} {a b : α} :
    (d.next (.call k q a)).desk k' = some b ↔ k' = k ∧ b = a ∨ k' ≠ k ∧ d.desk k' = some b := by
  by_cases here : k' = k
  · subst here
    simp [next, eq_comm]
  · simp [next, here]

theorem desk_call_none {k k' : δ} {q : κ} {a : α} :
    (d.next (.call k q a)).desk k' = none ↔ k' ≠ k ∧ d.desk k' = none := by
  by_cases here : k' = k
  · subst here
    simp [next]
  · simp [next, here]

theorem desk_dismiss_some {k k' : δ} {a b : α} :
    (d.next (.dismiss k a)).desk k' = some b ↔ k' ≠ k ∧ d.desk k' = some b := by
  by_cases here : k' = k
  · subst here
    simp [next]
  · simp [next, here]

theorem desk_dismiss_none {k k' : δ} {a : α} :
    (d.next (.dismiss k a)).desk k' = none ↔ k' = k ∨ d.desk k' = none := by
  by_cases here : k' = k
  · subst here
    simp [next]
  · simp [next, here]

/-! ### Renaming -/

theorem next_map (f : α → α') (d : Desks κ δ α) (e : Event κ δ α) : (d.map f).next (e.map f) = (d.next e).map f := by
  cases e with
  | join q a => simp only [next, map, Event.map, update_view, List.map_append, List.map_cons, List.map_nil]
  | call k q a => simp only [next, map, Event.map, update_view, List.map_tail, Option.map_some]
  | dismiss k a => simp only [next, map, Event.map, update_view, Option.map_none]

theorem foldl_map (f : α → α') (d : Desks κ δ α) (es : List (Event κ δ α)) :
    (es.map (.map f)).foldl next (d.map f) = (es.foldl next d).map f := by
  induction es generalizing d with
  | nil => rfl
  | cons e es ih => rw [List.map_cons, List.foldl_cons, next_map, ih, List.foldl_cons]

end Desks

end CSC360.Base
