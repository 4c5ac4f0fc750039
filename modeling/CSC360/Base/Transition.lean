import Mathlib.Logic.Function.Basic

/-!
# Runs of a transition system

A system is given by what it can do in a state (`can`) and the state this leads to
(`next`). A `Run` is a finite sequence of actions from a start state; restricting
`can` restricts the runs (`Run.mono`), a view of the states shows runs again (`Run.image`),
and a relation that matches steps matches runs (`Run.simulates`). A run shows a `trace` of events;
a relation that matches what the steps show matches runs with traces (`Run.refines`). `Run.invariant`
is the induction rule for properties of the state reached and of the actions taken, and
`Run.of_check` turns the evaluation of a given sequence into a run. `Run.bounded` and
`Run.completes` are the rules for runs whose actions lower a rank. `foldlM_simulates` is
the refinement rule for calls that may fail. The last section is about states with a
component for each party, of which a step moves one.
-/

namespace CSC360.Base

universe u v w x

variable {σ : Type u} {α : Type v} {can can' : σ → α → Prop} {next : σ → α → σ}

/-- The actions lead from `s₀` to the state. -/
inductive Run (can : σ → α → Prop) (next : σ → α → σ) (s₀ : σ) : List α → σ → Prop where
  | start : Run can next s₀ [] s₀
  | step {as s a} : Run can next s₀ as s → can s a → Run can next s₀ (as ++ [a]) (next s a)

namespace Run

variable {s₀ s s' : σ} {as as' : List α} {a : α}

theorem mono (le : ∀ s a, can s a → can' s a) (run : Run can next s₀ as s) : Run can' next s₀ as s := by
  induction run with
  | start => exact .start
  | step _ enabled ih => exact .step ih (le _ _ enabled)

/-- **The invariant rule.** What holds at the start and is kept by every action that
some run can take holds after every run. -/
theorem invariant {I : List α → σ → Prop} (init : I [] s₀)
    (kept : ∀ as s a, Run can next s₀ as s → I as s → can s a → I (as ++ [a]) (next s a))
    (run : Run can next s₀ as s) : I as s := by
  induction run with
  | start => exact init
  | step run enabled ih => exact kept _ _ _ run ih enabled

/-- **Runs seen through `f`**: if every step is a step of what `f` shows, or not seen at all, then
`f` shows a run. -/
theorem image {τ : Type w} {canSeen : τ → α → Prop} {nextSeen : τ → α → τ} {f : σ → τ}
    (seen : ∀ as s a, Run can next s₀ as s → can s a →
      f (next s a) = f s ∨ canSeen (f s) a ∧ f (next s a) = nextSeen (f s) a)
    (run : Run can next s₀ as s) : ∃ as', Run canSeen nextSeen (f s₀) as' (f s) := by
  induction run with
  | start => exact ⟨[], .start⟩
  | @step _ _ a run enabled ih =>
    obtain ⟨as', image⟩ := ih
    obtain same | ⟨enabled', same⟩ := seen _ _ _ run enabled
    · exact ⟨as', by rwa [same]⟩
    · refine ⟨as' ++ [a], ?_⟩
      rw [same]
      exact .step image enabled'

/-- **The simulation rule**: a relation that matches the starts, and each step with the step of the
same name, matches the runs. -/
theorem simulates {τ : Type w} {canSeen : τ → α → Prop} {nextSeen : τ → α → τ} {R : σ → τ → Prop} {t₀ : τ}
    (starts : R s₀ t₀) (step : ∀ s t a, R s t → can s a → canSeen t a ∧ R (next s a) (nextSeen t a))
    (run : Run can next s₀ as s) : ∃ t, Run canSeen nextSeen t₀ as t ∧ R s t := by
  induction run with
  | start => exact ⟨t₀, .start, starts⟩
  | @step _ s a _ enabled ih =>
    obtain ⟨t, seen, related⟩ := ih
    obtain ⟨enabled', related'⟩ := step s t a related enabled
    exact ⟨nextSeen t a, .step seen enabled', related'⟩

theorem append (run : Run can next s₀ as s) (run' : Run can next s as' s') :
    Run can next s₀ (as ++ as') s' := by
  induction run' with
  | start => rwa [List.append_nil]
  | step _ enabled ih =>
    rw [← List.append_assoc]
    exact .step ih enabled

theorem single (enabled : can s a) : Run can next s [a] (next s a) := .step .start enabled

/-- Every action of the list can be taken in turn. -/
def check (can : σ → α → Prop) (next : σ → α → σ) [∀ s a, Decidable (can s a)] : σ → List α → Bool
  | _, [] => true
  | s, a :: as => decide (can s a) && check can next (next s a) as

theorem of_check [∀ s a, Decidable (can s a)] (ok : check can next s as = true) :
    Run can next s as (as.foldl next s) := by
  induction as generalizing s with
  | nil => exact .start
  | cons a as ih =>
    rw [check, Bool.and_eq_true, decide_eq_true_eq] at ok
    exact (single ok.1).append (ih ok.2)

/-! ### Runs that end -/

section Rank

variable (rank : σ → Nat) (free : α → Bool)

/-- **The ranking rule.** If the actions that count lower the rank and a free action raises it
by at most `gain`, the free actions of a run bound those that count. -/
theorem bounded (gain : Nat)
    (pays : ∀ as s a, Run can next s₀ as s → can s a → free a = false → rank (next s a) < rank s)
    (gains : ∀ as s a, Run can next s₀ as s → can s a → free a = true → rank (next s a) ≤ rank s + gain)
    (run : Run can next s₀ as s) :
    as.countP (fun a => !free a) + rank s ≤ rank s₀ + gain * as.countP free := by
  induction run with
  | start => simp
  | @step as s a run enabled ih =>
    rw [List.countP_append, List.countP_append, List.countP_singleton, List.countP_singleton]
    cases paid : free a with
    | false =>
      have lower := pays as s a run enabled paid
      simp only [Bool.not_false, if_true, Bool.false_eq_true, if_false, Nat.add_zero]
      omega
    | true =>
      have upper := gains as s a run enabled paid
      simp only [Bool.not_true, Bool.false_eq_true, if_false, if_true, Nat.add_zero, Nat.mul_add, Nat.mul_one]
      omega

/-- If the actions that count lower the rank, every run extends by such actions to a state in
which none is left. -/
theorem completes
    (pays : ∀ as s a, Run can next s₀ as s → can s a → free a = false → rank (next s a) < rank s)
    (run : Run can next s₀ as s) :
    ∃ as' s', Run (fun s a => can s a ∧ free a = false) next s as' s' ∧ ∀ a, free a = false → ¬ can s' a := by
  induction bound : rank s using Nat.strongRecOn generalizing as s with
  | _ r ih =>
    by_cases stuck : ∀ a, free a = false → ¬ can s a
    · exact ⟨[], s, .start, stuck⟩
    · simp only [not_forall, not_not] at stuck
      obtain ⟨a, counts, enabled⟩ := stuck
      have lower : rank (next s a) < r := bound ▸ pays as s a run enabled counts
      obtain ⟨as', s', rest, ended⟩ := ih _ lower (.step run enabled) rfl
      exact ⟨[a] ++ as', s', (single ⟨enabled, counts⟩).append rest, ended⟩

end Rank

end Run

/-! ## What a run shows -/

section Trace

variable {β : Type w} {see : σ → α → Option β} {s₀ s : σ} {as as' : List α}

/-- What a sequence of actions shows, each action in the state it is taken in. -/
def trace (see : σ → α → Option β) (next : σ → α → σ) : σ → List α → List β
  | _, [] => []
  | s, a :: as => (see s a).toList ++ trace see next (next s a) as

theorem trace_append : trace see next s (as ++ as') = trace see next s as ++ trace see next (as.foldl next s) as' := by
  induction as generalizing s with
  | nil => rfl
  | cons a as ih => rw [List.cons_append, trace, trace, ih, List.append_assoc, List.foldl_cons]

theorem Run.foldl (run : Run can next s₀ as s) : as.foldl next s₀ = s := by
  induction run with
  | start => rfl
  | step _ _ ih => rw [List.foldl_append, ih, List.foldl_cons, List.foldl_nil]

theorem Run.trace_snoc (run : Run can next s₀ as s) (see : σ → α → Option β) (a : α) :
    trace see next s₀ (as ++ [a]) = trace see next s₀ as ++ (see s a).toList := by
  rw [trace_append, run.foldl, trace, trace, List.append_nil]

/-- The trace of renamed events. -/
theorem trace_map {γ : Type x} (f : β → γ) (see : σ → α → Option β) (next : σ → α → σ) (s : σ) (as : List α) :
    trace (fun s a => (see s a).map f) next s as = (trace see next s as).map f := by
  induction as generalizing s with
  | nil => rfl
  | cons a as ih => rw [trace, trace, ih, List.map_append, Option.toList_map]

/-- What is seen of a trace, where the actions alone show it. -/
theorem trace_filterMap {γ : Type x} {g : β → Option γ} {h : α → Option γ} (same : ∀ s a, (see s a).bind g = h a)
    (next : σ → α → σ) (s : σ) (as : List α) : (trace see next s as).filterMap g = as.filterMap h := by
  induction as generalizing s with
  | nil => rfl
  | cons a as ih =>
    rw [trace, List.filterMap_append, ih, List.filterMap_cons, ← same s a]
    cases see s a with
    | none => rfl
    | some b => cases found : g b <;> simp [found]

/-- **The refinement rule**: if a step that shows nothing keeps the relation, and a step that shows
an event is that event of the specification, a run shows a run of the specification. -/
theorem Run.refines {τ : Type x} {canSpec : τ → β → Prop} {nextSpec : τ → β → τ} {R : List α → σ → τ → Prop}
    {t₀ : τ} (starts : R [] s₀ t₀)
    (hidden : ∀ as s t a, R as s t → can s a → see s a = none → R (as ++ [a]) (next s a) t)
    (shown : ∀ as s t a e, R as s t → can s a → see s a = some e →
      canSpec t e ∧ R (as ++ [a]) (next s a) (nextSpec t e))
    (run : Run can next s₀ as s) : ∃ t, Run canSpec nextSpec t₀ (trace see next s₀ as) t ∧ R as s t := by
  induction run with
  | start => exact ⟨t₀, .start, starts⟩
  | @step as s a run enabled ih =>
    obtain ⟨t, spec, related⟩ := ih
    rw [run.trace_snoc]
    cases found : see s a with
    | none => exact ⟨t, by rwa [Option.toList_none, List.append_nil], hidden as s t a related enabled found⟩
    | some e =>
      obtain ⟨enabled', related'⟩ := shown as s t a e related enabled found
      exact ⟨nextSpec t e, .step spec enabled', related'⟩

end Trace

/-! ## Calls that may fail -/

/-- **Refinement by a simulation**: if each call succeeds and keeps the relation to an abstract state
while the abstract state stays admissible, so does a sequence of calls. -/
theorem foldlM_simulates {σ : Type u} {τ : Type v} {α : Type w} {R : σ → τ → Prop} {call : σ → α → Option σ}
    {spec : τ → α → τ} (admissible : τ → Prop)
    (step : ∀ s t a, R s t → admissible (spec t a) → ∃ s', call s a = some s' ∧ R s' (spec t a))
    {s : σ} {t : τ} (start : R s t) {calls : List α}
    (within : ∀ before, before <+: calls → admissible (before.foldl spec t)) :
    ∃ s', calls.foldlM call s = some s' ∧ R s' (calls.foldl spec t) := by
  induction calls generalizing s t with
  | nil => exact ⟨s, rfl, start⟩
  | cons a calls ih =>
    have first : admissible (spec t a) := within [a] ⟨calls, rfl⟩
    obtain ⟨s', called, related⟩ := step s t a start first
    have later : ∀ before, before <+: calls → admissible (before.foldl spec (spec t a)) := by
      rintro before ⟨rest, rfl⟩
      exact within (a :: before) ⟨rest, rfl⟩
    obtain ⟨s'', run, related'⟩ := ih related later
    refine ⟨s'', ?_, related'⟩
    rw [List.foldlM_cons, called]
    exact run

/-- What every call keeps holds after a sequence of calls. -/
theorem foldlM_keeps {σ : Type u} {α : Type w} {I : σ → Prop} {call : σ → α → Option σ}
    (kept : ∀ s a s', I s → call s a = some s' → I s') {calls : List α} {s s' : σ} (start : I s)
    (run : calls.foldlM call s = some s') : I s' := by
  induction calls generalizing s with
  | nil =>
    obtain rfl := Option.some.inj run
    exact start
  | cons a calls ih =>
    rw [List.foldlM_cons] at run
    obtain ⟨next, called, rest⟩ := Option.bind_eq_some_iff.1 run
    exact ih (kept s a next start called) rest

/-! ## One component of a state moves -/

section Update

variable {ι : Type u} {β : Type v} [DecidableEq ι] {f : ι → β} {i : ι} {b : β}

/-- A field that the new component shares with the old one is kept everywhere. -/
theorem update_field {γ : Type} (field : β → γ) (same : field b = field (f i)) (j : ι) :
    field (Function.update f i b j) = field (f j) := by
  by_cases here : j = i
  · rw [here, Function.update_self, same]
  · rw [Function.update_of_ne here]

/-- `update_field` where the old component is known. -/
theorem update_field_at {γ : Type} (field : β → γ) {c : β} (found : f i = c) (same : field b = field c) (j : ι) :
    field (Function.update f i b j) = field (f j) :=
  update_field field (by rw [same, found]) j

/-- A view of the components after the update. -/
theorem update_view {γ : Type w} (view : β → γ) (f : ι → β) (i : ι) (b : β) :
    (fun j => view (Function.update f i b j)) = Function.update (fun j => view (f j)) i (view b) :=
  funext (Function.apply_update (fun _ => view) f i b)

/-- From the components after the update to those before it. -/
theorem update_back (P : β → Prop) (back : P b → P (f i)) (j : ι) (after : P (Function.update f i b j)) :
    P (f j) := by
  by_cases here : j = i
  · rw [here, Function.update_self] at after
    rw [here]
    exact back after
  · rwa [Function.update_of_ne here] at after

/-- From the components before the update to those after it. -/
theorem update_forth (P : β → Prop) (forth : P (f i) → P b) (j : ι) (before : P (f j)) :
    P (Function.update f i b j) := by
  by_cases here : j = i
  · rw [here] at before
    rw [here, Function.update_self]
    exact forth before
  · rwa [Function.update_of_ne here]

end Update

end CSC360.Base
