import CSC360.Base.Fuel
import Mathlib.Order.Filter.AtTopBot.Prod

/-!
# Computations that end

A computation with fuel arguments ends when it settles, as the fuel grows, on one
result. `Ends l Q f` says that along the filter `l` the computation `f` settles on a
value or on an error with `Q`. Sequencing and folding keep this.
-/

namespace CSC360.Base

open Filter

universe u v w

variable {ι κ : Type u} {ε α β : Type v} {γ : Type w}

/-- Along `l`, `f` settles on a value or on an error with `Q`. -/
def Ends (l : Filter ι) (Q : ε → Prop) (f : ι → Except ε α) : Prop :=
  ∃ r, (∀ᶠ i in l, f i = r) ∧ ∀ e, r = .error e → Q e

namespace Ends

variable {l : Filter ι} {l' : Filter κ} {Q : ε → Prop} {f g : ι → Except ε α}

theorem of_ok {a : α} (settles : ∀ᶠ i in l, f i = .ok a) : Ends l Q f :=
  ⟨.ok a, settles, fun _ wrong => by cases wrong⟩

theorem of_error {e : ε} (settles : ∀ᶠ i in l, f i = .error e) (holds : Q e) : Ends l Q f :=
  ⟨.error e, settles, fun _ same => Except.error.inj same ▸ holds⟩

/-- A computation without fuel ends. -/
theorem of_const {x : Except ε α} (holds : ∀ e, x = .error e → Q e) : Ends l Q fun _ => x :=
  ⟨x, .of_forall fun _ => rfl, holds⟩

theorem congr (same : ∀ᶠ i in l, f i = g i) (ends : Ends l Q g) : Ends l Q f := by
  obtain ⟨r, settles, holds⟩ := ends
  refine ⟨r, ?_, holds⟩
  filter_upwards [same, settles] with i eq run
  rw [eq, run]

/-- Ending along a filter is ending along every way into it. -/
theorem comp {φ : κ → ι} (into : Tendsto φ l' l) (ends : Ends l Q f) : Ends l' Q (f ∘ φ) := by
  obtain ⟨r, settles, holds⟩ := ends
  exact ⟨r, into.eventually settles, holds⟩

/-- Sequencing: what follows has to end after the values the first part settles on. -/
theorem bind {h : ι → α → Except ε β} (first : Ends l Q f)
    (next : ∀ a, (∀ᶠ i in l, f i = .ok a) → Ends l Q fun i => h i a) : Ends l Q fun i => f i >>= h i := by
  obtain ⟨r, settles, holds⟩ := first
  cases r with
  | error e =>
    apply of_error (e := e) _ (holds e rfl)
    filter_upwards [settles] with i run
    rw [run, error_bind]
  | ok a =>
    apply congr _ (next a settles)
    filter_upwards [settles] with i run
    rw [run, ok_bind]

/-- Folding: every step has to end in the states that the steps before it settle on. -/
theorem foldlM {h : ι → α → γ → Except ε α} {xs : List γ} {st : α}
    (step : ∀ before x after st', xs = before ++ x :: after →
      (∀ᶠ i in l, before.foldlM (h i) st = .ok st') → Ends l Q fun i => h i st' x) :
    Ends l Q fun i => xs.foldlM (h i) st := by
  induction xs using List.reverseRecOn with
  | nil => exact of_ok (.of_forall fun _ => List.foldlM_nil ..)
  | append_singleton xs x ih =>
    simp only [List.foldlM_append, List.foldlM_cons, List.foldlM_nil, bind_pure]
    apply bind
    · apply ih
      intro before y after st' split run
      exact step before y (after ++ [x]) st' (by rw [split, List.append_assoc, List.cons_append]) run
    · exact fun st' run => step xs x [] st' rfl run

/-- A computation whose errors are none of those it may end with ends with a value. -/
theorem exclude [l.NeBot] (ends : Ends l Q f) (never : ∀ i e, f i = .error e → ¬ Q e) :
    Ends l (fun _ => False) f := by
  obtain ⟨r, settles, holds⟩ := ends
  obtain ⟨i, run⟩ := settles.exists
  exact ⟨r, settles, fun e same => never i e (run.trans same) (holds e same)⟩

theorem returns [l.NeBot] (ends : Ends l (fun _ => False) f) : ∃ i a, f i = .ok a := by
  obtain ⟨r, settles, never⟩ := ends
  obtain ⟨i, run⟩ := settles.exists
  cases r with
  | error e => exact absurd rfl (never e)
  | ok a => exact ⟨i, a, run⟩

/-- Along growing fuel, a result that is settled on is the `Settles` of the fuelled function. -/
theorem settles {f : Nat → Except ε α} (ends : Ends atTop Q f) :
    ∃ r, Settles f r ∧ ∀ e, r = .error e → Q e := by
  obtain ⟨r, settles, holds⟩ := ends
  exact ⟨r, eventually_atTop.1 settles, holds⟩

end Ends

end CSC360.Base
