import Mathlib.Data.Fintype.Card
import Mathlib.Data.Set.Finite.Basic
import Mathlib.Logic.Relation

/-!
# Relations without cycles

Following a relation `R` from `a` comes to an end (`a` is accessible for the reverse of
`R`) exactly when no cycle can be reached from `a`, if only finitely many elements have
a successor.
-/

namespace CSC360.Base

open Relation

universe u

variable {α : Type u} {R : α → α → Prop} {a b : α}

/-- Every path from `a` along `R` ends. -/
abbrev PathsEnd (R : α → α → Prop) : α → Prop := Acc fun b a => R a b

/-- No cycle of `R` can be reached from `a`. -/
def CycleFree (R : α → α → Prop) (a : α) : Prop := ∀ b, ReflTransGen R a b → ¬ TransGen R b b

/-- Induction over what can be reached: `motive` holds at `a` if it does at all that paths from `a` lead to. -/
theorem PathsEnd.rec_reached {motive : α → Prop} (ends : PathsEnd R a)
    (step : ∀ a, PathsEnd R a → (∀ b, TransGen R a b → motive b) → motive a) : motive a := by
  have all : ∀ b, ReflTransGen R a b → motive b := by
    induction ends with
    | intro a below ih =>
      have later : ∀ b, TransGen R a b → motive b := by
        intro b path
        obtain ⟨c, first, rest⟩ := TransGen.head'_iff.1 path
        exact ih c first b rest
      intro b path
      cases path with
      | refl => exact step a ⟨a, below⟩ later
      | tail path last => exact later b (.tail' path last)
  exact all a .refl

theorem PathsEnd.reached (ends : PathsEnd R a) (path : ReflTransGen R a b) : PathsEnd R b := by
  induction path with
  | refl => exact ends
  | tail _ last ih => exact ih.inv last

theorem PathsEnd.noCycle (ends : PathsEnd R a) : ¬ TransGen R a a := by
  induction ends with
  | intro a _ ih =>
    intro cycle
    obtain ⟨b, first, rest⟩ := TransGen.head'_iff.1 cycle
    exact ih b first (TransGen.tail' rest first)

theorem PathsEnd.cycleFree (ends : PathsEnd R a) : CycleFree R a :=
  fun _ path => (ends.reached path).noCycle

/-- With finitely many sources, paths that do not end run into a cycle. -/
theorem CycleFree.pathsEnd (finite : {a | ∃ b, R a b}.Finite) (free : CycleFree R a) : PathsEnd R a := by
  let T := {b : α // b ∈ {a | ∃ b, R a b} ∧ ReflTransGen R a b}
  have : Finite T := (finite.subset fun b mem => mem.1).to_subtype
  have : IsTrans T fun x y => TransGen R y.1 x.1 := ⟨fun _ _ _ first second => second.trans first⟩
  have : Std.Irrefl fun x y : T => TransGen R y.1 x.1 := ⟨fun x => free x.1 x.2.2⟩
  have wf := Finite.wellFounded_of_trans_of_irrefl fun x y : T => TransGen R y.1 x.1
  have stuck : ∀ {b}, b ∉ {a | ∃ b, R a b} → PathsEnd R b := fun none => ⟨_, fun c step => absurd ⟨c, step⟩ none⟩
  have reached : ∀ x : T, PathsEnd R x.1 := by
    intro x
    induction x using wf.induction with
    | h x ih =>
      constructor
      intro c step
      by_cases source : c ∈ {a | ∃ b, R a b}
      · exact ih ⟨c, source, x.2.2.tail step⟩ (.single step)
      · exact stuck source
  by_cases source : a ∈ {a | ∃ b, R a b}
  · exact reached ⟨a, source, .refl⟩
  · exact stuck source

end CSC360.Base
