import CSC360.Base.Fuel

/-!
# Related computations

`Related S E U x y` compares two computations: they return states that `S` relates, or they fail with
errors that `E` relates, or `x` fails with an error of `U`. After an error of `U` nothing is known of
`y`: such an error stands for undefined behaviour, which any behaviour of `y` is allowed for. Sequencing
and folds keep the relation (`Related.bind`, `Related.foldlM`). Nothing here depends on a particular program.
-/

namespace CSC360.Base

universe u u' v v' w

/-- The computations return related states, or fail with related errors, or the first one's error is in `U`. -/
inductive Related {ε : Type u} {ε' : Type u'} {α : Type v} {β : Type v'} (S : α → β → Prop) (E : ε → ε' → Prop)
    (U : ε → Prop) : Except ε α → Except ε' β → Prop where
  | ok {a b} : S a b → Related S E U (.ok a) (.ok b)
  | error {e e'} : E e e' → Related S E U (.error e) (.error e')
  | undefined {e y} : U e → Related S E U (.error e) y

namespace Related

variable {ε : Type u} {ε' : Type u'} {E : ε → ε' → Prop} {U : ε → Prop}

section Sequencing

variable {α α' : Type v} {β β' : Type v'} {S : α → β → Prop} {S' : α' → β' → Prop}

theorem bind {x : Except ε α} {y : Except ε' β} {f : α → Except ε α'} {g : β → Except ε' β'}
    (first : Related S E U x y) (next : ∀ a b, S a b → Related S' E U (f a) (g b)) :
    Related S' E U (x >>= f) (y >>= g) := by
  cases first with
  | ok related => exact next _ _ related
  | error related => exact .error related
  | undefined stuck => exact .undefined stuck

theorem foldlM {γ : Type w} {f : α → γ → Except ε α} {g : β → γ → Except ε' β}
    (step : ∀ a b c, S a b → Related S E U (f a c) (g b c)) (l : List γ) :
    ∀ {a b}, S a b → Related S E U (l.foldlM f a) (l.foldlM g b) := by
  induction l with
  | nil => exact fun related => .ok related
  | cons c l ih =>
    intro a b related
    rw [List.foldlM_cons, List.foldlM_cons]
    exact (step a b c related).bind fun _ _ => ih

/-- What the first computation returns, the second one does. -/
theorem returns {x : Except ε α} {y : Except ε' β} (related : Related S E U x y) {a : α} (run : x = .ok a) :
    ∃ b, y = .ok b ∧ S a b := by
  subst run
  cases related with
  | ok same => exact ⟨_, rfl, same⟩

/-- What the second computation returns, the first one does unless its error is in `U`. -/
theorem returns_or {x : Except ε α} {y : Except ε' β} (related : Related S E U x y) {b : β} (run : y = .ok b) :
    (∃ a, x = .ok a ∧ S a b) ∨ ∃ e, x = .error e ∧ U e := by
  subst run
  cases related with
  | ok same => exact .inl ⟨_, rfl, same⟩
  | undefined stuck => exact .inr ⟨_, rfl, stuck⟩

end Sequencing

/-- A computation that fails with the mapped errors of another one. -/
theorem mapError {α : Type v} {S : α → α → Prop} (same : ∀ a, S a a) {ε₀ : Type u} {g : ε₀ → ε} {g' : ε₀ → ε'}
    (errors : ∀ e, E (g e) (g' e)) (x : Except ε₀ α) : Related S E U (x.mapError g) (x.mapError g') := by
  cases x with
  | ok a => exact .ok (same a)
  | error e => exact .error (errors e)

end Related

/-- Where `x` returns, `y` returns. -/
abbrev Returns {ε : Type u} {ε' : Type u'} {α : Type v} {β : Type v'} : Except ε α → Except ε' β → Prop :=
  Related (fun _ _ => True) (fun _ _ => False) fun _ => True

/-- What returns the same where it returns. -/
theorem Returns.bind_same {ε : Type u} {ε' : Type u'} {α β β' : Type v} {x : Except ε α}
    {y : Except ε' α} {f : α → Except ε β} {g : α → Except ε' β'} (same : ∀ a, x = .ok a → y = .ok a)
    (next : ∀ a, Returns (f a) (g a)) : Returns (x >>= f) (y >>= g) := by
  cases x with
  | error e => exact .undefined trivial
  | ok a =>
    rw [same a rfl]
    exact next a

end CSC360.Base
