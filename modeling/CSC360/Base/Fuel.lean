/-!
# Settling of fuelled computations

A loop or recursion whose length the input decides is a function of a fuel
argument. `Settles f r` says what such a function computes once the fuel
suffices: from some bound on, every fuel gives the result `r`. `Agrees` compares two
such functions. Nothing here depends on a particular program.
-/

namespace CSC360.Base

universe u v w

section Programs

variable {ε : Type u} {α β : Type v}

@[simp] theorem ok_bind (a : α) (f : α → Except ε β) : (Except.ok a >>= f) = f a := rfl

@[simp] theorem error_bind (e : ε) (f : α → Except ε β) : (Except.error e >>= f) = .error e := rfl

theorem bind_eq_ok {x : Except ε α} {f : α → Except ε β} {b : β} :
    x >>= f = .ok b ↔ ∃ a, x = .ok a ∧ f a = .ok b := by
  cases x <;> simp

@[simp] theorem mapError_ok {ε' : Type w} (g : ε → ε') (a : α) :
    (Except.ok a : Except ε α).mapError g = .ok a := rfl

@[simp] theorem mapError_error {ε' : Type w} (g : ε → ε') (e : ε) :
    (Except.error e : Except ε α).mapError g = .error (g e) := rfl

theorem mapError_eq_ok {ε' : Type w} {g : ε → ε'} {x : Except ε α} {a : α} :
    x.mapError g = .ok a ↔ x = .ok a := by
  cases x <;> simp

theorem eq_ok_of_toOption {x : Except ε α} {a : α} (returns : x.toOption = some a) : x = .ok a := by
  cases x with
  | error e => cases returns
  | ok b => exact congrArg Except.ok (Option.some.inj returns)

/-- A fold whose steps leave the state alone. -/
theorem foldlM_unchanged {γ σ : Type v} {f : σ → γ → Except ε σ} {l : List γ} {st : σ}
    (same : ∀ a ∈ l, f st a = .ok st) : l.foldlM f st = .ok st := by
  induction l with
  | nil => rfl
  | cons a l ih =>
    rw [List.foldlM_cons, same a (by simp), ok_bind]
    exact ih fun b mem => same b (List.mem_cons_of_mem a mem)

/-- A fold that returns has made each of its steps. -/
theorem exists_step_of_foldlM {γ σ : Type v} {f : σ → γ → Except ε σ} {l : List γ} {a : γ} (mem : a ∈ l) :
    ∀ {st r : σ}, l.foldlM f st = .ok r → ∃ before after, f before a = .ok after := by
  induction l with
  | nil => cases mem
  | cons b l ih =>
    intro st r run
    rw [List.foldlM_cons, bind_eq_ok] at run
    obtain ⟨st', first, rest⟩ := run
    cases mem with
    | head => exact ⟨st, st', first⟩
    | tail _ later => exact ih later rest

/-- A fold that fails has failed at one of its steps. -/
theorem exists_step_of_foldlM_error {γ σ : Type v} {f : σ → γ → Except ε σ} {l : List γ} :
    ∀ {st : σ} {e : ε}, l.foldlM f st = .error e →
      ∃ before a after st', l = before ++ a :: after ∧ before.foldlM f st = .ok st' ∧ f st' a = .error e := by
  induction l with
  | nil => intro st e run; cases run
  | cons a l ih =>
    intro st e run
    rw [List.foldlM_cons] at run
    cases first : f st a with
    | error e' =>
      rw [first, error_bind, Except.error.injEq] at run
      exact ⟨[], a, l, st, rfl, rfl, run ▸ first⟩
    | ok st' =>
      rw [first, ok_bind] at run
      obtain ⟨before, b, after, st'', split, returns, fails⟩ := ih run
      refine ⟨a :: before, b, after, st'', by rw [split]; rfl, ?_, fails⟩
      rw [List.foldlM_cons, first, ok_bind]
      exact returns

/-- A fold whose steps map their errors maps its error. -/
theorem foldlM_mapError {γ σ : Type v} {ε' : Type w} (f : σ → γ → Except ε σ) (g : ε → ε') (l : List γ) (st : σ) :
    l.foldlM (fun st a => (f st a).mapError g) st = (l.foldlM f st).mapError g := by
  induction l generalizing st with
  | nil => rfl
  | cons a l ih =>
    rw [List.foldlM_cons, List.foldlM_cons]
    cases f st a with
    | error e => rfl
    | ok st' => exact ih st'

/-- Folding over the parts of a concatenation, part by part. -/
theorem foldlM_flatMap {γ σ : Type v} (f : σ → γ → Except ε σ) (parts : α → List γ) (l : List α)
    (st : σ) : (l.flatMap parts).foldlM f st = l.foldlM (fun st a => (parts a).foldlM f st) st := by
  induction l generalizing st with
  | nil => rfl
  | cons a l ih => simp only [List.flatMap_cons, List.foldlM_append, List.foldlM_cons, ih]

end Programs

/-- From some bound on, `f` is constantly `r`. -/
def Settles {ρ : Type u} (f : Nat → ρ) (r : ρ) : Prop :=
  ∃ bound, ∀ fuel, bound ≤ fuel → f fuel = r

namespace Settles

variable {ρ : Type u}

/-- A computation settles on one result only. -/
theorem unique {f : Nat → ρ} {r r' : ρ} (h : Settles f r) (h' : Settles f r') : r = r' := by
  obtain ⟨n, hn⟩ := h
  obtain ⟨n', hn'⟩ := h'
  exact (hn (max n n') (Nat.le_max_left n n')).symm.trans (hn' (max n n') (Nat.le_max_right n n'))

/-- A result that every fuel from `k` on gives. -/
theorem of_add {f : Nat → ρ} {r : ρ} (k : Nat) (h : ∀ fuel, f (fuel + k) = r) : Settles f r := by
  refine ⟨k, fun fuel le => ?_⟩
  obtain ⟨extra, rfl⟩ : ∃ extra, fuel = extra + k := ⟨fuel - k, by omega⟩
  exact h extra

end Settles

/-- From some bound on, the two computations give the same results. -/
def Agrees {ρ : Type u} (f g : Nat → ρ) : Prop :=
  ∃ bound, ∀ fuel, bound ≤ fuel → f fuel = g fuel

namespace Agrees

variable {ρ : Type u} {f g h : Nat → ρ}

theorem of_eq (same : ∀ fuel, f fuel = g fuel) : Agrees f g :=
  ⟨0, fun fuel _ => same fuel⟩

theorem symm (left : Agrees f g) : Agrees g f := by
  obtain ⟨n, hn⟩ := left
  exact ⟨n, fun fuel le => (hn fuel le).symm⟩

theorem settles (agree : Agrees f g) {r : ρ} (right : Settles g r) : Settles f r := by
  obtain ⟨n, hn⟩ := agree
  obtain ⟨m, hm⟩ := right
  exact ⟨max n m, fun fuel le => (hn fuel (by omega)).trans (hm fuel (by omega))⟩

theorem trans (left : Agrees f g) (right : Agrees g h) : Agrees f h := by
  obtain ⟨n, hn⟩ := left
  obtain ⟨m, hm⟩ := right
  exact ⟨max n m, fun fuel le => (hn fuel (by omega)).trans (hm fuel (by omega))⟩

end Agrees

end CSC360.Base
