import CSC360.Base.Related

/-!
# Computations with a log

A traced computation returns or fails with a log of what it has done. It is a traced version of another
computation if it does the same with the log left out (`Erases`), and a property of everything that is
logged is an invariant of its steps (`Only`). Where no step shortens the log, what one step logs is in the
log of the whole (`mem_trace_foldlM`). Nothing here depends on a particular program.
-/

namespace CSC360.Base

universe u v w

/-- A value, or an error, and the log of what was done before. -/
structure Logged (ω : Type u) (α : Type v) where
  log : List ω
  value : α

namespace Logged

variable {ω : Type u} {α β σ ε : Type v}

def add (t : Logged ω α) (item : ω) : Logged ω α := { t with log := t.log ++ [item] }

/-- The log of a traced computation. -/
def trace : Except (Logged ω ε) (Logged ω α) → List ω
  | .ok t => t.log
  | .error t => t.log

/-- The computation without its log. -/
def erase : Except (Logged ω ε) (Logged ω α) → Except ε α
  | .ok t => .ok t.value
  | .error t => .error t.value

/-- A computation that adds nothing to the log. -/
def keep (log : List ω) : Except ε α → Except (Logged ω ε) (Logged ω α)
  | .ok a => .ok ⟨log, a⟩
  | .error e => .error ⟨log, e⟩

/-- The traced computation does what `y` does. -/
abbrev Erases : Except (Logged ω ε) (Logged ω α) → Except ε α → Prop :=
  Related (fun t a => t.value = a) (fun t e => t.value = e) fun _ => False

/-- Only what satisfies `P` is logged. -/
def Only (P : ω → Prop) (x : Except (Logged ω ε) (Logged ω α)) : Prop := ∀ item ∈ trace x, P item

theorem log_subset_add (t : Logged ω α) (item : ω) : t.log ⊆ (t.add item).log := List.subset_append_left _ _

theorem mem_add (t : Logged ω α) (item : ω) : item ∈ (t.add item).log := List.mem_append_right _ (List.mem_singleton_self item)

@[simp] theorem trace_keep (log : List ω) (x : Except ε α) : trace (keep log x) = log := by
  cases x <;> rfl

theorem erases_keep (log : List ω) (x : Except ε α) : Erases (keep log x) x := by
  cases x with
  | ok a => exact .ok rfl
  | error e => exact .error rfl

theorem Erases.erase_eq {x : Except (Logged ω ε) (Logged ω α)} {y : Except ε α} (erases : Erases x y) :
    erase x = y := by
  cases erases with
  | ok same => exact congrArg Except.ok same
  | error same => exact congrArg Except.error same
  | undefined never => exact never.elim

/-- What is done to the log alone does not count. -/
theorem Erases.logging {x : Except (Logged ω ε) (Logged ω α)} {y : Except ε α} (erases : Erases x y)
    {f : Logged ω α → Logged ω α} (same : ∀ t, (f t).value = t.value) :
    Erases (x >>= fun t => .ok (f t)) y := by
  cases erases with
  | ok related => exact .ok ((same _).trans related)
  | error related => exact .error related
  | undefined never => exact never.elim

/-- The traced computation returns where the other one does. -/
theorem Erases.traced {x : Except (Logged ω ε) (Logged ω α)} {y : Except ε α} (erases : Erases x y) {a : α}
    (run : y = .ok a) : ∃ t, x = .ok t ∧ t.value = a := by
  obtain returns | ⟨_, _, never⟩ := Related.returns_or erases run
  · exact returns
  · exact never.elim

/-! ## Growth -/

theorem trace_bind {x : Except (Logged ω ε) (Logged ω α)} {f : Logged ω α → Except (Logged ω ε) (Logged ω β)}
    (grows : ∀ t, t.log ⊆ trace (f t)) : trace x ⊆ trace (x >>= f) := by
  cases x with
  | ok t => exact grows t
  | error t => exact fun _ mem => mem

section Folds

variable {γ : Type w} {f : Logged ω σ → γ → Except (Logged ω ε) (Logged ω σ)}

theorem trace_foldlM (grows : ∀ t a, t.log ⊆ trace (f t a)) (l : List γ) (t : Logged ω σ) :
    t.log ⊆ trace (l.foldlM f t) := by
  induction l generalizing t with
  | nil => exact fun _ mem => mem
  | cons a l ih =>
    rw [List.foldlM_cons]
    exact fun item mem => trace_bind (fun t => ih t) (grows t a mem)

/-- What is logged at one step of a fold is logged by the fold. -/
theorem mem_trace_foldlM (grows : ∀ t a, t.log ⊆ trace (f t a)) {front back : List γ} {a : γ} {t t' : Logged ω σ}
    (returns : front.foldlM f t = .ok t') {item : ω} (here : item ∈ trace (f t' a)) :
    item ∈ trace ((front ++ a :: back).foldlM f t) := by
  rw [List.foldlM_append, returns, ok_bind, List.foldlM_cons]
  exact trace_bind (trace_foldlM grows back) here

end Folds

/-! ## Invariants of the log -/

variable {P : ω → Prop}

theorem Only.bind {x : Except (Logged ω ε) (Logged ω α)} {f : Logged ω α → Except (Logged ω ε) (Logged ω β)}
    (first : Only P x) (next : ∀ t, x = .ok t → (∀ item ∈ t.log, P item) → Only P (f t)) : Only P (x >>= f) := by
  cases x with
  | ok t => exact next t rfl first
  | error t => exact first

theorem only_keep {log : List ω} (before : ∀ item ∈ log, P item) (x : Except ε α) : Only P (keep log x) := by
  rw [Only, trace_keep]
  exact before

theorem only_add {t : Logged ω α} (before : ∀ item ∈ t.log, P item) {last : ω} (here : P last) :
    ∀ item ∈ (t.add last).log, P item :=
  List.forall_mem_append.2 ⟨before, List.forall_mem_singleton.2 here⟩

/-- Each step of a fold is made in the state that the steps before it return. -/
theorem only_foldlM {γ : Type w} {f : Logged ω σ → γ → Except (Logged ω ε) (Logged ω σ)} {l : List γ} :
    ∀ {t : Logged ω σ}, (∀ item ∈ t.log, P item) →
      (∀ front a back t', l = front ++ a :: back → front.foldlM f t = .ok t' → (∀ item ∈ t'.log, P item) →
        Only P (f t' a)) → Only P (l.foldlM f t) := by
  induction l with
  | nil => exact fun before _ => before
  | cons a l ih =>
    intro t before step
    rw [List.foldlM_cons]
    refine (step [] a l t rfl rfl before).bind fun t' first before' => ih before' ?_
    intro front b back t'' split returns before''
    refine step (a :: front) b back t'' (by rw [split]; rfl) ?_ before''
    rw [List.foldlM_cons, first]
    exact returns

end Logged

end CSC360.Base
