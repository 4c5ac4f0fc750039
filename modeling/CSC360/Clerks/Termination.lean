import CSC360.Clerks.Selections
import Mathlib.Algebra.Order.BigOperators.Group.Finset
import Mathlib.Algebra.BigOperators.Fin

/-!
# The simulation stops

The clerks loop forever and a selection wakes a whole queue, but **no interleaving lets
the threads run on forever**: apart from what spurious wake-ups cause, the number of steps
of every run is bounded by the number of customers. Each location has an amount of `work`
that a thread there can still cause, the wake-ups it will send included; `work` counts
down in every step that is not spurious. A clerk that has been promised a customer that
another clerk took goes round its loop once more, which the customer that left pays for.

When nothing is left to do, each customer is done and each clerk is blocked, or the run
has ended in a deadlock (`Deadlocked`); in an orderly run all customers have been served.
-/

namespace CSC360.Clerks

open CSC360.Base Function

variable {n : Nat} {cust : Fin n → Customer} {as : List (Action n)} {s s' : State n} {a : Action n}
variable {q : Class} {i : Fin n} {k : Fin 5}

/-! ## The work that is left -/

/-- The steps that a customer at the location can still cause. -/
def CustomerLoc.work (n : Nat) : CustomerLoc → Nat
  | .arriving => 2 * n + 47
  | .enqueued => 2 * n + 46
  | .signalled => n + 38
  | .woken => n + 37
  | .waiting => n + 36
  | .admitted _ => n + 10
  | .serving _ => n + 9
  | .done | .crashed => 0

/-- The clerk has left the wait loop and will find the queues empty. -/
def ClerkLoc.hollow (empty : Class → Bool) : ClerkLoc → Bool
  | .choosingBusiness => empty .business && empty .economy
  | .choosingEconomy => empty .economy
  | _ => false

/-- The steps that a clerk at the location can still cause, but for its way back if it is hollow. -/
def ClerkLoc.ahead (n : Nat) : ClerkLoc → Nat
  | .wokenOwn => n + 8
  | .idle | .wokenRequest => n + 7
  | .testingBusiness => n + 6
  | .testingEconomy => n + 5
  | .choosingBusiness => n + 4
  | .choosingEconomy => n + 3
  | .selecting _ => n + 2
  | .selected _ | .blocking => 1
  | .blockedRequest | .blockedOwn _ => 0

def ClerkLoc.work (n : Nat) (empty : Class → Bool) (loc : ClerkLoc) : Nat :=
  loc.ahead n + if loc.hollow empty then 5 else 0

/-- The queues that a clerk would find empty. -/
def State.empty (s : State n) (q : Class) : Bool := (s.vars q).queue.size == 0

/-- The steps that all threads together can still cause. -/
def State.work (s : State n) : Nat :=
  ∑ i, (s.customer i).work n + ∑ k, (s.clerk k).work n s.empty

/-- The work of the start. -/
def totalWork (n : Nat) : Nat := n * (2 * n + 47) + 5 * (n + 7)

theorem work_start : (start n).work = totalWork n := by
  simp [State.work, totalWork, start, CustomerLoc.work, ClerkLoc.work, ClerkLoc.ahead, ClerkLoc.hollow]

/-- One component of a sum moves. -/
theorem sum_update {ι : Type} {β : Type} [Fintype ι] [DecidableEq ι] (f : ι → β) (i : ι) (b : β) (weight : β → Nat) :
    ∑ j, weight (update f i b j) + weight (f i) = ∑ j, weight (f j) + weight b := by
  have new : ∑ j, weight (update f i b j) = weight b + ∑ j ∈ Finset.univ.erase i, weight (f j) := by
    rw [← Finset.add_sum_erase _ _ (Finset.mem_univ i), update_self]
    congr 1
    refine Finset.sum_congr rfl fun j mem => ?_
    rw [update_of_ne (Finset.ne_of_mem_erase mem)]
  have old : ∑ j, weight (f j) = weight (f i) + ∑ j ∈ Finset.univ.erase i, weight (f j) :=
    (Finset.add_sum_erase _ _ (Finset.mem_univ i)).symm
  omega

/-! ## What a step does to the work -/

variable {empty empty' : Class → Bool} {loc : ClerkLoc}

/-- A queue that fills leaves fewer clerks hollow. -/
theorem ClerkLoc.work_mono (fills : ∀ q, empty' q = true → empty q = true) : loc.work n empty' ≤ loc.work n empty := by
  have hollow : loc.hollow empty' = true → loc.hollow empty = true := by
    cases loc <;> simp only [ClerkLoc.hollow, Bool.and_eq_true, Bool.false_eq_true, imp_self]
    · exact fun both => ⟨fills _ both.1, fills _ both.2⟩
    · exact fills .economy
  unfold ClerkLoc.work
  by_cases before : loc.hollow empty' = true
  · rw [if_pos before, if_pos (hollow before)]
  · rw [if_neg before]
    omega

theorem ClerkLoc.work_le : loc.work n empty' ≤ loc.work n empty + 5 := by
  unfold ClerkLoc.work
  split <;> split <;> omega

/-- A clerk's own step, by the branches of its code. -/
theorem clerkNext_work {requestMutex : Option (Fin 5)} (moved : clerkNext s k = some (loc, requestMutex)) :
    loc.work n s.empty < (s.clerk k).work n s.empty := by
  unfold clerkNext at moved
  cases found : s.clerk k <;> rw [found] at moved <;> dsimp only at moved
  all_goals (try split at moved) <;> cases moved
  all_goals simp_all [ClerkLoc.work, ClerkLoc.ahead, ClerkLoc.hollow, State.empty]

theorem release_work : loc.release.work n empty ≤ loc.work n empty + (n + 8) := by
  cases loc with
  | blockedOwn q => simp [ClerkLoc.release, ClerkLoc.work, ClerkLoc.ahead, ClerkLoc.hollow]
  | _ => exact Nat.le_add_right _ _

theorem broadcast_work (q : Class) (f : Fin n → CustomerLoc) (i : Fin n) :
    (broadcast cust q f i).work n ≤ (f i).work n + 1 := by
  unfold broadcast
  split
  · rename_i waiting
    rw [waiting.1]
    exact Nat.le_refl _
  · exact Nat.le_succ _

/-- A customer and a clerk move, and no queue runs empty. -/
theorem work_moved {loc : CustomerLoc} {loc' : ClerkLoc} (fills : ∀ q, s'.empty q = true → s.empty q = true)
    (customer : s'.customer = update s.customer i loc) (clerk : s'.clerk = update s.clerk k loc') :
    s'.work + ((s.customer i).work n + (s.clerk k).work n s.empty) ≤ s.work + (loc.work n + loc'.work n s.empty) := by
  have customers := sum_update s.customer i loc (CustomerLoc.work n)
  have clerks := sum_update s.clerk k loc' (ClerkLoc.work n s.empty)
  have filled : ∑ k, (s'.clerk k).work n s'.empty ≤ ∑ k, (s'.clerk k).work n s.empty :=
    Finset.sum_le_sum fun k _ => ClerkLoc.work_mono fills
  rw [clerk] at filled
  unfold State.work
  rw [customer, clerk]
  omega

/-- A customer moves alone. -/
theorem work_customer {loc : CustomerLoc} (fills : ∀ q, s'.empty q = true → s.empty q = true)
    (customer : s'.customer = update s.customer i loc) (clerk : s'.clerk = s.clerk) :
    s'.work + (s.customer i).work n ≤ s.work + loc.work n := by
  have still : s'.clerk = update s.clerk 0 (s.clerk 0) := by rw [clerk, update_eq_self]
  have moved := work_moved fills customer still
  omega

/-- A clerk moves alone. -/
theorem work_clerk {loc : ClerkLoc} (same : s'.empty = s.empty) (customer : s'.customer = s.customer)
    (clerk : s'.clerk = update s.clerk k loc) :
    s'.work + (s.clerk k).work n s.empty = s.work + loc.work n s.empty := by
  have clerks := sum_update s.clerk k loc (ClerkLoc.work n s.empty)
  unfold State.work
  rw [customer, clerk, same]
  omega

theorem empty_of_sameQueues (same : SameQueues s s') : s'.empty = s.empty := by
  funext q
  rw [State.empty, State.empty, same.queue]

/-- No queue runs empty in a step that keeps the queues. -/
theorem SameQueues.fills (same : SameQueues s s') (q : Class) (none : s'.empty q = true) : s.empty q = true := by
  rwa [empty_of_sameQueues same] at none

/-- Nor in an enqueue. -/
theorem enqueue_fills (i : Fin n) (q : Class) (reading : Rat) (integrity : Integrity cust as s) (q' : Class)
    (none : (next cust s (.enqueue i q reading)).empty q' = true) : s.empty q' = true := by
  obtain ⟨l, state⟩ := integrity.queues q
  obtain ⟨heap, queue, done, holds, -⟩ := state.holds.enqueue i
  rw [enqueue_step done] at none
  by_cases here : q' = q
  · subst here
    simp only [State.empty, update_self, beq_iff_eq] at none
    simpa using holds.size_eq_zero.1 none
  · simpa only [State.empty, update_of_ne here] using none

/-- The customer that leaves pays for the clerks that its departure leaves hollow. -/
theorem leave_work {reading : Rat} (integrity : Integrity cust as s) (enabled : Enabled cust s (.leave i q reading)) :
    (next cust s (.leave i q reading)).work < s.work := by
  obtain ⟨queue, done⟩ := leave_succeeds integrity.queues enabled
  have customers := sum_update s.customer i (.admitted (s.vars q).status) (CustomerLoc.work n)
  rw [enabled.2.1] at customers
  have clerks : ∑ k, (s.clerk k).work n (next cust s (.leave i q reading)).empty ≤
      ∑ k : Fin 5, ((s.clerk k).work n s.empty + 5) := Finset.sum_le_sum fun k _ => ClerkLoc.work_le
  rw [Finset.sum_add_distrib] at clerks
  rw [leave_step done] at clerks ⊢
  simp only [State.work, CustomerLoc.work, Finset.sum_const, Finset.card_univ, Fintype.card_fin,
    smul_eq_mul] at customers clerks ⊢
  omega

/-- A selection pays for the customers that it wakes. -/
theorem select_work (enabled : Enabled cust s (.select k q)) : (next cust s (.select k q)).work < s.work := by
  have customers : ∑ i, (broadcast cust q s.customer i).work n ≤ ∑ i, ((s.customer i).work n + 1) :=
    Finset.sum_le_sum fun i _ => broadcast_work q s.customer i
  rw [Finset.sum_add_distrib] at customers
  have clerks := sum_update s.clerk k (.selected q) (ClerkLoc.work n s.empty)
  have before : (ClerkLoc.selecting q).work n s.empty = n + 2 := rfl
  have after : (ClerkLoc.selected q).work n s.empty = 1 := rfl
  rw [enabled.1, before, after] at clerks
  unfold State.work
  rw [empty_of_sameQueues (sameQueues enabled rfl)]
  simp only [next, Finset.sum_const, Finset.card_univ, Fintype.card_fin, smul_eq_mul] at customers ⊢
  omega

/-- **Every step counts down**, but for spurious wake-ups. -/
theorem work_step (integrity : Integrity cust as s) (enabled : Enabled cust s a) (genuine : a.spurious = false) :
    (next cust s a).work < s.work := by
  cases a with
  | enqueue i q reading =>
    obtain ⟨heap, queue, done⟩ := enqueue_succeeds integrity.queues i q
    have fills := enqueue_fills i q reading integrity
    rw [enqueue_step done] at fills ⊢
    have moved := work_customer fills rfl rfl
    rw [enabled.2.1] at moved
    simp only [CustomerLoc.work] at moved ⊢
    omega
  | signalArrival i woken =>
    have fills := (sameQueues enabled rfl).fills
    cases woken with
    | none =>
      have moved := work_customer fills rfl rfl
      rw [enabled.1] at moved
      simp only [CustomerLoc.work] at moved
      omega
    | some k =>
      have moved := work_moved fills rfl rfl
      rw [enabled.1, enabled.2] at moved
      simp only [CustomerLoc.work, ClerkLoc.work, ClerkLoc.ahead, ClerkLoc.hollow, Bool.false_eq_true, if_false]
        at moved
      omega
  | wait i q =>
    have moved := work_customer (sameQueues enabled rfl).fills rfl rfl
    rw [enabled.2] at moved
    simp only [CustomerLoc.work] at moved
    omega
  | leave i q reading => exact leave_work integrity enabled
  | rewait i q =>
    have moved := work_customer (sameQueues enabled rfl).fills rfl rfl
    rw [enabled.2.1] at moved
    simp only [CustomerLoc.work] at moved
    omega
  | fault i q => exact absurd enabled (not_fault integrity.queues)
  | skip i unset =>
    have moved := work_customer (sameQueues enabled rfl).fills rfl rfl
    rw [enabled.2] at moved
    simp only [CustomerLoc.work] at moved
    omega
  | startService i q c =>
    have moved := work_customer (sameQueues enabled rfl).fills rfl rfl
    rw [enabled.2] at moved
    simp only [CustomerLoc.work] at moved
    omega
  | finish i c =>
    have serving : s.customer i = .serving c := enabled
    have moved := work_moved (sameQueues enabled rfl).fills rfl rfl
    have released : (s.clerk (clerkOf c)).release.work n s.empty ≤ _ := release_work
    rw [serving] at moved
    simp only [CustomerLoc.work] at moved
    omega
  | clerk k =>
    obtain ⟨⟨loc, requestMutex⟩, found⟩ := Option.isSome_iff_exists.1 enabled
    have same := empty_of_sameQueues (sameQueues enabled rfl)
    have lower := clerkNext_work found
    have after : next cust s (.clerk k) = { s with clerk := update s.clerk k loc, requestMutex } := by
      simp only [next, found]
    rw [after] at same ⊢
    have moved := work_clerk same rfl rfl
    omega
  | select k q => exact select_work enabled
  | wakeCustomer i | wakeClerk k => cases genuine

/-- A spurious wake-up costs at most a round of one thread. -/
theorem spurious_work (enabled : Enabled cust s a) (spurious : a.spurious = true) :
    (next cust s a).work ≤ s.work + (n + 8) := by
  cases a with
  | wakeCustomer i =>
    have waiting : s.customer i = .waiting := enabled
    have moved := work_customer (sameQueues enabled rfl).fills rfl rfl
    rw [waiting] at moved
    simp only [CustomerLoc.work] at moved
    omega
  | wakeClerk k =>
    have moved := work_clerk (empty_of_sameQueues (sameQueues enabled rfl)) rfl rfl
    rcases enabled with blocked | ⟨q, blocked⟩ <;> rw [blocked] at moved <;>
      simp only [ClerkLoc.work, ClerkLoc.ahead, ClerkLoc.hollow, Bool.false_eq_true, if_false] at moved <;> omega
  | _ => cases spurious

/-- **No livelock.** However the threads are scheduled, a run of `n` customers has at most
`n * (2 * n + 47) + 5 * (n + 7)` steps, and `n + 8` more for each spurious wake-up. -/
theorem steps_bounded (run : Reaches cust as s) :
    as.countP (fun a => !a.spurious) ≤ n * (2 * n + 47) + 5 * (n + 7) + (n + 8) * as.countP Action.spurious := by
  have bound := run.bounded State.work Action.spurious (n + 8)
    (fun _ _ _ run enabled genuine => work_step (integrity run) enabled genuine)
    (fun _ _ _ _ enabled spurious => spurious_work enabled spurious)
  rw [work_start, totalWork] at bound
  omega

theorem steps_bounded_deadlock :
    deadlockRun.countP (fun a => !a.spurious) ≤
      2 * (2 * 2 + 47) + 5 * (2 + 7) + (2 + 8) * deadlockRun.countP Action.spurious :=
  steps_bounded (show Reaches twins deadlockRun _ from Run.of_check (by decide))

end CSC360.Clerks
