import CSC360.Clerks.Arrivals
import CSC360.Clerks.Statistics
import CSC360.Clerks.Termination

/-!
# How the simulation ends

A state is quiet when no thread can take a step, spurious wake-ups apart. **A reachable
quiet state is one of two**: every customer is done, the queues are empty and the counters
show it (`Finished`), or the run has ended in a deadlock (`Deadlocked`). Every run goes on to
a quiet state, whatever its next steps are, and if its steps have found their partners that
state is a finished one.

What has to be excluded is a thread that waits for a mutex that nobody gives back: whoever
holds a mutex can take its next step.
-/

namespace CSC360.Clerks

open CSC360.Base Function

variable {n : Nat} {cust : Fin n → Customer} {as : List (Action n)} {s s' : State n} {a : Action n}
variable {q : Class} {i : Fin n} {k : Fin 5}

/-- No thread can take a step of its own. -/
def Quiet (cust : Fin n → Customer) (s : State n) : Prop := ∀ a, a.spurious = false → ¬ Enabled cust s a

/-- Every customer has been served, each queue has been emptied in the order of its arrivals, and
the clerks wait for customers that do not come. -/
structure Finished (cust : Fin n → Customer) (as : List (Action n)) (s : State n) : Prop where
  customers : ∀ i, s.customer i = .done
  clerks : ∀ k, s.clerk k = .blockedRequest ∨ ∃ q, s.clerk k = .blockedOwn q
  queues : ∀ q, (s.vars q).queue.size = 0 ∧ (s.vars q).length = 0
  served : ∀ q, (s.vars q).served = (ofClass cust q).card
  order : ∀ q, leaveIds cust q as = enqueueIds cust q as

/-! ## Whoever holds a mutex -/

/-- The holder of `request_queue_mutex` is in its critical section. -/
def RequestOwned (s : State n) : Prop := ∀ k, s.requestMutex = some k → (s.clerk k).requesting = true

theorem ClerkMove.owned {before loc : ClerkLoc} {requestMutex : Option (Fin 5)}
    (move : ClerkMove s k before loc requestMutex) (owned : s.requestMutex = some k → before.requesting = true)
    {k' : Fin 5} (held : requestMutex = some k') :
    k' = k ∧ loc.requesting = true ∨ s.requestMutex = some k' ∧ (k' = k → loc.requesting = true) := by
  cases move with
  | lock | relock =>
    obtain rfl := Option.some.inj held
    exact .inl ⟨rfl, rfl⟩
  | noBusiness | noEconomy => exact .inr ⟨held, fun _ => rfl⟩
  | someBusiness | someEconomy | block => cases held
  | _ =>
    refine .inr ⟨held, ?_⟩
    rintro rfl
    exact absurd (owned held) (by simp [ClerkLoc.requesting])

/-- A clerk outside the critical section moves to a place outside it. -/
theorem RequestOwned.moved {loc : ClerkLoc} (owned : RequestOwned s) (clerk : s'.clerk = update s.clerk k loc)
    (same : s'.requestMutex = s.requestMutex) (outside : (s.clerk k).requesting = true → loc.requesting = true) :
    RequestOwned s' := by
  intro k' held
  rw [same] at held
  rw [clerk]
  exact update_forth (fun loc : ClerkLoc => loc.requesting = true) outside k' (owned k' held)

theorem RequestOwned.step (owned : RequestOwned s) (enabled : Enabled cust s a) : RequestOwned (next cust s a) := by
  cases quiet : a.movesClerk with
  | false =>
    obtain ⟨clerk, same⟩ := clerk_kept cust s quiet
    intro k
    rw [clerk, same]
    exact owned k
  | true =>
    cases a with
    | signalArrival i woken =>
      cases woken with
      | none => exact owned
      | some k => exact owned.moved rfl rfl (by rw [enabled.2]; nofun)
    | finish i c =>
      refine owned.moved rfl rfl fun requesting => ?_
      cases found : s.clerk (clerkOf c) <;> rw [found] at requesting <;> exact requesting
    | clerk k =>
      obtain ⟨loc, requestMutex, move, after⟩ := clerk_step enabled
      rw [after]
      intro k' held
      simp only at held ⊢
      rcases move.owned (owned k) held with ⟨rfl, requesting⟩ | ⟨before, mine⟩
      · rw [update_self, requesting]
      · by_cases here : k' = k
        · rw [here, update_self, mine here]
        · rw [update_of_ne here, owned k' before]
    | select k q => exact owned.moved rfl rfl (by rw [enabled.1]; nofun)
    | wakeClerk k =>
      refine owned.moved rfl rfl fun requesting => ?_
      rcases enabled with blocked | ⟨q, blocked⟩ <;> rw [blocked] at requesting <;> cases requesting
    | _ => cases quiet

theorem requestOwned (run : Reaches cust as s) : RequestOwned s :=
  run.invariant (I := fun _ s => RequestOwned s) (fun _ held => by cases held)
    fun _ _ _ _ owned enabled => owned.step enabled

/-- A customer that a clerk has admitted has come from a queue. -/
theorem admitted_own (run : Reaches cust as s) {c : Int} (admitted : s.customer i = .admitted c) :
    ∃ q, (cust i).currQueue = some q := by
  refine run.invariant (I := fun _ s => ∀ c, s.customer i = .admitted c → ∃ q, (cust i).currQueue = some q) nofun
    (fun as s a run own enabled => ?_) c admitted
  have kept : ∀ {j loc}, (∀ c, loc ≠ .admitted c) → ∀ c, update s.customer j loc i = .admitted c →
      ∃ q, (cust i).currQueue = some q := fun other c now =>
    own c (update_back (fun loc : CustomerLoc => loc = .admitted c) (fun now => absurd now (other c)) i now)
  cases a with
  | leave j q reading =>
    obtain ⟨queue, done⟩ := leave_succeeds (integrity run).queues enabled
    rw [leave_step done]
    intro c now
    by_cases here : i = j
    · exact ⟨q, here ▸ enabled.1⟩
    · exact own c ((update_of_ne here _ _).symm.trans now)
  | enqueue j q reading =>
    obtain ⟨heap, queue, done⟩ := enqueue_succeeds (integrity run).queues j q
    rw [enqueue_step done]
    exact kept (fun _ same => by cases same)
  | select k q =>
    intro c now
    simp only [next, broadcast] at now
    split at now
    · cases now
    · exact own c now
  | clerk k =>
    obtain ⟨loc, requestMutex, -, after⟩ := clerk_step enabled
    rw [after]
    exact own
  | wakeClerk k => exact own
  | _ => exact kept (fun _ same => by cases same)

/-- A clerk that need not wait for `request_queue_mutex` is blocked, about to select, or can move. -/
theorem clerk_moves (free : s.requestMutex = none ∨ (s.clerk k).requesting = true) :
    Enabled cust s (.clerk k) ∨ s.clerk k = .blockedRequest ∨
      ∃ q, s.clerk k = .selecting q ∨ s.clerk k = .blockedOwn q := by
  show (clerkNext s k).isSome = true ∨ _
  unfold clerkNext
  cases found : s.clerk k with
  | idle | wokenRequest =>
    rw [found] at free
    refine .inl ?_
    simp only [free.resolve_right nofun, if_true, Option.isSome_some]
  | testingBusiness | testingEconomy | choosingBusiness | choosingEconomy =>
    refine .inl ?_
    dsimp only
    split <;> rfl
  | blocking | selected | wokenOwn => exact .inl rfl
  | blockedRequest => exact .inr (.inl rfl)
  | selecting q => exact .inr (.inr ⟨q, .inl rfl⟩)
  | blockedOwn q => exact .inr (.inr ⟨q, .inr rfl⟩)

/-! ## Quiet states -/

section Quiet

variable (quiet : Quiet cust s)

include quiet

theorem Quiet.not_holding (run : Reaches cust as s) (i : Fin n) : (s.customer i).holding = false := by
  cases found : s.customer i with
  | enqueued =>
    obtain ⟨woken, enabled⟩ := signal_enabled found
    exact absurd enabled (quiet _ rfl)
  | signalled =>
    cases own : (cust i).currQueue with
    | none =>
      have outside := stray_outside run own
      rw [found] at outside
      cases outside
    | some q => exact absurd ⟨own, found⟩ (quiet (.wait i q) rfl)
  | _ => rfl

theorem Quiet.mutex_free (run : Reaches cust as s) (q : Class) : (s.vars q).mutex = none := by
  cases held : (s.vars q).mutex with
  | none => rfl
  | some i =>
    have holding := (((integrity run).mutex q i).1 held).2
    rw [quiet.not_holding run i] at holding
    cases holding

theorem Quiet.requestMutex_free (run : Reaches cust as s) : s.requestMutex = none := by
  cases held : s.requestMutex with
  | none => rfl
  | some k =>
    have requesting := requestOwned run k held
    rcases clerk_moves (.inr requesting) with moves | blocked | ⟨q, selecting | blocked⟩
    · exact absurd moves (quiet _ rfl)
    · rw [blocked] at requesting
      cases requesting
    · rw [selecting] at requesting
      cases requesting
    · rw [blocked] at requesting
      cases requesting

theorem Quiet.customer (run : Reaches cust as s) (i : Fin n) : s.customer i = .done ∨ s.customer i = .waiting := by
  have holding := quiet.not_holding run i
  have free := quiet.mutex_free run
  have alive := (integrity run).alive i
  cases found : s.customer i with
  | arriving =>
    cases own : (cust i).currQueue with
    | none => exact absurd ⟨own, found⟩ (quiet (.skip i 0) rfl)
    | some q => exact absurd ⟨own, found, free q⟩ (quiet (.enqueue i q 0) rfl)
  | enqueued | signalled =>
    rw [found] at holding
    cases holding
  | waiting => exact .inr rfl
  | woken =>
    cases own : (cust i).currQueue with
    | none =>
      have outside := stray_outside run own
      rw [found] at outside
      cases outside
    | some q =>
      -- one of the three ways out of `checkHead` is open
      cases check : checkHead cust s i q with
      | none => exact absurd ⟨own, found, free q, check⟩ (quiet (.fault i q) rfl)
      | some head =>
        cases head with
        | false => exact absurd ⟨own, found, free q, .inl check⟩ (quiet (.rewait i q) rfl)
        | true =>
          cases taken : (s.vars q).winner with
          | false => exact absurd ⟨own, found, free q, check, taken⟩ (quiet (.leave i q 0) rfl)
          | true => exact absurd ⟨own, found, free q, .inr ⟨check, taken⟩⟩ (quiet (.rewait i q) rfl)
  | admitted c =>
    obtain ⟨q, own⟩ := admitted_own run found
    exact absurd ⟨own, found⟩ (quiet (.startService i q c) rfl)
  | serving c => exact absurd found (quiet (.finish i c) rfl)
  | done => exact .inl rfl
  | crashed => exact absurd found alive

theorem Quiet.clerk (run : Reaches cust as s) (k : Fin 5) :
    s.clerk k = .blockedRequest ∨ ∃ q, s.clerk k = .blockedOwn q := by
  rcases clerk_moves (.inl (quiet.requestMutex_free run)) with moves | blocked | ⟨q, selecting | blocked⟩
  · exact absurd moves (quiet (.clerk k) rfl)
  · exact .inl blocked
  · exact absurd ⟨selecting, quiet.mutex_free run q⟩ (quiet (.select k q) rfl)
  · exact .inr ⟨q, blocked⟩

end Quiet

/-- When all customers are done, the queues are empty and everybody has been counted. -/
theorem finished_of_done (run : Reaches cust as s) (done : ∀ i, s.customer i = .done)
    (clerks : ∀ k, s.clerk k = .blockedRequest ∨ ∃ q, s.clerk k = .blockedOwn q) : Finished cust as s := by
  have nobody : ∀ q, inLoop cust s q = ∅ := by
    intro q
    refine Finset.eq_empty_of_forall_notMem fun i mem => ?_
    have inside := (mem_inLoop.1 mem).2
    rw [done i] at inside
    cases inside
  have drained : ∀ q, QueueState cust as s q [] := by
    intro q
    obtain ⟨l, state⟩ := (integrity run).queues q
    have ids := state.ids
    rw [nobody q, Finset.empty_val, Multiset.map_zero, Multiset.coe_eq_zero, nodeIds, List.map_eq_nil_iff] at ids
    rwa [ids] at state
  refine ⟨done, clerks, fun q => ⟨(drained q).holds.size, (drained q).length⟩, fun q => ?_, fun q => ?_⟩
  · have tally : Tally cust as s := run.invariant .start fun as s a run tally enabled => tally.step run enabled
    rw [tally.served, Finset.card_eq_sum_ones]
    refine Finset.sum_congr rfl fun i mem => ?_
    have past := readings run (mem_ofClass.1 mem)
    rw [Readings, done i] at past
    obtain ⟨-, reading, left⟩ := past
    rw [left, List.length_singleton]
  · have order := (drained q).order
    rwa [nodeIds, List.map_nil, List.append_nil] at order

theorem Quiet.ends (quiet : Quiet cust s) (run : Reaches cust as s) : Finished cust as s ∨ Deadlocked s := by
  by_cases done : ∀ i, s.customer i = .done
  · exact .inl (finished_of_done run done (quiet.clerk run))
  · exact .inr ⟨not_forall.1 done, quiet.customer run, quiet.clerk run⟩

/-- Where the customers are done or blocked and the clerks are blocked, only a spurious wake-up is left. -/
theorem quiet_of_blocked (customers : ∀ i, s.customer i = .done ∨ s.customer i = .waiting)
    (clerks : ∀ k, s.clerk k = .blockedRequest ∨ ∃ q, s.clerk k = .blockedOwn q) : Quiet cust s := by
  have elsewhere : ∀ {i loc}, s.customer i = loc → loc ≠ .done → loc ≠ .waiting → False := by
    rintro i _ rfl active awake
    rcases customers i with done | waiting
    · exact active done
    · exact awake waiting
  intro a genuine enabled
  cases a with
  | enqueue i q reading | leave i q reading | rewait i q | fault i q => exact elsewhere enabled.2.1 nofun nofun
  | wait i q | skip i unset | startService i q c => exact elsewhere enabled.2 nofun nofun
  | signalArrival i woken => exact elsewhere (signalArrival_loc enabled) nofun nofun
  | finish i c =>
    have serving : s.customer i = .serving c := enabled
    exact elsewhere serving nofun nofun
  | clerk k =>
    have moves : (clerkNext s k).isSome = true := enabled
    rw [clerkNext] at moves
    rcases clerks k with blocked | ⟨q, blocked⟩ <;> rw [blocked] at moves <;> cases moves
  | select k q =>
    rcases clerks k with blocked | ⟨q, blocked⟩ <;> rw [enabled.1] at blocked <;> cases blocked
  | wakeCustomer i | wakeClerk k => cases genuine

/-! ## Every run ends -/

/-- **A run is stuck only where it is finished or deadlocked.** -/
theorem quiet_iff (run : Reaches cust as s) : Quiet cust s ↔ Finished cust as s ∨ Deadlocked s := by
  refine ⟨fun quiet => quiet.ends run, ?_⟩
  rintro (finished | deadlocked)
  · exact quiet_of_blocked (fun i => .inl (finished.customers i)) finished.clerks
  · exact quiet_of_blocked deadlocked.customers deadlocked.clerks

theorem quiet_iff_deadlock :
    Quiet twins (deadlockRun.foldl (next twins) (start 2)) ↔
      Finished twins deadlockRun (deadlockRun.foldl (next twins) (start 2)) ∨
        Deadlocked (deadlockRun.foldl (next twins) (start 2)) :=
  quiet_iff (Run.of_check (by decide))

/-- **Every run goes on to its end**: from any state reached, spurious wake-ups included, the
threads' own steps lead to a finished or deadlocked state. -/
theorem simulation_ends (run : Reaches cust as s) :
    ∃ as' s', Run (fun s a => Enabled cust s a ∧ a.spurious = false) (next cust) s as' s' ∧
      (Finished cust (as ++ as') s' ∨ Deadlocked s') := by
  obtain ⟨as', s', rest, quiet⟩ := run.completes State.work Action.spurious
    fun _ _ _ run enabled genuine => work_step (integrity run) enabled genuine
  exact ⟨as', s', rest, Quiet.ends quiet (run.append (rest.mono fun _ _ can => can.1))⟩

theorem simulation_ends_twins :
    ∃ as' s', Run (fun s a => Enabled twins s a ∧ a.spurious = false) (next twins)
        (twinsRun.foldl (next twins) (start 2)) as' s' ∧
      (Finished twins (twinsRun ++ as') s' ∨ Deadlocked s') :=
  simulation_ends (Run.of_check (by decide))

/-- **All customers are served** where a run whose steps find their partners can go no further. -/
theorem orderly_finishes (classes : ∀ i, (cust i).classType = 0 ∨ (cust i).classType = 1)
    (run : Run (fun s a => Enabled cust s a ∧ Orderly s a) (next cust) (start n) as s) (quiet : Quiet cust s) :
    Finished cust as s := by
  have reached : Reaches cust as s := run.mono fun _ _ can => can.1
  have progress : Progress cust s := by
    refine run.invariant (I := fun _ s => Progress cust s) Progress.start fun as s a run state can => ?_
    exact state.step (integrity (run.mono fun _ _ can => can.1)) can.1 can.2
  exact (quiet.ends reached).resolve_right (progress.not_deadlocked classes)

/-- Clerk 1 serves both customers, then all clerks wait for more. -/
def closingRun : List (Action 2) :=
  mixedRun ++ List.replicate 5 (.clerk (clerkOf 1)) ++
    [2, 3, 4, 5].flatMap fun id => List.replicate 4 (.clerk (clerkOf id))

theorem orderly_finishes_closing : Finished mixed closingRun (closingRun.foldl (next mixed) (start 2)) :=
  orderly_finishes mixed_classes (Run.of_check (by decide)) (quiet_of_blocked (by decide) (by decide))

end CSC360.Clerks
