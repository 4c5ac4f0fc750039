import CSC360.Clerks.Selections

/-!
# Arrivals

A clerk tests the two sizes and blocks under `request_queue_mutex`; a customer changes a
size and signals under the mutex of its queue only. **A clerk blocks with both queues
empty as long as no customer enters a queue that a clerk has just found empty**
(`Noticed`), and the signal of a customer that enters later then wakes a blocked clerk.

`arrival_missed` is a run in which the customer comes between the test and the wait.
-/

namespace CSC360.Clerks

open CSC360.Base Function

variable {n : Nat} {cust : Fin n → Customer} {as : List (Action n)} {s : State n} {a : Action n}
variable {q : Class} {i : Fin n} {k : Fin 5}

/-- The clerk has found the queue empty and has not blocked yet. -/
def ClerkLoc.foundEmpty : ClerkLoc → Class → Bool
  | .testingEconomy, .business | .blocking, _ => true
  | _, _ => false

/-- No clerk has found the queue empty when a customer enters it. -/
def Noticed (s : State n) : Action n → Prop
  | .enqueue _ q _ => ∀ k, (s.clerk k).foundEmpty q = false
  | _ => True

instance (s : State n) : DecidablePred (Noticed s)
  | .enqueue _ _ _ => inferInstanceAs (Decidable (∀ _, _))
  | .signalArrival _ _ | .wait _ _ | .leave _ _ _ | .rewait _ _ | .fault _ _ | .skip _ _ | .startService _ _ _
  | .finish _ _ | .wakeCustomer _ | .clerk _ | .select _ _ | .wakeClerk _ => inferInstanceAs (Decidable True)

/-- What a clerk has found empty is still empty. -/
def StillEmpty (s : State n) : Prop :=
  ∀ k q, (s.clerk k).foundEmpty q = true → (s.vars q).queue.size = 0

/-! ## The two sides of the window -/

theorem ClerkMove.foundEmpty {before loc : ClerkLoc} {requestMutex : Option (Fin 5)}
    (move : ClerkMove s k before loc requestMutex) (found : loc.foundEmpty q = true) :
    before.foundEmpty q = true ∨ (s.vars q).queue.size = 0 := by
  cases move with
  | noBusiness empty =>
    cases q with
    | economy => cases found
    | business => exact .inr empty
  | noEconomy empty =>
    cases q with
    | economy => exact .inr empty
    | business => exact .inl rfl
  | _ => cases found

theorem release_foundEmpty {loc : ClerkLoc} (found : loc.release.foundEmpty q = true) : loc.foundEmpty q = true := by
  cases loc <;> exact found

/-- A clerk comes to know a queue as empty by a test only. -/
theorem foundEmpty_step (enabled : Enabled cust s a) (found : ((next cust s a).clerk k).foundEmpty q = true) :
    (s.clerk k).foundEmpty q = true ∨ (s.vars q).queue.size = 0 := by
  have moved : ∀ {k' loc}, (loc.foundEmpty q = true → (s.clerk k').foundEmpty q = true) →
      (update s.clerk k' loc k).foundEmpty q = true → (s.clerk k).foundEmpty q = true :=
    fun back => update_back (fun loc : ClerkLoc => loc.foundEmpty q = true) back k
  cases quiet : a.movesClerk with
  | false =>
    rw [(clerk_kept cust s quiet).1] at found
    exact .inl found
  | true =>
    cases a with
    | signalArrival i woken =>
      cases woken with
      | none => exact .inl found
      | some k' => exact .inl (moved (by simp [ClerkLoc.foundEmpty]) found)
    | finish i c => exact .inl (moved release_foundEmpty found)
    | clerk k' =>
      obtain ⟨loc, requestMutex, move, after⟩ := clerk_step enabled
      rw [after] at found
      simp only at found
      by_cases here : k = k'
      · subst here
        rw [update_self] at found
        exact move.foundEmpty found
      · rw [update_of_ne here] at found
        exact .inl found
    | select k' q' => exact .inl (moved (by simp [ClerkLoc.foundEmpty]) found)
    | wakeClerk k' =>
      refine .inl (moved (fun woken => ?_) found)
      split at woken <;> cases woken
    | _ => cases quiet

/-- Only a customer that enters it fills an empty queue. -/
theorem empty_step (queues : ∀ q, ∃ l, QueueState cust as s q l) (enabled : Enabled cust s a)
    (empty : (s.vars q).queue.size = 0) :
    ((next cust s a).vars q).queue.size = 0 ∨ ∃ i reading, a = .enqueue i q reading := by
  cases quiet : a.touches with
  | false =>
    rw [(sameQueues enabled quiet).queue]
    exact .inl empty
  | true =>
    cases a with
    | enqueue i q' reading =>
      by_cases here : q = q'
      · exact .inr ⟨i, reading, by rw [here]⟩
      · obtain ⟨heap, queue, done⟩ := enqueue_succeeds queues i q'
        rw [enqueue_step done]
        simp only [update_of_ne here, empty, true_or]
    | leave i q' reading =>
      obtain ⟨queue, done⟩ := leave_succeeds queues enabled
      rw [leave_step done]
      by_cases here : q = q'
      · subst here
        -- an empty queue stays as it is
        rw [queueDequeue, if_pos empty] at done
        obtain rfl := Option.some.inj done
        simp only [update_self, empty, true_or]
      · simp only [update_of_ne here, empty, true_or]
    | fault i q' => exact absurd enabled (not_fault queues)
    | _ => cases quiet

theorem StillEmpty.step (still : StillEmpty s) (queues : ∀ q, ∃ l, QueueState cust as s q l)
    (enabled : Enabled cust s a) (noticed : Noticed s a) : StillEmpty (next cust s a) := by
  intro k q found
  have empty : (s.vars q).queue.size = 0 := by
    rcases foundEmpty_step enabled found with before | empty
    · exact still k q before
    · exact empty
  rcases empty_step queues enabled empty with empty | ⟨i, reading, rfl⟩
  · exact empty
  · rw [(clerk_kept cust s rfl).1, noticed k] at found
    cases found

/-! ## Blocked clerks -/

/-- Every clerk that blocks on `request_queue_convar` next does so with both queues empty. -/
def BlocksOnEmpty (cust : Fin n → Customer) (s : State n) : Prop :=
  ∀ k, s.clerk k = .blocking →
    (next cust s (.clerk k)).clerk k = .blockedRequest ∧ ∀ q, ((next cust s (.clerk k)).vars q).queue.size = 0

theorem block_step (blocking : s.clerk k = .blocking) :
    next cust s (.clerk k) = { s with clerk := update s.clerk k .blockedRequest, requestMutex := none } := by
  simp only [next, clerkNext, blocking]

/-- No clerk blocks behind a customer, and a customer that has entered a queue signals next,
to a blocked clerk if there is one. -/
structure Heard (cust : Fin n → Customer) (s : State n) : Prop where
  blocks : BlocksOnEmpty cust s
  signals : ∀ i, s.customer i = .enqueued → ∃ woken, Enabled cust s (.signalArrival i woken)
  wakes : ∀ i a, s.customer i = .enqueued → a.customer = some i → Enabled cust s a →
    (∃ k, s.clerk k = .blockedRequest) →
      ∃ k, a = .signalArrival i (some k) ∧ s.clerk k = .blockedRequest ∧ (next cust s a).clerk k = .wokenRequest

theorem signal_enabled (entered : s.customer i = .enqueued) : ∃ woken, Enabled cust s (.signalArrival i woken) := by
  by_cases blocked : ∃ k, s.clerk k = .blockedRequest
  · obtain ⟨k, blocked⟩ := blocked
    exact ⟨some k, entered, blocked⟩
  · exact ⟨none, entered, not_exists.1 blocked⟩

/-- A customer that has entered a queue does nothing before it has signalled. -/
theorem signals_next (entered : s.customer i = .enqueued) (mine : a.customer = some i) (enabled : Enabled cust s a) :
    ∃ woken, a = .signalArrival i woken := by
  cases a with
  | signalArrival j woken =>
    obtain rfl := Option.some.inj mine
    exact ⟨woken, rfl⟩
  | clerk | select | wakeClerk => cases mine
  | enqueue j q reading | leave j q reading | rewait j q | fault j q =>
    obtain rfl := Option.some.inj mine
    have loc := enabled.2.1
    rw [entered] at loc
    cases loc
  | wait j q | skip j unset | startService j q c =>
    obtain rfl := Option.some.inj mine
    have loc := enabled.2
    rw [entered] at loc
    cases loc
  | finish j c | wakeCustomer j =>
    obtain rfl := Option.some.inj mine
    have loc := entered.symm.trans enabled
    cases loc

theorem signal_wakes {woken : Option (Fin 5)} (enabled : Enabled cust s (.signalArrival i woken))
    (blocked : ∃ k, s.clerk k = .blockedRequest) :
    ∃ k, woken = some k ∧ s.clerk k = .blockedRequest ∧
      (next cust s (.signalArrival i woken)).clerk k = .wokenRequest := by
  cases woken with
  | none =>
    obtain ⟨k, blocked⟩ := blocked
    exact absurd blocked (enabled.2 k)
  | some k => exact ⟨k, rfl, enabled.2, update_self _ _ _⟩

/-- **No arrival is missed by a clerk that goes to sleep**, whatever the interleaving and the
spurious wake-ups, in a run in which no customer enters a queue between a clerk's test of
the queue and its wait. -/
theorem arrivals_heard (run : Run (fun s a => Enabled cust s a ∧ Noticed s a) (next cust) (start n) as s) :
    Heard cust s := by
  have still : StillEmpty s := by
    refine run.invariant (I := fun _ s => StillEmpty s) ?_ fun as s a run still can => ?_
    · intro k q found
      cases found
    · have reached : Reaches cust as s := run.mono fun _ _ can => can.1
      exact still.step (integrity reached).queues can.1 can.2
  refine ⟨fun k blocking => ?_, fun i entered => signal_enabled entered,
    fun i a entered mine enabled blocked => ?_⟩
  · rw [block_step blocking]
    refine ⟨update_self _ _ _, fun q => still k q ?_⟩
    rw [blocking]
    rfl
  · obtain ⟨woken, rfl⟩ := signals_next entered mine enabled
    obtain ⟨k, rfl, before, after⟩ := signal_wakes enabled blocked
    exact ⟨k, rfl, before, after⟩

/-- Clerk 1 blocks before the customer enters and signals. -/
def heardRun : List (Action 2) := List.replicate 4 (.clerk (clerkOf 1)) ++ [.enqueue customer1 .economy 1]

theorem arrivals_heard_asleep : Heard twins (heardRun.foldl (next twins) (start 2)) :=
  have run : Run (fun s a => Enabled twins s a ∧ Noticed s a) (next twins) (start 2) heardRun
      (heardRun.foldl (next twins) (start 2)) := Run.of_check (by decide)
  arrivals_heard run

/-- In every state in which a clerk has found both queues empty and no clerk is blocked, a
customer can enter a queue and lose its signal before the clerk blocks. -/
theorem arrival_between {reading : Rat} (run : Reaches cust as s) (blocking : s.clerk k = .blocking)
    (awake : ∀ k, s.clerk k ≠ .blockedRequest) (enabled : Enabled cust s (.enqueue i q reading)) :
    ∃ s', Reaches cust (as ++ [.enqueue i q reading] ++ [.signalArrival i none]) s' ∧
      s'.clerk k = .blocking ∧ (s'.vars q).queue.size ≠ 0 := by
  obtain ⟨l, state⟩ := (integrity run).queues q
  obtain ⟨heap, queue, done, holds, -⟩ := state.holds.enqueue i
  have entered : next cust s (.enqueue i q reading) = _ := enqueue_step done
  have unheard : Enabled cust (next cust s (.enqueue i q reading)) (.signalArrival i none) := by
    rw [entered]
    exact ⟨update_self _ _ _, awake⟩
  refine ⟨_, .step (.step run enabled) unheard, ?_, ?_⟩
  · show (next cust s (.enqueue i q reading)).clerk k = .blocking
    rw [(clerk_kept cust s rfl).1]
    exact blocking
  · show ((next cust s (.enqueue i q reading)).vars q).queue.size ≠ 0
    rw [entered]
    simp only [update_self, holds.size, List.length_append]
    exact Nat.succ_ne_zero _

/-- Clerk 1 has found both queues empty. -/
def emptyRun : List (Action 2) := List.replicate 3 (.clerk (clerkOf 1))

/-- **An arrival can be missed.** -/
theorem arrival_missed :
    ¬ ∀ (n : Nat) (cust : Fin n → Customer) (as : List (Action n)) (s : State n),
      Reaches cust as s → BlocksOnEmpty cust s := by
  intro claim
  have run : Reaches twins emptyRun (emptyRun.foldl (next twins) (start 2)) := Run.of_check (by decide)
  have enabled : Enabled twins (emptyRun.foldl (next twins) (start 2)) (.enqueue customer1 .economy 1) := by decide
  obtain ⟨s, run, blocking, size⟩ := arrival_between (k := clerkOf 1) run (by decide) (by decide) enabled
  have empty := (claim 2 twins _ s run (clerkOf 1) blocking).2 .economy
  rw [block_step blocking] at empty
  exact size empty

end CSC360.Clerks
