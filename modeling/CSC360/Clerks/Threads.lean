import CSC360.Base.Transition
import CSC360.Clerks.Queue
import Mathlib.Data.Fintype.Basic

/-!
# The customer and clerk threads

`Customer_entry` and `clerk_entry` as steps on the shared variables. A thread's
location says which statement it is about to execute; a critical section is one
step up to the point where other threads can see its effects, and is split at
`pthread_cond_wait`, which releases the mutex and blocks. The clerks read the queue
sizes without the queue mutexes, and `Customer_entry` stores to `queue_status`
after it has released the mutex: these are steps of their own.

`pthread_cond_signal` wakes one of the threads blocked on the variable if there is
one and is forgotten otherwise. The steps `wakeCustomer` and `wakeClerk` are
spurious wake-ups.
-/

namespace CSC360.Clerks

open CSC360.Base Function

inductive Class
  | economy
  | business
  deriving DecidableEq

instance : Fintype Class := ⟨{.economy, .business}, fun q => by cases q <;> decide⟩

/-- The C struct `Customer`, without the two durations: a thread may sleep for any time. -/
structure Customer where
  id : Int
  classType : Int

/-- The queue that `class = p_myInfo->class_type` selects in `Customer_entry`. -/
def Customer.currQueue (c : Customer) : Option Class :=
  if c.classType = 1 then some .business else if c.classType = 0 then some .economy else none

/-- Where a customer thread is. -/
inductive CustomerLoc
  /-- before it locks the mutex of its queue -/
  | arriving
  /-- in the queue, before it signals its arrival; holds the mutex -/
  | enqueued
  /-- before the `pthread_cond_wait` of the loop; holds the mutex -/
  | signalled
  /-- blocked in `pthread_cond_wait` -/
  | waiting
  /-- woken, not yet in possession of the mutex -/
  | woken
  /-- out of the loop with this `curr_clerk`, the mutex released -/
  | admitted (currClerk : Int)
  /-- being served -/
  | serving (currClerk : Int)
  | done
  /-- has followed a null pointer -/
  | crashed
  deriving DecidableEq

/-- Where a clerk thread is. -/
inductive ClerkLoc
  /-- before it locks `request_queue_mutex` -/
  | idle
  /-- before `businessQueue->size == 0` of the wait loop; holds the mutex -/
  | testingBusiness
  /-- before `economyQueue->size == 0` of the wait loop; holds the mutex -/
  | testingEconomy
  /-- has found both queues empty; holds the mutex -/
  | blocking
  /-- blocked on `request_queue_convar` -/
  | blockedRequest
  /-- woken, not yet in possession of the mutex -/
  | wokenRequest
  /-- before `if(businessQueue->size!=0)` -/
  | choosingBusiness
  /-- before `else if(economyQueue->size!=0)` -/
  | choosingEconomy
  /-- before it locks the mutex of the queue -/
  | selecting (q : Class)
  /-- has selected, before it waits for the customer -/
  | selected (q : Class)
  /-- blocked on its own condition variable -/
  | blockedOwn (q : Class)
  /-- woken from its own condition variable -/
  | wokenOwn
  deriving DecidableEq

/-- The shared variables of one queue. -/
structure QueueVars (n : Nat) where
  queue : Queue
  /-- `queue_length[q]` -/
  length : Int
  /-- `queue_status[q]` -/
  status : Int
  /-- `winner_selected[q]` -/
  winner : Bool
  /-- the customer that holds the queue's mutex; a clerk's critical section is one step -/
  mutex : Option (Fin n)
  /-- `businessQueue_time`, `economyQueue_time` -/
  time : Rat
  /-- `numBusinessCustomers`, `numEconomyCustomers` -/
  served : Nat

structure State (n : Nat) where
  customer : Fin n → CustomerLoc
  /-- the customers' `businessQueue_time_init`, `economyQueue_time_init` -/
  timeInit : Fin n → Rat
  clerk : Fin 5 → ClerkLoc
  vars : Class → QueueVars n
  /-- the nodes; a node points to a customer of `customerArray` -/
  heap : Heap (Fin n)
  requestMutex : Option (Fin 5)

variable {n : Nat}

def start (n : Nat) : State n where
  customer _ := .arriving
  timeInit _ := 0
  clerk _ := .idle
  vars _ := ⟨createQueue, 0, 0, false, none, 0, 0⟩
  heap := Heap.empty
  requestMutex := none

/-- The ids of `createClerkArray`: 1 to 5. -/
def clerkId (k : Fin 5) : Int := k.val + 1

/-- The clerk whose condition variable `Customer_entry` signals at the end. -/
def clerkOf (currClerk : Int) : Fin 5 :=
  if currClerk = 1 then 0
  else if currClerk = 2 then 1
  else if currClerk = 3 then 2
  else if currClerk = 4 then 3
  else 4

theorem clerkOf_clerkId (k : Fin 5) : clerkOf (clerkId k) = k := by revert k; decide

theorem clerkId_injective : Injective clerkId := fun k k' same => by
  rw [← clerkOf_clerkId k, same, clerkOf_clerkId]

/-- The status 0 names no clerk. -/
theorem clerkId_ne_zero (k : Fin 5) : clerkId k ≠ 0 := by revert k; decide

inductive Action (n : Nat)
  | enqueue (i : Fin n) (q : Class) (reading : Rat)
  /-- `woken` is the clerk that the signal wakes -/
  | signalArrival (i : Fin n) (woken : Option (Fin 5))
  | wait (i : Fin n) (q : Class)
  | leave (i : Fin n) (q : Class) (reading : Rat)
  | rewait (i : Fin n) (q : Class)
  | fault (i : Fin n) (q : Class)
  /-- a customer of neither class, with whatever its `curr_clerk` holds -/
  | skip (i : Fin n) (unset : Int)
  | startService (i : Fin n) (q : Class) (currClerk : Int)
  | finish (i : Fin n) (currClerk : Int)
  | wakeCustomer (i : Fin n)
  /-- a step of the clerk other than its selection -/
  | clerk (k : Fin 5)
  | select (k : Fin 5) (q : Class)
  | wakeClerk (k : Fin 5)

/-- Where the clerk's next step leads and who holds `request_queue_mutex` then; `none`
when the clerk is blocked or about to select. -/
def clerkNext (s : State n) (k : Fin 5) : Option (ClerkLoc × Option (Fin 5)) :=
  match s.clerk k with
  | .idle => if s.requestMutex = none then some (.testingBusiness, some k) else none
  | .testingBusiness =>
    if (s.vars .business).queue.size = 0 then some (.testingEconomy, s.requestMutex)
    else some (.choosingBusiness, none)
  | .testingEconomy =>
    if (s.vars .economy).queue.size = 0 then some (.blocking, s.requestMutex)
    else some (.choosingBusiness, none)
  | .blocking => some (.blockedRequest, none)
  | .wokenRequest => if s.requestMutex = none then some (.testingBusiness, some k) else none
  | .choosingBusiness =>
    if (s.vars .business).queue.size ≠ 0 then some (.selecting .business, s.requestMutex)
    else some (.choosingEconomy, s.requestMutex)
  | .choosingEconomy =>
    if (s.vars .economy).queue.size ≠ 0 then some (.selecting .economy, s.requestMutex)
    else some (.idle, s.requestMutex)
  | .selected q => some (.blockedOwn q, s.requestMutex)
  | .wokenOwn => some (.idle, s.requestMutex)
  | .blockedRequest | .selecting _ | .blockedOwn _ => none

/-- The waiting customers of the queue are woken. -/
def broadcast (cust : Fin n → Customer) (q : Class) (customer : Fin n → CustomerLoc) (i : Fin n) : CustomerLoc :=
  if customer i = .waiting ∧ (cust i).currQueue = some q then .woken else customer i

/-- `pthread_cond_signal` on the clerk's own variable: lost unless the clerk is blocked on it. -/
def ClerkLoc.release : ClerkLoc → ClerkLoc
  | .blockedOwn _ => .wokenOwn
  | loc => loc

section Steps

variable (cust : Fin n → Customer) (s : State n)

/-- `none` when the head of the queue is null. -/
def checkHead (i : Fin n) (q : Class) : Option Bool := do
  let head ← (s.vars q).queue.headCustomer s.heap
  return (cust i).id = (cust head).id

/-- What the thread of the action can do in the state. -/
def Enabled : Action n → Prop
  | .enqueue i q _ =>
    (cust i).currQueue = some q ∧ s.customer i = .arriving ∧ (s.vars q).mutex = none
  | .signalArrival i (some k) => s.customer i = .enqueued ∧ s.clerk k = .blockedRequest
  | .signalArrival i none => s.customer i = .enqueued ∧ ∀ k, s.clerk k ≠ .blockedRequest
  | .wait i q => (cust i).currQueue = some q ∧ s.customer i = .signalled
  | .leave i q _ =>
    (cust i).currQueue = some q ∧ s.customer i = .woken ∧ (s.vars q).mutex = none ∧
      checkHead cust s i q = some true ∧ (s.vars q).winner = false
  | .rewait i q =>
    (cust i).currQueue = some q ∧ s.customer i = .woken ∧ (s.vars q).mutex = none ∧
      (checkHead cust s i q = some false ∨ checkHead cust s i q = some true ∧ (s.vars q).winner = true)
  | .fault i q =>
    (cust i).currQueue = some q ∧ s.customer i = .woken ∧ (s.vars q).mutex = none ∧
      checkHead cust s i q = none
  | .skip i _ => (cust i).currQueue = none ∧ s.customer i = .arriving
  | .startService i q currClerk => (cust i).currQueue = some q ∧ s.customer i = .admitted currClerk
  | .finish i currClerk => s.customer i = .serving currClerk
  | .wakeCustomer i => s.customer i = .waiting
  | .clerk k => (clerkNext s k).isSome
  | .select k q => s.clerk k = .selecting q ∧ (s.vars q).mutex = none
  | .wakeClerk k => s.clerk k = .blockedRequest ∨ ∃ q, s.clerk k = .blockedOwn q

instance : DecidablePred (Enabled cust s)
  | .enqueue _ _ _ | .wait _ _ | .startService _ _ _ => inferInstanceAs (Decidable (_ ∧ _))
  | .signalArrival _ (some _) | .signalArrival _ none | .skip _ _ | .select _ _ => inferInstanceAs (Decidable (_ ∧ _))
  | .leave _ _ _ | .rewait _ _ | .fault _ _ => inferInstanceAs (Decidable (_ ∧ _))
  | .finish _ _ | .wakeCustomer _ | .clerk _ => inferInstanceAs (Decidable (_ = _))
  | .wakeClerk _ => inferInstanceAs (Decidable (_ ∨ _))

/-- The state after the step. -/
def next : Action n → State n
  | .enqueue i q reading =>
    let node := createNode s.heap i
    match queueEnqueue node.1 (s.vars q).queue node.2 with
    | none => { s with customer := update s.customer i .crashed }
    | some (heap, queue) =>
      { s with
        customer := update s.customer i .enqueued
        timeInit := update s.timeInit i reading
        vars := update s.vars q
          { s.vars q with queue, length := (s.vars q).length + 1, mutex := some i }
        heap }
  | .signalArrival i woken =>
    { s with
      customer := update s.customer i .signalled
      clerk := match woken with
        | some k => update s.clerk k .wokenRequest
        | none => s.clerk }
  | .wait i q =>
    { s with
      customer := update s.customer i .waiting
      vars := update s.vars q { s.vars q with mutex := none } }
  | .leave i q reading =>
    match queueDequeue s.heap (s.vars q).queue with
    | none => { s with customer := update s.customer i .crashed }
    | some queue =>
      { s with
        customer := update s.customer i (.admitted (s.vars q).status)
        vars := update s.vars q
          { s.vars q with
            queue
            time := (s.vars q).time + (reading - s.timeInit i)
            served := (s.vars q).served + 1
            length := (s.vars q).length - 1
            winner := true } }
  | .rewait i _ => { s with customer := update s.customer i .waiting }
  | .fault i _ => { s with customer := update s.customer i .crashed }
  | .skip i unset => { s with customer := update s.customer i (.serving unset) }
  | .startService i q currClerk =>
    { s with
      customer := update s.customer i (.serving currClerk)
      -- only the business branch clears the status, with no mutex held
      vars := match q with
        | .business => update s.vars .business { s.vars .business with status := 0 }
        | .economy => s.vars }
  | .finish i currClerk =>
    { s with
      customer := update s.customer i .done
      clerk := update s.clerk (clerkOf currClerk) (s.clerk (clerkOf currClerk)).release }
  | .wakeCustomer i => { s with customer := update s.customer i .woken }
  | .clerk k =>
    match clerkNext s k with
    | none => s
    | some (loc, requestMutex) => { s with clerk := update s.clerk k loc, requestMutex }
  | .select k q =>
    { s with
      customer := broadcast cust q s.customer
      clerk := update s.clerk k (.selected q)
      vars := update s.vars q { s.vars q with status := clerkId k, winner := false } }
  | .wakeClerk k =>
    { s with
      clerk := update s.clerk k (match s.clerk k with
        | .blockedOwn _ => .wokenOwn
        | _ => .wokenRequest) }

end Steps

/-- What a local step of clerk `k` can do: where from, where to, and who holds the
request mutex then. -/
inductive ClerkMove (s : State n) (k : Fin 5) : ClerkLoc → ClerkLoc → Option (Fin 5) → Prop
  | lock (free : s.requestMutex = none) : ClerkMove s k .idle .testingBusiness (some k)
  | relock (free : s.requestMutex = none) : ClerkMove s k .wokenRequest .testingBusiness (some k)
  | noBusiness (empty : (s.vars .business).queue.size = 0) :
      ClerkMove s k .testingBusiness .testingEconomy s.requestMutex
  | someBusiness : ClerkMove s k .testingBusiness .choosingBusiness none
  | noEconomy (empty : (s.vars .economy).queue.size = 0) : ClerkMove s k .testingEconomy .blocking s.requestMutex
  | someEconomy : ClerkMove s k .testingEconomy .choosingBusiness none
  | block : ClerkMove s k .blocking .blockedRequest none
  | pickBusiness : ClerkMove s k .choosingBusiness (.selecting .business) s.requestMutex
  | skipBusiness : ClerkMove s k .choosingBusiness .choosingEconomy s.requestMutex
  | pickEconomy : ClerkMove s k .choosingEconomy (.selecting .economy) s.requestMutex
  | skipEconomy : ClerkMove s k .choosingEconomy .idle s.requestMutex
  | await (q : Class) : ClerkMove s k (.selected q) (.blockedOwn q) s.requestMutex
  | again : ClerkMove s k .wokenOwn .idle s.requestMutex

theorem clerkNext_move {s : State n} {k : Fin 5} {loc : ClerkLoc} {requestMutex : Option (Fin 5)}
    (moved : clerkNext s k = some (loc, requestMutex)) : ClerkMove s k (s.clerk k) loc requestMutex := by
  unfold clerkNext at moved
  -- one constructor for each branch of the code
  cases found : s.clerk k <;> rw [found] at moved <;> dsimp only at moved
  all_goals (try split at moved) <;> cases moved
  all_goals constructor <;> assumption

/-- A local step of a clerk moves that clerk and the request mutex only. -/
theorem clerk_step {cust : Fin n → Customer} {s : State n} {k : Fin 5} (enabled : Enabled cust s (.clerk k)) :
    ∃ loc requestMutex, ClerkMove s k (s.clerk k) loc requestMutex ∧
      next cust s (.clerk k) = { s with clerk := update s.clerk k loc, requestMutex } := by
  obtain ⟨⟨loc, requestMutex⟩, found⟩ := Option.isSome_iff_exists.1 enabled
  refine ⟨loc, requestMutex, clerkNext_move found, ?_⟩
  simp only [next, found]

/-- Whichever clerk its signal wakes, the customer is in the queue. -/
theorem signalArrival_loc {cust : Fin n → Customer} {s : State n} {i : Fin n} {woken : Option (Fin 5)}
    (enabled : Enabled cust s (.signalArrival i woken)) : s.customer i = .enqueued := by
  cases woken <;> exact enabled.1

/-- The steps that move a clerk. -/
def Action.movesClerk : Action n → Bool
  | .signalArrival _ _ | .finish _ _ | .clerk _ | .select _ _ | .wakeClerk _ => true
  | _ => false

theorem clerk_kept {a : Action n} (cust : Fin n → Customer) (s : State n) (quiet : a.movesClerk = false) :
    (next cust s a).clerk = s.clerk ∧ (next cust s a).requestMutex = s.requestMutex := by
  cases a with
  | enqueue i q reading =>
    simp only [next]
    split <;> exact ⟨rfl, rfl⟩
  | leave i q reading =>
    simp only [next]
    split <;> exact ⟨rfl, rfl⟩
  | _ => first | exact ⟨rfl, rfl⟩ | cases quiet

/-- The runs of the program on the customers, from its start. -/
abbrev Reaches (cust : Fin n → Customer) (as : List (Action n)) (s : State n) : Prop :=
  Run (Enabled cust) (next cust) (start n) as s

end CSC360.Clerks
