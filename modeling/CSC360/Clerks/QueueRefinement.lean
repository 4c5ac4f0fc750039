import CSC360.Base.Numerals
import CSC360.Base.Transition
import CSC360.Clerks.Queue

/-!
# The linked queue as a list

`Queue_Enqueue` and `Queue_Dequeue` once more, with the counter that the code has, an
`int`. Below 2 ^ 31 nodes the counter does not wrap and the routines are those of
`Queue` (`queueEnqueue_ofQueue`, `queueDequeue_ofQueue`), which do on the list of the
nodes what their names say (`Holds`). **So the queue is a list, first come first served, as long
as it never has 2 ^ 31 nodes** (`queue_refines_list`). Of more nodes the counter is wrong
(`counter_wraps`).
-/

namespace CSC360.Clerks

open CSC360.Base

variable {β : Type}

/-- The C struct `Queue` with its counter. -/
structure IntQueue where
  head : Option Nat
  tail : Option Nat
  size : Int
  deriving DecidableEq

namespace IntQueue

def createQueue : IntQueue := ⟨none, none, 0⟩

def queueEnqueue (h : Heap β) (queue : IntQueue) (node : Nat) : Option (Heap β × IntQueue) :=
  if queue.size = 0 then some (h, ⟨some node, some node, toInt (queue.size + 1)⟩)
  else do
    let tail ← queue.tail
    let h ← h.setNext tail (some node)
    return (h, { queue with tail := some node, size := toInt (queue.size + 1) })

def queueDequeue (h : Heap β) (queue : IntQueue) : Option IntQueue :=
  if queue.size = 0 then some queue
  else if queue.size = 1 then some ⟨none, none, toInt (queue.size - 1)⟩
  else do
    let head ← queue.head
    let node ← h.cell head
    return { queue with head := node.next, size := toInt (queue.size - 1) }

end IntQueue

/-- The calls of the two routines; the node to enqueue is a new one with the customer. -/
inductive QueueCall (β : Type)
  | enqueue (customer : β)
  | dequeue

/-- What a call does on the heap. -/
def QueueCall.perform (st : Heap β × IntQueue) : QueueCall β → Option (Heap β × IntQueue)
  | .enqueue customer =>
    let (h, node) := createNode st.1 customer
    IntQueue.queueEnqueue h st.2 node
  | .dequeue => do
    let queue ← IntQueue.queueDequeue st.1 st.2
    return (st.1, queue)

/-- What it is for: a list, first come first served. -/
def QueueCall.fifo (customers : List β) : QueueCall β → List β
  | .enqueue customer => customers ++ [customer]
  | .dequeue => customers.tail

/-- The chain from `head` has the customers, and the counter and both pointers are in step with it. -/
structure Mirrors (h : Heap β) (queue : IntQueue) (customers : List β) : Prop where
  chain : ∃ l, Seg h queue.head l none ∧ (l.map Prod.fst).Nodup ∧ l.map Prod.snd = customers ∧
    queue.size = l.length ∧
    (queue.size ≠ 0 → ∃ before a v, l = before ++ [(a, v)] ∧ queue.tail = some a ∧ h.cell a = some ⟨v, none⟩)
  null : queue.head = none ∧ queue.tail = none ↔ queue.size = 0

/-! ## The counter -/

section Counter

variable {h : Heap β} {queue : Queue} {node : Nat}

/-- The queue with its counter as an `int`. -/
def IntQueue.ofQueue (queue : Queue) : IntQueue := ⟨queue.head, queue.tail, queue.size⟩

theorem queueEnqueue_ofQueue (room : queue.size + 1 < 2 ^ 31) :
    IntQueue.queueEnqueue h (.ofQueue queue) node =
      (queueEnqueue h queue node).map fun r => (r.1, .ofQueue r.2) := by
  have counted : toInt ((queue.size : Int) + 1) = ((queue.size + 1 : Nat) : Int) := by
    rw [toInt_eq (by omega) (by omega)]
    omega
  unfold IntQueue.queueEnqueue queueEnqueue IntQueue.ofQueue
  simp only [Int.natCast_eq_zero, counted]
  split
  · rfl
  · cases queue.tail with
    | none => rfl
    | some tail =>
      simp only [Option.bind_eq_bind, Option.bind_some]
      cases h.setNext tail (some node) <;> rfl

theorem queueDequeue_ofQueue (small : queue.size < 2 ^ 31) :
    IntQueue.queueDequeue h (.ofQueue queue) = (queueDequeue h queue).map .ofQueue := by
  have counted : queue.size ≠ 0 → toInt ((queue.size : Int) - 1) = ((queue.size - 1 : Nat) : Int) := by
    intro some
    rw [toInt_eq (by omega) (by omega)]
    omega
  have one : (queue.size : Int) = 1 ↔ queue.size = 1 := by omega
  unfold IntQueue.queueDequeue queueDequeue IntQueue.ofQueue
  simp only [Int.natCast_eq_zero, one]
  split
  · rfl
  rename_i some
  rw [counted some]
  split
  · rfl
  · cases queue.head with
    | none => rfl
    | some head =>
      simp only [Option.bind_eq_bind, Option.bind_some]
      cases h.cell head <;> rfl

/-- The counter is an `int` all the time. -/
theorem size_bounds {h h' : Heap β} {queue : IntQueue} {calls : List (QueueCall β)}
    (run : calls.foldlM QueueCall.perform (h, IntQueue.createQueue) = some (h', queue)) : queue.size < 2 ^ 31 := by
  have zero : (0 : Int) < 2 ^ 31 := by decide
  refine foldlM_keeps (I := fun st => st.2.size < 2 ^ 31) (fun st call st' kept performed => ?_) zero run
  cases call with
  | enqueue customer =>
    simp only [QueueCall.perform, IntQueue.queueEnqueue] at performed
    split at performed
    · obtain rfl := Option.some.inj performed
      exact (toInt_bounds _).2
    · obtain ⟨tail, -, performed⟩ := Option.bind_eq_some_iff.1 performed
      obtain ⟨h, -, performed⟩ := Option.bind_eq_some_iff.1 performed
      obtain rfl := Option.some.inj performed
      exact (toInt_bounds _).2
  | dequeue =>
    obtain ⟨queue, dequeued, performed⟩ := Option.bind_eq_some_iff.1 performed
    obtain rfl := Option.some.inj performed
    unfold IntQueue.queueDequeue at dequeued
    split at dequeued
    · obtain rfl := Option.some.inj dequeued
      exact kept
    split at dequeued
    · obtain rfl := Option.some.inj dequeued
      exact (toInt_bounds _).2
    · obtain ⟨head, -, dequeued⟩ := Option.bind_eq_some_iff.1 dequeued
      obtain ⟨node, -, dequeued⟩ := Option.bind_eq_some_iff.1 dequeued
      obtain rfl := Option.some.inj dequeued
      exact (toInt_bounds _).2

end Counter

/-! ## The list -/

section Refinement

variable {h : Heap β} {queue : Queue} {l : List (Nat × β)} {customers : List β}

theorem Holds.mirrors (holds : Holds h queue l) : Mirrors h (.ofQueue queue) (l.map Prod.snd) where
  chain := by
    refine ⟨l, holds.seg, holds.seg.nodup, rfl, congrArg Nat.cast holds.size, fun some => ?_⟩
    have ne : l ≠ [] := fun empty => some (congrArg Nat.cast (holds.size_eq_zero.2 empty))
    obtain ⟨before, ⟨a, v⟩, rfl⟩ := (l.eq_nil_or_concat').resolve_left ne
    refine ⟨before, a, v, rfl, ?_, holds.seg.last⟩
    show queue.tail = _
    rw [holds.tail, List.map_append, List.map_singleton, List.getLast?_concat]
  null := by
    constructor
    · rintro ⟨-, tail⟩
      have none : queue.tail = none := tail
      rw [holds.tail, List.getLast?_eq_none_iff, List.map_eq_nil_iff] at none
      exact congrArg Nat.cast (holds.size_eq_zero.2 none)
    · intro zero
      obtain rfl := holds.size_eq_zero.1 (Int.natCast_eq_zero.1 zero)
      exact ⟨holds.seg, holds.tail⟩

/-- The machine state and the list: in between is the queue with its nodes. -/
def Refines (st : Heap β × IntQueue) (customers : List β) : Prop :=
  ∃ queue l, Holds st.1 queue l ∧ st.2 = .ofQueue queue ∧ l.map Prod.snd = customers ∧ customers.length < 2 ^ 31

/-- A call on the queue is the call on the list. -/
theorem QueueCall.step (st : Heap β × IntQueue) (customers : List β) (call : QueueCall β)
    (refines : Refines st customers) (room : (call.fifo customers).length < 2 ^ 31) :
    ∃ st', call.perform st = some st' ∧ Refines st' (call.fifo customers) := by
  obtain ⟨h, _⟩ := st
  obtain ⟨queue, l, holds, rfl, rfl, small⟩ := refines
  have size := holds.size
  rw [List.length_map] at small
  cases call with
  | enqueue customer =>
    rw [QueueCall.fifo, List.length_append, List.length_map, List.length_singleton] at room
    obtain ⟨h', queue', enqueued, holds', -, -⟩ := holds.enqueue customer
    refine ⟨(h', .ofQueue queue'), ?_, queue', _, holds', rfl, by simp [QueueCall.fifo], ?_⟩
    · simp only [QueueCall.perform, createNode]
      rw [queueEnqueue_ofQueue (by omega), enqueued, Option.map_some]
    · rw [QueueCall.fifo, List.length_append, List.length_map, List.length_singleton]
      exact room
  | dequeue =>
    rw [QueueCall.perform, queueDequeue_ofQueue (by omega)]
    cases l with
    | nil =>
      have empty : queueDequeue h queue = some queue := by rw [queueDequeue, if_pos (holds.size_eq_zero.2 rfl)]
      rw [empty]
      exact ⟨(h, .ofQueue queue), rfl, queue, [], holds, rfl, rfl, room⟩
    | cons c l =>
      obtain ⟨queue', dequeued, holds'⟩ := holds.dequeue
      rw [dequeued]
      exact ⟨(h, .ofQueue queue'), rfl, queue', l, holds', rfl, rfl, room⟩

/-- **The linked queue is a list, first come first served**, under every sequence of calls that
never puts 2 ^ 31 customers in it. -/
theorem queue_refines_list (h : Heap β) {calls : List (QueueCall β)}
    (room : ∀ before, before <+: calls → (before.foldl QueueCall.fifo []).length < 2 ^ 31) :
    ∃ h' queue, calls.foldlM QueueCall.perform (h, IntQueue.createQueue) = some (h', queue) ∧
      Mirrors h' queue (calls.foldl QueueCall.fifo []) := by
  have start : Refines (h, IntQueue.createQueue) [] := ⟨createQueue, [], .create h, rfl, rfl, Nat.two_pow_pos 31⟩
  obtain ⟨⟨h', _⟩, run, queue, l, holds, rfl, same, -⟩ :=
    foldlM_simulates (fun customers : List β => customers.length < 2 ^ 31) QueueCall.step start room
  exact ⟨h', .ofQueue queue, run, same ▸ holds.mirrors⟩

/-- A sequence of calls leaves at most as many customers as there are calls. -/
theorem length_fifo_le (calls : List (QueueCall β)) (customers : List β) :
    (calls.foldl QueueCall.fifo customers).length ≤ customers.length + calls.length := by
  induction calls generalizing customers with
  | nil => exact Nat.le_refl _
  | cons call calls ih =>
    have later := ih (call.fifo customers)
    have first : (call.fifo customers).length ≤ customers.length + 1 := by
      cases call with
      | enqueue customer => rw [QueueCall.fifo, List.length_append, List.length_singleton]
      | dequeue =>
        rw [QueueCall.fifo, List.length_tail]
        omega
    rw [List.foldl_cons, List.length_cons]
    omega

theorem queue_refines_list_four :
    ∃ h' queue,
      [.enqueue 7, .dequeue, .dequeue, .enqueue 8].foldlM QueueCall.perform (Heap.empty, IntQueue.createQueue) =
        some (h', queue) ∧ Mirrors h' queue [8] :=
  queue_refines_list Heap.empty fun before first => by
    have calls := length_fifo_le before []
    have few := first.length_le
    simp only [List.length_cons, List.length_nil] at calls few
    omega

/-- The counter is wrong for a queue with 2 ^ 31 customers. -/
theorem not_mirrors {h h' : Heap β} {queue : IntQueue} {calls : List (QueueCall β)}
    (run : calls.foldlM QueueCall.perform (h, IntQueue.createQueue) = some (h', queue))
    (many : 2 ^ 31 ≤ customers.length) : ¬ Mirrors h' queue customers := by
  rintro ⟨⟨l, -, -, rfl, counted, -⟩, -⟩
  have bound := size_bounds run
  rw [List.length_map] at many
  omega

theorem fifo_replicate (n : Nat) (customer : β) (customers : List β) :
    ((List.replicate n (.enqueue customer)).foldl QueueCall.fifo customers).length = customers.length + n := by
  induction n generalizing customers with
  | zero => rfl
  | succ n ih =>
    rw [List.replicate_succ, List.foldl_cons, ih, QueueCall.fifo, List.length_append, List.length_singleton]
    omega

theorem counter_wraps :
    ¬ ∀ (h : Heap Nat) (calls : List (QueueCall Nat)), ∃ h' queue,
      calls.foldlM QueueCall.perform (h, IntQueue.createQueue) = some (h', queue) ∧
        Mirrors h' queue (calls.foldl QueueCall.fifo []) := by
  intro claim
  obtain ⟨h', queue, run, mirrors⟩ := claim Heap.empty (List.replicate (2 ^ 31) (.enqueue 7))
  refine not_mirrors run ?_ mirrors
  rw [fifo_replicate]
  exact Nat.le_add_left _ _

end Refinement

end CSC360.Clerks
