import CSC360.Base.Circular
import CSC360.Base.Numerals
import CSC360.Base.Transition

/-!
# The bounded queue of `customerQueue.h`

A ring buffer of `int`s: `head`, `tail` and `size` are `int`s and `capacity` is `unsigned`, so
the comparison in `isFull` and the remainder in `enqueue` and `dequeue` are unsigned. An access
outside the array is `none`. **For every capacity an `int` can hold, zero included, the calls
are those of a bounded first-in first-out list** (`ring_refines_fifo`): they return what the
list returns and never leave the array, whatever `malloc` left in it.
-/

namespace CSC360.Clerks

open CSC360.Base

/-- The conversion of an `int` to `unsigned`. -/
def toUnsigned (value : Int) : Nat := (value % 4294967296).toNat

/-- `INT_MIN` -/
def intMin : Int := -2147483648

/-- The C struct `Queue` of `customerQueue.h`. -/
structure RingQueue where
  head : Int
  tail : Int
  size : Int
  capacity : Nat
  array : List Int
  deriving DecidableEq

namespace RingQueue

/-- `array` is what `malloc` returns. -/
def constructCustomQueue (capacity : Nat) (array : List Int) : RingQueue where
  head := 0
  tail := toInt (toUnsigned ((capacity : Int) - 1))
  size := 0
  capacity := capacity
  array := array

def isFull (queue : RingQueue) : Bool := toUnsigned queue.size = queue.capacity

def isEmpty (queue : RingQueue) : Bool := queue.size = 0

/-- `array[i]` -/
def load (queue : RingQueue) (i : Int) : Option Int := if 0 ≤ i then queue.array[i.toNat]? else none

/-- `array[i] = item` -/
def store (queue : RingQueue) (i item : Int) : Option RingQueue :=
  if 0 ≤ i ∧ i.toNat < queue.array.length then some { queue with array := queue.array.set i.toNat item } else none

/-- `(i + 1) % capacity`; a remainder by zero is `none`. -/
def advance (queue : RingQueue) (i : Int) : Option Int :=
  if queue.capacity = 0 then none else some (toInt (toUnsigned (toInt (i + 1)) % queue.capacity : Nat))

def enqueue (queue : RingQueue) (item : Int) : Option (Int × RingQueue) :=
  if queue.isFull then some (intMin, queue)
  else do
    let tail ← queue.advance queue.tail
    let queue ← { queue with tail := tail }.store tail item
    return (1, { queue with size := toInt (queue.size + 1) })

def dequeue (queue : RingQueue) : Option (Int × RingQueue) :=
  if queue.isEmpty then some (intMin, queue)
  else do
    let item ← queue.load queue.head
    let head ← queue.advance queue.head
    return (item, { queue with head := head, size := toInt (queue.size - 1) })

def getHead (queue : RingQueue) : Option Int :=
  if queue.isEmpty then some intMin else queue.load queue.head

def getTail (queue : RingQueue) : Option Int :=
  if queue.isEmpty then some intMin else queue.load queue.tail

end RingQueue

/-- The calls of the routines. -/
inductive RingCall
  | enqueue (item : Int)
  | dequeue
  | getHead
  | getTail
  | isFull
  | isEmpty

/-- What a call returns and leaves; the last component collects what the calls have returned. -/
def RingCall.perform (st : RingQueue × List Int) : RingCall → Option (RingQueue × List Int)
  | .enqueue item => (st.1.enqueue item).map fun (ret, queue) => (queue, st.2 ++ [ret])
  | .dequeue => st.1.dequeue.map fun (ret, queue) => (queue, st.2 ++ [ret])
  | .getHead => st.1.getHead.map fun ret => (st.1, st.2 ++ [ret])
  | .getTail => st.1.getTail.map fun ret => (st.1, st.2 ++ [ret])
  | .isFull => some (st.1, st.2 ++ [st.1.isFull.toInt])
  | .isEmpty => some (st.1, st.2 ++ [st.1.isEmpty.toInt])

/-- What it is for: a list of at most `capacity` items, first in first out. -/
def RingCall.fifo (capacity : Nat) (st : List Int × List Int) : RingCall → List Int × List Int
  | .enqueue item => if st.1.length < capacity then (st.1 ++ [item], st.2 ++ [1]) else (st.1, st.2 ++ [intMin])
  | .dequeue => (st.1.tail, st.2 ++ [st.1.head?.getD intMin])
  | .getHead => (st.1, st.2 ++ [st.1.head?.getD intMin])
  | .getTail => (st.1, st.2 ++ [st.1.getLast?.getD intMin])
  | .isFull => (st.1, st.2 ++ [(decide (st.1.length = capacity)).toInt])
  | .isEmpty => (st.1, st.2 ++ [st.1.isEmpty.toInt])

/-- The items of the queue are the cells of the circle from `head` on. -/
structure HoldsItems (queue : RingQueue) (capacity : Nat) (items : List Int) : Prop where
  bound : queue.capacity = capacity
  cells : queue.array.length = capacity
  size : queue.size = items.length
  fits : items.length ≤ capacity
  /-- an array without cells has no indices -/
  circle : 0 < capacity → ∃ start < capacity, queue.head = start ∧
    queue.tail = ((start + items.length + (capacity - 1)) % capacity : Nat) ∧
    items = circular queue.array start items.length

section Refinement

variable {queue : RingQueue} {capacity : Nat} {items : List Int}

theorem toUnsigned_natCast {n : Nat} (small : n < 4294967296) : toUnsigned n = n := by
  unfold toUnsigned
  omega

theorem toInt_natCast {n : Nat} (small : n < 2147483648) : toInt n = n := toInt_eq (by omega) (by omega)

theorem HoldsItems.construct {array : List Int} (length : array.length = capacity) (small : capacity < 2147483648) :
    HoldsItems (.constructCustomQueue capacity array) capacity [] where
  bound := rfl
  cells := length
  size := rfl
  fits := Nat.zero_le _
  circle positive := by
    refine ⟨0, positive, rfl, ?_, circular_zero.symm⟩
    have last : ((capacity : Int) - 1) = (capacity - 1 : Nat) := by omega
    rw [RingQueue.constructCustomQueue, last, toUnsigned_natCast (by omega), toInt_natCast (by omega)]
    simp only [List.length_nil, Nat.zero_add]
    rw [Nat.mod_eq_of_lt (by omega)]

theorem HoldsItems.isFull (holds : HoldsItems queue capacity items) (small : capacity < 2147483648) :
    queue.isFull = true ↔ items.length = capacity := by
  have fits := holds.fits
  rw [RingQueue.isFull, holds.size, holds.bound, toUnsigned_natCast (by omega), decide_eq_true_eq]

theorem HoldsItems.isEmpty (holds : HoldsItems queue capacity items) : queue.isEmpty = true ↔ items = [] := by
  rw [RingQueue.isEmpty, holds.size, decide_eq_true_eq, Int.natCast_eq_zero, List.length_eq_zero_iff]

/-- The index behind an index of the array. -/
theorem advance_natCast (same : queue.capacity = capacity) (small : capacity < 2147483648) {i : Nat}
    (inside : i < capacity) :
    queue.advance i = some (((i + 1) % capacity : Nat) : Int) := by
  have next : ((i : Int) + 1) = (i + 1 : Nat) := by omega
  have wrapped : (i + 1) % capacity < capacity := Nat.mod_lt _ (by omega)
  have positive : capacity ≠ 0 := by omega
  have inner : toInt (i + 1 : Nat) = (i + 1 : Nat) := toInt_natCast (by omega)
  have result : toInt ((i + 1) % capacity : Nat) = ((i + 1) % capacity : Nat) := toInt_natCast (by omega)
  rw [RingQueue.advance, same, if_neg positive, next, inner, toUnsigned_natCast (by omega), result]

theorem load_natCast {i : Nat} : queue.load i = queue.array[i]? := by
  rw [RingQueue.load, if_pos (Int.natCast_nonneg i), Int.toNat_natCast]

/-- There is room: the item goes behind the others. -/
theorem HoldsItems.enqueue (holds : HoldsItems queue capacity items) (small : capacity < 2147483648)
    (room : items.length < capacity) (item : Int) :
    ∃ queue', queue.enqueue item = some (1, queue') ∧ HoldsItems queue' capacity (items ++ [item]) := by
  obtain ⟨start, inside, head, tail, contents⟩ := holds.circle (by omega)
  have wrapped : (start + items.length + (capacity - 1)) % capacity < capacity := Nat.mod_lt _ (by omega)
  have next : ((start + items.length + (capacity - 1)) % capacity + 1) % capacity =
      (items.length + start) % capacity := by
    rw [Nat.mod_add_mod, show start + items.length + (capacity - 1) + 1 = items.length + start + capacity by omega,
      Nat.add_mod_right]
  have place : (items.length + start) % capacity < capacity := Nat.mod_lt _ (by omega)
  have notFull : queue.isFull = false := Bool.eq_false_iff.2 fun full => by
    have := (holds.isFull small).1 full
    omega
  have advanced := advance_natCast holds.bound small wrapped
  rw [next, ← tail] at advanced
  refine ⟨{ queue with
    tail := ((items.length + start) % capacity : Nat)
    array := queue.array.set ((items.length + start) % capacity) item
    size := items.length + 1 }, ?_, ?_⟩
  · simp only [RingQueue.enqueue, notFull, Bool.false_eq_true, if_false, advanced, RingQueue.store, holds.cells,
      Int.natCast_nonneg, Int.toNat_natCast, place, and_self, if_true, Option.bind_eq_bind, Option.bind_some,
      Option.pure_def, holds.size]
    rw [toInt_eq (by omega) (by omega)]
  · refine ⟨holds.bound, ?_, ?_, ?_, fun _ => ⟨start, inside, head, ?_, ?_⟩⟩
    · rw [List.length_set, holds.cells]
    · rw [List.length_append, List.length_singleton]
      rfl
    · rw [List.length_append, List.length_singleton]
      exact room
    · rw [List.length_append, List.length_singleton]
      rw [show start + (items.length + 1) + (capacity - 1) = items.length + start + capacity by omega,
        Nat.add_mod_right]
    · have pushed := circular_push start item (by rwa [holds.cells] : items.length < queue.array.length)
      rw [holds.cells, ← contents] at pushed
      rw [List.length_append, List.length_singleton, pushed]

/-- There is an item: the first one is taken. -/
theorem HoldsItems.dequeue {item : Int} (holds : HoldsItems queue capacity (item :: items))
    (small : capacity < 2147483648) :
    ∃ queue', queue.dequeue = some (item, queue') ∧ HoldsItems queue' capacity items := by
  have fits := holds.fits
  rw [List.length_cons] at fits
  obtain ⟨start, inside, head, tail, contents⟩ := holds.circle (by omega)
  obtain ⟨first, found, rest⟩ := circular_pop (Nat.succ_pos items.length) (by rwa [holds.cells]) (by rwa [holds.cells])
  rw [List.length_cons] at contents
  rw [← contents, holds.cells, Nat.succ_sub_one] at rest
  obtain ⟨rfl, behind⟩ := List.cons.inj rest
  have wrapped : (start + 1) % capacity < capacity := Nat.mod_lt _ (by omega)
  have notEmpty : queue.isEmpty = false := Bool.eq_false_iff.2 fun empty => by cases holds.isEmpty.1 empty
  have advanced := advance_natCast holds.bound small inside
  rw [← head] at advanced
  have loaded : queue.load queue.head = some item := by rw [head, load_natCast, found]
  refine ⟨{ queue with head := ((start + 1) % capacity : Nat), size := items.length }, ?_, ?_⟩
  · have smaller : toInt (queue.size - 1) = items.length := by
      rw [holds.size, List.length_cons, toInt_eq (by omega) (by omega)]
      omega
    simp only [RingQueue.dequeue, notEmpty, Bool.false_eq_true, if_false, loaded, advanced, Option.bind_eq_bind,
      Option.bind_some, Option.pure_def, smaller]
  · refine ⟨holds.bound, holds.cells, rfl, by show items.length ≤ capacity; omega,
      fun _ => ⟨_, wrapped, rfl, ?_, behind⟩⟩
    have same : ((start + 1) % capacity + items.length + (capacity - 1)) % capacity =
        (start + (items.length + 1) + (capacity - 1)) % capacity := by
      rw [Nat.add_assoc, Nat.mod_add_mod]
      congr 1
      omega
    show queue.tail = _
    rw [tail, List.length_cons, same]

theorem HoldsItems.getHead (holds : HoldsItems queue capacity items) :
    queue.getHead = some (items.head?.getD intMin) := by
  cases items with
  | nil => rw [RingQueue.getHead, if_pos (holds.isEmpty.2 rfl)]; rfl
  | cons item items =>
    have fits := holds.fits
    rw [List.length_cons] at fits
    obtain ⟨start, inside, head, -, contents⟩ := holds.circle (by omega)
    obtain ⟨first, found, rest⟩ :=
      circular_pop (Nat.succ_pos items.length) (by rwa [holds.cells]) (by rwa [holds.cells])
    rw [List.length_cons] at contents
    rw [← contents] at rest
    obtain ⟨rfl, -⟩ := List.cons.inj rest
    have notEmpty : ¬ queue.isEmpty = true := fun empty => by cases holds.isEmpty.1 empty
    rw [RingQueue.getHead, if_neg notEmpty, head, load_natCast, found]
    rfl

theorem HoldsItems.getTail (holds : HoldsItems queue capacity items) :
    queue.getTail = some (items.getLast?.getD intMin) := by
  cases items with
  | nil => rw [RingQueue.getTail, if_pos (holds.isEmpty.2 rfl)]; rfl
  | cons item items =>
    have fits := holds.fits
    rw [List.length_cons] at fits
    obtain ⟨start, inside, -, tail, contents⟩ := holds.circle (by omega)
    have last := circular_last start (by rw [holds.cells]; omega : items.length < queue.array.length)
    rw [List.length_cons] at contents tail
    rw [← contents, holds.cells] at last
    have place : (start + (items.length + 1) + (capacity - 1)) % capacity = (items.length + start) % capacity := by
      rw [show start + (items.length + 1) + (capacity - 1) = items.length + start + capacity by omega,
        Nat.add_mod_right]
    have notEmpty : ¬ queue.isEmpty = true := fun empty => by cases holds.isEmpty.1 empty
    rw [RingQueue.getTail, if_neg notEmpty, tail, place, load_natCast, ← last, List.getLast?_cons]
    rfl

/-- The ring holds the items of the list, and both have returned the same. -/
def RingRefines (capacity : Nat) (st : RingQueue × List Int) (t : List Int × List Int) : Prop :=
  HoldsItems st.1 capacity t.1 ∧ st.2 = t.2

/-- A call on the ring is the call on the list. -/
theorem RingCall.step (small : capacity < 2147483648) (st : RingQueue × List Int) (t : List Int × List Int)
    (call : RingCall) (related : RingRefines capacity st t) :
    ∃ st', call.perform st = some st' ∧ RingRefines capacity st' (call.fifo capacity t) := by
  obtain ⟨queue, returned⟩ := st
  obtain ⟨items, _⟩ := t
  obtain ⟨holds, rfl⟩ : HoldsItems queue capacity items ∧ returned = _ := related
  cases call with
  | enqueue item =>
    by_cases room : items.length < capacity
    · obtain ⟨queue', done, holds'⟩ := holds.enqueue small room item
      refine ⟨(queue', returned ++ [1]), ?_, ?_⟩
      · rw [RingCall.perform, done, Option.map_some]
      · rw [RingCall.fifo, if_pos room]
        exact ⟨holds', rfl⟩
    · have full : queue.isFull = true := (holds.isFull small).2 (Nat.le_antisymm holds.fits (Nat.le_of_not_lt room))
      refine ⟨(queue, returned ++ [intMin]), ?_, ?_⟩
      · rw [RingCall.perform, RingQueue.enqueue, if_pos full, Option.map_some]
      · rw [RingCall.fifo, if_neg room]
        exact ⟨holds, rfl⟩
  | dequeue =>
    cases items with
    | nil =>
      refine ⟨(queue, returned ++ [intMin]), ?_, holds, rfl⟩
      rw [RingCall.perform, RingQueue.dequeue, if_pos (holds.isEmpty.2 rfl), Option.map_some]
    | cons item items =>
      obtain ⟨queue', done, holds'⟩ := holds.dequeue small
      refine ⟨(queue', returned ++ [item]), ?_, holds', rfl⟩
      rw [RingCall.perform, done, Option.map_some]
  | getHead =>
    refine ⟨(queue, _), ?_, holds, rfl⟩
    rw [RingCall.perform, holds.getHead, Option.map_some]
    rfl
  | getTail =>
    refine ⟨(queue, _), ?_, holds, rfl⟩
    rw [RingCall.perform, holds.getTail, Option.map_some]
    rfl
  | isFull =>
    have same : queue.isFull = decide (items.length = capacity) :=
      Bool.eq_iff_iff.2 (by rw [holds.isFull small, decide_eq_true_eq])
    refine ⟨(queue, _), ?_, holds, rfl⟩
    rw [RingCall.perform, same]
    rfl
  | isEmpty =>
    have same : queue.isEmpty = items.isEmpty := Bool.eq_iff_iff.2 (by rw [holds.isEmpty, List.isEmpty_iff])
    refine ⟨(queue, _), ?_, holds, rfl⟩
    rw [RingCall.perform, same]
    rfl

end Refinement

/-- **The ring is a bounded list, first in first out.** -/
theorem ring_refines_fifo {capacity : Nat} (small : capacity < 2147483648) {array : List Int}
    (length : array.length = capacity) (calls : List RingCall) :
    ∃ queue, calls.foldlM RingCall.perform (.constructCustomQueue capacity array, []) =
        some (queue, (calls.foldl (RingCall.fifo capacity) ([], [])).2) ∧
      HoldsItems queue capacity (calls.foldl (RingCall.fifo capacity) ([], [])).1 := by
  have start : RingRefines capacity (.constructCustomQueue capacity array, []) ([], []) :=
    ⟨.construct length small, rfl⟩
  obtain ⟨⟨queue, _⟩, done, holds, rfl⟩ := foldlM_simulates (fun _ => True)
    (fun st t call related _ => RingCall.step small st t call related) start fun _ _ => trivial
  exact ⟨queue, done, holds⟩

/-- The third item does not fit; the fourth one goes around the end. -/
def fourItems : List RingCall := [.enqueue 4, .enqueue 5, .enqueue 6, .dequeue, .enqueue 7, .isFull, .getTail]

theorem ring_refines_fifo_four :
    ∃ queue, fourItems.foldlM RingCall.perform (.constructCustomQueue 2 [0, 0], []) =
        some (queue, (fourItems.foldl (RingCall.fifo 2) ([], [])).2) ∧
      HoldsItems queue 2 (fourItems.foldl (RingCall.fifo 2) ([], [])).1 :=
  have length : ([0, 0] : List Int).length = 2 := rfl
  ring_refines_fifo (by decide) length fourItems

example : (fourItems.foldl (RingCall.fifo 2) ([], [])) = ([5, 7], [1, 1, intMin, 4, 1, 1, 7]) := by decide

end CSC360.Clerks
