import CSC360.Base.Chain
import Mathlib.Data.List.GetD

/-!
# The linked queues

`createNode`, `Queue_Enqueue`, `Queue_Dequeue` on a heap of nodes. A routine that
would follow a null pointer returns `none`. `Holds h queue l`: the queue holds the
nodes `l`, with its tail pointer and its size in step; each routine then does on
`l` what its name says, and `checkHead` never meets a null head while `l` is not
empty.
-/

namespace CSC360.Clerks

open CSC360.Base

variable {β : Type}

/-- The C struct `Queue`. -/
structure Queue where
  head : Option Nat
  tail : Option Nat
  size : Nat
  deriving DecidableEq

def createQueue : Queue := ⟨none, none, 0⟩

/-- The new node and the heap that has it; its next pointer is null. -/
def createNode (h : Heap β) (currCustomer : β) : Heap β × Nat := (h.alloc currCustomer, h.bound)

def queueEnqueue (h : Heap β) (queue : Queue) (node : Nat) : Option (Heap β × Queue) :=
  if queue.size = 0 then some (h, ⟨some node, some node, queue.size + 1⟩)
  else do
    let tail ← queue.tail
    let h ← h.setNext tail (some node)
    return (h, { queue with tail := some node, size := queue.size + 1 })

def queueDequeue (h : Heap β) (queue : Queue) : Option Queue :=
  if queue.size = 0 then some queue
  else if queue.size = 1 then some ⟨none, none, queue.size - 1⟩
  else do
    let head ← queue.head
    let node ← h.cell head
    -- the tail pointer stays
    return { queue with head := node.next, size := queue.size - 1 }

/-- `queue->head->customer`. -/
def Queue.headCustomer (h : Heap β) (queue : Queue) : Option β := do
  let head ← queue.head
  let node ← h.cell head
  return node.val

/-- The queue holds the nodes `l`, first to last. -/
structure Holds (h : Heap β) (queue : Queue) (l : List (Nat × β)) : Prop where
  seg : Seg h queue.head l none
  tail : queue.tail = (l.map Prod.fst).getLast?
  size : queue.size = l.length

namespace Holds

variable {h h' : Heap β} {queue : Queue} {l : List (Nat × β)} {a : Nat} {v : β}

theorem create (h : Heap β) : Holds h createQueue [] := ⟨rfl, rfl, rfl⟩

theorem frame (holds : Holds h queue l) (same : ∀ a ∈ l.map Prod.fst, h'.cell a = h.cell a) :
    Holds h' queue l :=
  ⟨holds.seg.frame same, holds.tail, holds.size⟩

theorem size_eq_zero (holds : Holds h queue l) : queue.size = 0 ↔ l = [] := by
  rw [holds.size, List.length_eq_zero_iff]

theorem head_nil (holds : Holds h queue []) : queue.headCustomer h = none := by
  have empty : queue.head = none := holds.seg
  rw [Queue.headCustomer, empty]
  rfl

theorem head_cons (holds : Holds h queue ((a, v) :: l)) : queue.headCustomer h = some v := by
  obtain ⟨start, next, found, -⟩ := holds.seg
  rw [Queue.headCustomer, start]
  simp only [Option.bind_eq_bind, Option.bind_some, found, Option.pure_def]

/-- Taking a node off the front, whether or not it is the last one. -/
theorem dequeue (holds : Holds h queue ((a, v) :: l)) :
    ∃ queue', queueDequeue h queue = some queue' ∧ Holds h queue' l := by
  obtain ⟨start, next, found, rest⟩ := holds.seg
  have size := holds.size
  rw [List.length_cons] at size
  cases l with
  | nil =>
    refine ⟨⟨none, none, queue.size - 1⟩, ?_, rfl, rfl, ?_⟩
    · rw [queueDequeue, if_neg (by omega), if_pos (by simpa using size)]
    · rw [size]
      rfl
  | cons c l =>
    refine ⟨{ queue with head := next, size := queue.size - 1 }, ?_, rest, ?_, ?_⟩
    · rw [List.length_cons] at size
      rw [queueDequeue, if_neg (by omega), if_neg (by omega), start]
      simp only [Option.bind_eq_bind, Option.bind_some, found, Option.pure_def]
    · rw [holds.tail, List.map_cons, List.map_cons, List.getLast?_cons_cons]
    · show queue.size - 1 = _
      rw [size, Nat.add_sub_cancel]

/-- Adding a node at the tail writes at most the last cell of the queue. -/
theorem enqueue (holds : Holds h queue l) (v : β) :
    ∃ h' queue', queueEnqueue (h.alloc v) queue h.bound = some (h', queue') ∧
      Holds h' queue' (l ++ [(h.bound, v)]) ∧ h'.bound = h.bound + 1 ∧
      ∀ b < h.bound, b ∉ l.map Prod.fst → h'.cell b = h.cell b := by
  have fresh : ∀ b < h.bound, (h.alloc v).cell b = h.cell b := fun b inside =>
    Function.update_of_ne (by omega) _ _
  have new : (h.alloc v).cell h.bound = some ⟨v, none⟩ := Function.update_self _ _ _
  have seg : Seg (h.alloc v) queue.head l none := holds.seg.frame fun b mem => fresh b (holds.seg.lt_bound mem)
  have outside : h.bound ∉ l.map Prod.fst := fun mem => Nat.lt_irrefl _ (holds.seg.lt_bound mem)
  rcases l.eq_nil_or_concat' with rfl | ⟨before, ⟨a, w⟩, rfl⟩
  · refine ⟨h.alloc v, ⟨some h.bound, some h.bound, queue.size + 1⟩, ?_, ⟨?_, rfl, ?_⟩, rfl,
      fun b inside _ => fresh b inside⟩
    · rw [queueEnqueue, if_pos (holds.size_eq_zero.2 rfl)]
    · exact ⟨rfl, none, new, rfl⟩
    · show queue.size + 1 = _
      rw [holds.size]
      rfl
  · have tail : queue.tail = some a := by
      rw [holds.tail, List.map_append, List.map_singleton, List.getLast?_concat]
    obtain ⟨h', write, linked, bound, cell⟩ := seg.link new outside
    refine ⟨h', { queue with tail := some h.bound, size := queue.size + 1 }, ?_, ⟨linked, ?_, ?_⟩, bound, ?_⟩
    · rw [queueEnqueue, if_neg (by simp [holds.size]), tail]
      simp only [Option.bind_eq_bind, Option.bind_some, write, Option.pure_def]
    · show some h.bound = _
      rw [List.map_append, List.map_singleton, List.getLast?_concat]
    · show queue.size + 1 = _
      rw [holds.size, List.length_append, List.length_append, List.length_append]
      rfl
    · intro b below other
      have ne : b ≠ a := fun same => other (by simp [same])
      rw [cell b ne, fresh b below]

end Holds

end CSC360.Clerks
