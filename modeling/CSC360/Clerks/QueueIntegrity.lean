import CSC360.Clerks.Threads
import Mathlib.Data.Finset.Card

/-!
# Queue integrity

**Each linked queue holds the customers in its wait loop, first come first served.**
`QueueState` ties the nodes of a queue to the two length counters, to the threads in
the loop and to the history of the run. Ids may repeat, and `checkHead` compares ids,
so a thread may take out the node of another one: the ids are tied as multisets and
as sequences, not thread by thread.

Only `enqueue` and `leave` touch a queue (`sameQueues`); on these, the invariant is
the specification of the queue routines.
-/

namespace CSC360.Clerks

open CSC360.Base Function

variable {n : Nat} {cust : Fin n → Customer} {as : List (Action n)} {s s' : State n} {a : Action n}
variable {q : Class} {i : Fin n} {l : List (Nat × Fin n)}

/-- In the queue and not yet out of the loop. -/
def CustomerLoc.inLoop : CustomerLoc → Bool
  | .enqueued | .signalled | .waiting | .woken => true
  | _ => false

/-- At the `pthread_cond_wait` of the loop. -/
def CustomerLoc.atWait : CustomerLoc → Bool
  | .waiting | .woken => true
  | _ => false

/-- Holds the mutex of its queue. -/
def CustomerLoc.holding : CustomerLoc → Bool
  | .enqueued | .signalled => true
  | _ => false

/-- The id that the step appends to the queue. -/
def enqueuedId (cust : Fin n → Customer) (q : Class) : Action n → Option Int
  | .enqueue i q' _ => if q' = q then some (cust i).id else none
  | _ => none

/-- The id of the customer of the queue that leaves the wait loop in the step. -/
def leftId (cust : Fin n → Customer) (q : Class) : Action n → Option Int
  | .leave i q' _ => if q' = q then some (cust i).id else none
  | _ => none

/-- The ids in the order in which the customers entered the queue. -/
def enqueueIds (cust : Fin n → Customer) (q : Class) (as : List (Action n)) : List Int :=
  as.filterMap (enqueuedId cust q)

/-- The ids in the order in which the customers left the wait loop. -/
def leaveIds (cust : Fin n → Customer) (q : Class) (as : List (Action n)) : List Int :=
  as.filterMap (leftId cust q)

theorem enqueueIds_snoc : enqueueIds cust q (as ++ [a]) = enqueueIds cust q as ++ (enqueuedId cust q a).toList := by
  rw [enqueueIds, List.filterMap_append]
  cases found : enqueuedId cust q a <;> simp [enqueueIds, found]

theorem leaveIds_snoc : leaveIds cust q (as ++ [a]) = leaveIds cust q as ++ (leftId cust q a).toList := by
  rw [leaveIds, List.filterMap_append]
  cases found : leftId cust q a <;> simp [leaveIds, found]

/-- The customers of the queue's class in its loop. -/
def inLoop (cust : Fin n → Customer) (s : State n) (q : Class) : Finset (Fin n) :=
  Finset.univ.filter fun i => (cust i).currQueue = some q ∧ (s.customer i).inLoop = true

/-- The customers of the queue's class at the `pthread_cond_wait` of the loop. -/
def waitLoop (cust : Fin n → Customer) (s : State n) (q : Class) : Finset (Fin n) :=
  Finset.univ.filter fun i => (cust i).currQueue = some q ∧ (s.customer i).atWait = true

/-- The ids of the nodes. -/
def nodeIds (cust : Fin n → Customer) (l : List (Nat × Fin n)) : List Int := l.map fun c => (cust c.2).id

/-- The nodes `l` of the queue agree with the counters, the threads and the history. -/
structure QueueState (cust : Fin n → Customer) (as : List (Action n)) (s : State n) (q : Class)
    (l : List (Nat × Fin n)) : Prop where
  holds : Holds s.heap (s.vars q).queue l
  own : ∀ c ∈ l, (cust c.2).currQueue = some q
  length : (s.vars q).length = l.length
  ids : (nodeIds cust l : Multiset Int) = (inLoop cust s q).val.map fun i => (cust i).id
  order : leaveIds cust q as ++ nodeIds cust l = enqueueIds cust q as

/-- A customer holds the mutex of its queue from its enqueue to its wait. -/
def MutexState (cust : Fin n → Customer) (s : State n) : Prop :=
  ∀ q i, (s.vars q).mutex = some i ↔ (cust i).currQueue = some q ∧ (s.customer i).holding = true

/-- The invariant of every run. -/
structure Integrity (cust : Fin n → Customer) (as : List (Action n)) (s : State n) : Prop where
  queues : ∀ q, ∃ l, QueueState cust as s q l
  mutex : MutexState cust s
  alive : ∀ i, s.customer i ≠ .crashed

/-- The two states have the same queues, with the same customers in the loops. -/
structure SameQueues (s s' : State n) : Prop where
  heap : s'.heap = s.heap
  queue : ∀ q, (s'.vars q).queue = (s.vars q).queue
  length : ∀ q, (s'.vars q).length = (s.vars q).length
  loop : ∀ i, (s'.customer i).inLoop = (s.customer i).inLoop
  alive : ∀ i, s'.customer i = .crashed → s.customer i = .crashed

/-- The steps that change the nodes or the customers of a queue. -/
def Action.touches : Action n → Bool
  | .enqueue _ _ _ | .leave _ _ _ | .fault _ _ => true
  | _ => false

theorem update_alive {loc : CustomerLoc} {f : Fin n → CustomerLoc} (alive : loc ≠ .crashed) (j : Fin n)
    (crashed : update f i loc j = .crashed) : f j = .crashed :=
  update_back (fun loc : CustomerLoc => loc = .crashed) (fun crashed => absurd crashed alive) j crashed

/-- A property of locations that does not tell waiting from woken customers. -/
theorem broadcast_loc {α : Type} (field : CustomerLoc → α) (same : field .woken = field .waiting)
    (f : Fin n → CustomerLoc) (j : Fin n) : field (broadcast cust q f j) = field (f j) := by
  unfold broadcast
  split
  · rename_i waiting
    rw [waiting.1, same]
  · rfl

theorem broadcast_alive {f : Fin n → CustomerLoc} (j : Fin n) (crashed : broadcast cust q f j = .crashed) :
    f j = .crashed := by
  unfold broadcast at crashed
  split at crashed
  · cases crashed
  · exact crashed

theorem sameQueues (enabled : Enabled cust s a) (quiet : a.touches = false) : SameQueues s (next cust s a) := by
  cases a with
  | enqueue | leave | fault => cases quiet
  | signalArrival i woken =>
    have loc := signalArrival_loc enabled
    exact ⟨rfl, fun _ => rfl, fun _ => rfl, update_field_at _ loc rfl, update_alive (by simp)⟩
  | wait i q =>
    exact ⟨rfl, update_field _ rfl, update_field _ rfl, update_field_at _ enabled.2 rfl, update_alive (by simp)⟩
  | rewait i q =>
    exact ⟨rfl, fun _ => rfl, fun _ => rfl, update_field_at _ enabled.2.1 rfl, update_alive (by simp)⟩
  | skip i unset =>
    exact ⟨rfl, fun _ => rfl, fun _ => rfl, update_field_at _ enabled.2 rfl, update_alive (by simp)⟩
  | startService i q currClerk =>
    have loop := update_field_at CustomerLoc.inLoop (b := .serving currClerk) enabled.2 rfl
    cases q with
    | economy => exact ⟨rfl, fun _ => rfl, fun _ => rfl, loop, update_alive (by simp)⟩
    | business => exact ⟨rfl, update_field _ rfl, update_field _ rfl, loop, update_alive (by simp)⟩
  | finish i currClerk | wakeCustomer i =>
    exact ⟨rfl, fun _ => rfl, fun _ => rfl, update_field_at _ enabled rfl, update_alive (by simp)⟩
  | clerk k =>
    obtain ⟨loc, requestMutex, -, after⟩ := clerk_step enabled
    rw [after]
    exact ⟨rfl, fun _ => rfl, fun _ => rfl, fun _ => rfl, fun _ => id⟩
  | select k q => exact ⟨rfl, update_field _ rfl, update_field _ rfl, broadcast_loc _ rfl _, broadcast_alive⟩
  | wakeClerk k => exact ⟨rfl, fun _ => rfl, fun _ => rfl, fun _ => rfl, fun _ => id⟩

theorem quiet_ids (quiet : a.touches = false) : enqueuedId cust q a = none ∧ leftId cust q a = none := by
  cases a <;> first | exact ⟨rfl, rfl⟩ | cases quiet

theorem QueueState.quiet (state : QueueState cust as s q l) (same : SameQueues s s')
    (quiet : a.touches = false) : QueueState cust (as ++ [a]) s' q l where
  holds := by rw [same.heap, same.queue]; exact state.holds
  own := state.own
  length := by rw [same.length, state.length]
  ids := by
    have loops : inLoop cust s' q = inLoop cust s q := by simp only [inLoop, same.loop]
    rw [loops, state.ids]
  order := by
    rw [leaveIds_snoc, enqueueIds_snoc, (quiet_ids quiet).1, (quiet_ids quiet).2, ← state.order]
    simp only [Option.toList_none, List.append_nil]

section Loop

variable {loc : CustomerLoc}

/-- A customer of another class does not count. -/
theorem inLoop_other (other : (cust i).currQueue ≠ some q) (moved : s'.customer = update s.customer i loc) :
    inLoop cust s' q = inLoop cust s q := by
  ext j
  by_cases here : j = i
  · simp [inLoop, here, other]
  · simp [inLoop, moved, here]

theorem inLoop_enter (own : (cust i).currQueue = some q) (moved : s'.customer = update s.customer i loc)
    (enters : loc.inLoop = true) : inLoop cust s' q = insert i (inLoop cust s q) := by
  ext j
  by_cases here : j = i
  · simp [inLoop, here, own, moved, enters]
  · simp [inLoop, moved, here]

theorem inLoop_exit (moved : s'.customer = update s.customer i loc) (exits : loc.inLoop = false) :
    inLoop cust s' q = (inLoop cust s q).erase i := by
  ext j
  by_cases here : j = i
  · simp [inLoop, here, moved, exits]
  · simp [inLoop, moved, here]

end Loop

theorem nodeIds_cons (c : Nat × Fin n) : nodeIds cust (c :: l) = (cust c.2).id :: nodeIds cust l := rfl

theorem nodeIds_snoc (c : Nat × Fin n) : nodeIds cust (l ++ [c]) = nodeIds cust l ++ [(cust c.2).id] := by
  rw [nodeIds, List.map_append, List.map_singleton, nodeIds]

/-- The nodes of different queues are different: their customers have different classes. -/
theorem QueueState.disjoint {q' : Class} {l' : List (Nat × Fin n)} (state : QueueState cust as s q l)
    (state' : QueueState cust as s q' l') (ne : q' ≠ q) {b : Nat} (inList : b ∈ l'.map Prod.fst) :
    b ∉ l.map Prod.fst := by
  intro both
  obtain ⟨⟨b, j⟩, mem', rfl⟩ := List.mem_map.1 inList
  obtain ⟨⟨c, k⟩, mem, same⟩ := List.mem_map.1 both
  obtain rfl : c = b := same
  obtain ⟨next', found'⟩ := state'.holds.seg.cell_of_mem mem'
  obtain ⟨next, found⟩ := state.holds.seg.cell_of_mem mem
  rw [found] at found'
  obtain ⟨rfl, -⟩ := Cell.mk.inj (Option.some.inj found')
  exact ne (Option.some.inj ((state'.own _ mem').symm.trans (state.own _ mem)))

/-- The step that appends a customer to its queue. -/
theorem enqueue_step {reading : Rat} {heap : Heap (Fin n)} {queue : Queue}
    (done : queueEnqueue (s.heap.alloc i) (s.vars q).queue s.heap.bound = some (heap, queue)) :
    next cust s (.enqueue i q reading) =
      { s with
        customer := update s.customer i .enqueued
        timeInit := update s.timeInit i reading
        vars := update s.vars q
          { s.vars q with queue, length := (s.vars q).length + 1, mutex := some i }
        heap } := by
  simp only [next, createNode, done]

/-- The step that takes the head out of the queue. -/
theorem leave_step {reading : Rat} {queue : Queue} (done : queueDequeue s.heap (s.vars q).queue = some queue) :
    next cust s (.leave i q reading) =
      { s with
        customer := update s.customer i (.admitted (s.vars q).status)
        vars := update s.vars q
          { s.vars q with
            queue
            time := (s.vars q).time + (reading - s.timeInit i)
            served := (s.vars q).served + 1
            length := (s.vars q).length - 1
            winner := true } } := by
  simp only [next, done]

/-- A thread that finds itself at the head: the queue has a first node, with its id. -/
theorem QueueState.head_of_checkHead {b : Bool} (state : QueueState cust as s q l)
    (check : checkHead cust s i q = some b) :
    ∃ c l', l = c :: l' ∧ b = decide ((cust i).id = (cust c.2).id) := by
  cases l with
  | nil =>
    rw [checkHead, state.holds.head_nil] at check
    cases check
  | cons c l =>
    obtain ⟨a, j⟩ := c
    rw [checkHead, state.holds.head_cons] at check
    exact ⟨_, _, rfl, (Option.some.inj check).symm⟩

theorem QueueState.checkHead_ne_none (state : QueueState cust as s q l) {j : Fin n} (some : j ∈ inLoop cust s q) :
    checkHead cust s i q ≠ none := by
  intro null
  cases l with
  | nil =>
    have ids := state.ids
    have mem := Multiset.mem_map_of_mem (fun i => (cust i).id) (Finset.mem_def.1 some)
    rw [← ids] at mem
    cases mem
  | cons c l =>
    obtain ⟨a, j⟩ := c
    rw [checkHead, state.holds.head_cons] at null
    cases null

theorem mem_inLoop : i ∈ inLoop cust s q ↔ (cust i).currQueue = some q ∧ (s.customer i).inLoop = true := by
  simp [inLoop]

/-- `Queue_Enqueue` does not follow a null pointer. -/
theorem enqueue_succeeds (queues : ∀ q, ∃ l, QueueState cust as s q l) (i : Fin n) (q : Class) :
    ∃ heap queue, queueEnqueue (s.heap.alloc i) (s.vars q).queue s.heap.bound = some (heap, queue) := by
  obtain ⟨l, state⟩ := queues q
  obtain ⟨heap, queue, done, -⟩ := state.holds.enqueue i
  exact ⟨heap, queue, done⟩

/-- Nor does `Queue_Dequeue`: the thread that leaves has just read the head. -/
theorem leave_succeeds {reading : Rat} (queues : ∀ q, ∃ l, QueueState cust as s q l)
    (enabled : Enabled cust s (.leave i q reading)) :
    ∃ queue, queueDequeue s.heap (s.vars q).queue = some queue := by
  obtain ⟨l, state⟩ := queues q
  obtain ⟨c, l, rfl, -⟩ := state.head_of_checkHead enabled.2.2.2.1
  obtain ⟨queue, done, -⟩ := state.holds.dequeue
  exact ⟨queue, done⟩

/-- A thread in the loop has an id in the queue, so the head it reads is not null. -/
theorem not_fault (queues : ∀ q, ∃ l, QueueState cust as s q l) : ¬Enabled cust s (.fault i q) := by
  intro enabled
  obtain ⟨own, loc, -, null⟩ := enabled
  obtain ⟨l, state⟩ := queues q
  have inside : i ∈ inLoop cust s q := mem_inLoop.2 ⟨own, by rw [loc]; rfl⟩
  exact state.checkHead_ne_none inside null

/-- **Enqueue keeps the queues**. -/
theorem enqueue_queues {reading : Rat} (queues : ∀ q, ∃ l, QueueState cust as s q l)
    (enabled : Enabled cust s (.enqueue i q reading)) (q' : Class) :
    ∃ l, QueueState cust (as ++ [.enqueue i q reading]) (next cust s (.enqueue i q reading)) q' l := by
  obtain ⟨own, loc, -⟩ := enabled
  obtain ⟨l, state⟩ := queues q
  obtain ⟨heap, queue, done, holds, -, kept⟩ := state.holds.enqueue i
  rw [enqueue_step done]
  by_cases here : q' = q
  · subst here
    have outside : i ∉ inLoop cust s q' := by rw [mem_inLoop, loc]; simp [CustomerLoc.inLoop]
    refine ⟨l ++ [(s.heap.bound, i)], ?_, ?_, ?_, ?_, ?_⟩
    · simpa only [update_self] using holds
    · intro c mem
      rcases List.mem_append.1 mem with old | new
      · exact state.own c old
      · rw [List.mem_singleton.1 new, own]
    · simp only [update_self, state.length, List.length_append, List.length_singleton, Int.natCast_add]
      rfl
    · rw [inLoop_enter own rfl rfl, Finset.insert_val_of_notMem outside, Multiset.map_cons, ← state.ids,
        nodeIds_snoc, Multiset.cons_coe, Multiset.coe_eq_coe]
      exact List.perm_append_singleton _ _
    · rw [leaveIds_snoc, enqueueIds_snoc, nodeIds_snoc, ← state.order]
      simp [leftId, enqueuedId]
  · obtain ⟨l', state'⟩ := queues q'
    have other : (cust i).currQueue ≠ some q' := fun same => here (Option.some.inj (same.symm.trans own))
    refine ⟨l', ?_, state'.own, ?_, ?_, ?_⟩
    · simp only [update_of_ne here]
      exact state'.holds.frame fun b mem => kept b (state'.holds.seg.lt_bound mem) (state.disjoint state' here mem)
    · simp only [update_of_ne here, state'.length]
    · rw [inLoop_other other rfl, state'.ids]
    · rw [leaveIds_snoc, enqueueIds_snoc, ← state'.order]
      simp [leftId, enqueuedId, Ne.symm here]

/-- **Leaving the loop keeps the queues**: the id taken out is the id of the thread
that leaves, whichever thread put the node in. -/
theorem leave_queues {reading : Rat} (queues : ∀ q, ∃ l, QueueState cust as s q l)
    (enabled : Enabled cust s (.leave i q reading)) (q' : Class) :
    ∃ l, QueueState cust (as ++ [.leave i q reading]) (next cust s (.leave i q reading)) q' l := by
  obtain ⟨own, loc, -, check, -⟩ := enabled
  obtain ⟨l, state⟩ := queues q
  obtain ⟨⟨a, j⟩, l, rfl, same⟩ := state.head_of_checkHead check
  replace same : (cust i).id = (cust j).id := of_decide_eq_true same.symm
  obtain ⟨queue, done, holds⟩ := state.holds.dequeue
  rw [leave_step done]
  by_cases here : q' = q
  · subst here
    have inside : i ∈ inLoop cust s q' := by rw [mem_inLoop, loc]; exact ⟨own, rfl⟩
    refine ⟨l, ?_, fun c mem => state.own c (List.mem_cons_of_mem _ mem), ?_, ?_, ?_⟩
    · simpa only [update_self] using holds
    · simp only [update_self, state.length, List.length_cons]
      omega
    · rw [inLoop_exit rfl rfl, Finset.erase_val, Multiset.map_erase_of_mem _ _ (Finset.mem_def.1 inside), ← state.ids,
        nodeIds_cons, same, ← Multiset.cons_coe, Multiset.erase_cons_head]
    · rw [leaveIds_snoc, enqueueIds_snoc, ← state.order, nodeIds_cons]
      simp [leftId, enqueuedId, same]
  · obtain ⟨l', state'⟩ := queues q'
    have other : (cust i).currQueue ≠ some q' := fun same => here (Option.some.inj (same.symm.trans own))
    refine ⟨l', ?_, state'.own, ?_, ?_, ?_⟩
    · simpa only [update_of_ne here] using state'.holds
    · simp only [update_of_ne here, state'.length]
    · rw [inLoop_other other rfl, state'.ids]
    · rw [leaveIds_snoc, enqueueIds_snoc, ← state'.order]
      simp [leftId, enqueuedId, Ne.symm here]

/-- Moves that neither take nor release a mutex. -/
theorem MutexState.kept (state : MutexState cust s) (mutex : ∀ q, (s'.vars q).mutex = (s.vars q).mutex)
    (holding : ∀ i, (s'.customer i).holding = (s.customer i).holding) : MutexState cust s' := by
  intro q i
  rw [mutex, holding]
  exact state q i

/-- A customer takes or releases the mutex of its queue, which no other customer holds. -/
theorem MutexState.moved {loc : CustomerLoc} (state : MutexState cust s) (own : (cust i).currQueue = some q)
    (available : ∀ j, (s.vars q).mutex = some j → j = i) (moved : s'.customer = update s.customer i loc)
    (mutex : (s'.vars q).mutex = if loc.holding then some i else none)
    (other : ∀ q', q' ≠ q → (s'.vars q').mutex = (s.vars q').mutex) : MutexState cust s' := by
  intro q' j
  by_cases here : q' = q
  · subst here
    by_cases mine : j = i
    · subst mine
      rw [mutex, moved, update_self]
      cases loc.holding <;> simp [own]
    · rw [mutex, moved, update_of_ne mine, ← state q' j]
      have elsewhere : (s.vars q').mutex ≠ some j := fun held => mine (available j held)
      cases loc.holding <;> simp [elsewhere, Ne.symm mine]
  · rw [other q' here, state q' j, moved]
    by_cases mine : j = i
    · subst mine
      have elsewhere : (cust j).currQueue ≠ some q' := fun same => here (Option.some.inj (same.symm.trans own))
      simp only [elsewhere, false_and]
    · rw [update_of_ne mine]

/-- A customer goes on to a place where it holds the mutex as before. -/
theorem MutexState.relocated {loc loc' : CustomerLoc} (state : MutexState cust s) (found : s.customer i = loc)
    (moved : s'.customer = update s.customer i loc') (holding : loc'.holding = loc.holding)
    (mutex : ∀ q, (s'.vars q).mutex = (s.vars q).mutex) : MutexState cust s' := by
  refine state.kept mutex fun j => ?_
  rw [moved]
  exact update_field_at CustomerLoc.holding found holding j

/-- The mutex is taken where nobody holds it. -/
theorem MutexState.enqueue {reading : Rat} (state : MutexState cust s)
    (enabled : Enabled cust s (.enqueue i q reading)) : MutexState cust (next cust s (.enqueue i q reading)) := by
  obtain ⟨own, loc, free⟩ := enabled
  have available : ∀ j, (s.vars q).mutex = some j → j = i := by simp [free]
  cases done : queueEnqueue (s.heap.alloc i) (s.vars q).queue s.heap.bound with
  | none =>
    simp only [next, createNode, done]
    exact state.moved own available rfl free fun _ _ => rfl
  | some after =>
    rw [enqueue_step done]
    apply state.moved own available rfl (by simp only [update_self]; rfl)
    intro q' ne
    simp only [update_of_ne ne]

/-- `pthread_cond_wait` releases the mutex. -/
theorem MutexState.wait (state : MutexState cust s) (enabled : Enabled cust s (.wait i q)) :
    MutexState cust (next cust s (.wait i q)) := by
  obtain ⟨own, loc⟩ := enabled
  have held : (s.vars q).mutex = some i := (state q i).2 ⟨own, by rw [loc]; rfl⟩
  have available : ∀ j, (s.vars q).mutex = some j → j = i := by simp [held]
  apply state.moved own available rfl (by simp only [next, update_self]; rfl)
  intro q' ne
  simp only [next, update_of_ne ne]

theorem MutexState.leave {reading : Rat} (state : MutexState cust s)
    (enabled : Enabled cust s (.leave i q reading)) : MutexState cust (next cust s (.leave i q reading)) := by
  cases done : queueDequeue s.heap (s.vars q).queue with
  | none =>
    simp only [next, done]
    exact state.relocated enabled.2.1 rfl rfl fun _ => rfl
  | some queue =>
    rw [leave_step done]
    exact state.relocated enabled.2.1 rfl rfl (update_field _ rfl)

theorem MutexState.step (state : MutexState cust s) (enabled : Enabled cust s a) :
    MutexState cust (next cust s a) := by
  cases a with
  | enqueue i q reading => exact state.enqueue enabled
  | wait i q => exact state.wait enabled
  | signalArrival i woken => exact state.relocated (signalArrival_loc enabled) rfl rfl fun _ => rfl
  | leave i q reading => exact state.leave enabled
  | rewait i q | fault i q => exact state.relocated enabled.2.1 rfl rfl fun _ => rfl
  | skip i unset => exact state.relocated enabled.2 rfl rfl fun _ => rfl
  | startService i q currClerk =>
    cases q with
    | economy => exact state.relocated enabled.2 rfl rfl fun _ => rfl
    | business => exact state.relocated enabled.2 rfl rfl (update_field _ rfl)
  | finish i currClerk | wakeCustomer i => exact state.relocated enabled rfl rfl fun _ => rfl
  | clerk k =>
    obtain ⟨loc, requestMutex, -, after⟩ := clerk_step enabled
    rw [after]
    exact state.kept (fun _ => rfl) fun _ => rfl
  | select k q => exact state.kept (update_field _ rfl) (broadcast_loc _ rfl _)
  | wakeClerk k => exact state.kept (fun _ => rfl) fun _ => rfl

theorem Integrity.start : Integrity cust [] (start n) where
  queues q := by
    refine ⟨[], .create _, by simp, rfl, ?_, rfl⟩
    simp [nodeIds, inLoop, Clerks.start, CustomerLoc.inLoop]
  mutex q i := by simp [Clerks.start, CustomerLoc.holding]
  alive i := by simp [Clerks.start]

theorem Integrity.step (state : Integrity cust as s) (enabled : Enabled cust s a) :
    Integrity cust (as ++ [a]) (next cust s a) := by
  have mutex := state.mutex.step enabled
  cases quiet : a.touches with
  | false =>
    have same := sameQueues enabled quiet
    refine ⟨fun q => ?_, mutex, fun i crashed => state.alive i (same.alive i crashed)⟩
    obtain ⟨l, queue⟩ := state.queues q
    exact ⟨l, queue.quiet same quiet⟩
  | true =>
    cases a with
    | enqueue i q reading =>
      refine ⟨enqueue_queues state.queues enabled, mutex, fun j crashed => state.alive j ?_⟩
      obtain ⟨heap, queue, done⟩ := enqueue_succeeds state.queues i q
      rw [enqueue_step done] at crashed
      exact update_alive (by simp) j crashed
    | leave i q reading =>
      refine ⟨leave_queues state.queues enabled, mutex, fun j crashed => state.alive j ?_⟩
      obtain ⟨queue, done⟩ := leave_succeeds state.queues enabled
      rw [leave_step done] at crashed
      exact update_alive (by simp) j crashed
    | fault i q => exact absurd enabled (not_fault state.queues)
    | _ => cases quiet

theorem integrity (run : Reaches cust as s) : Integrity cust as s :=
  run.invariant Integrity.start fun _ _ _ _ state enabled => state.step enabled

/-- A queue has as many nodes as it has customers in its loop. -/
theorem Integrity.size (state : Integrity cust as s) (q : Class) : (s.vars q).queue.size = (inLoop cust s q).card := by
  obtain ⟨l, nodes⟩ := state.queues q
  have count := congrArg Multiset.card nodes.ids
  rw [Multiset.coe_card, nodeIds, List.length_map, Multiset.card_map, Finset.card_val] at count
  rw [nodes.holds.size, count]

theorem atWait_eq {loc : CustomerLoc} (released : loc.holding = false) : loc.atWait = loc.inLoop := by
  cases loc <;> first | rfl | cases released

/-- With the mutex free, the customers in the loop are at its `pthread_cond_wait`. -/
theorem MutexState.waitLoop_eq (state : MutexState cust s) (free : (s.vars q).mutex = none) :
    waitLoop cust s q = inLoop cust s q := by
  ext i
  have notHolding : (cust i).currQueue = some q → (s.customer i).holding = false := by
    intro own
    have idle := mt (fun holding => (state q i).2 ⟨own, holding⟩) (by simp [free])
    exact Bool.eq_false_iff.2 idle
  simp only [waitLoop, inLoop, Finset.mem_filter, Finset.mem_univ, true_and]
  apply and_congr_right
  intro own
  rw [atWait_eq (notHolding own)]

/-- **Queue integrity and first-come-first-served order.** Whatever the interleaving,
spurious wake-ups included, a queue whose mutex is free holds exactly the customers at
the `pthread_cond_wait` of its loop, its two counters agree with it, the customers that
have left followed by those in the list are the customers in the order of their
arrival, and no thread that is about to evaluate `checkHead` finds a null head. -/
theorem queues_fifo (run : Reaches cust as s) (q : Class) (free : (s.vars q).mutex = none) :
    ∃ l : List (Nat × Fin n), Seg s.heap (s.vars q).queue.head l none ∧
      (s.vars q).queue.size = l.length ∧ (s.vars q).length = l.length ∧
      l.length = (waitLoop cust s q).card ∧
      (nodeIds cust l : Multiset Int) = ((waitLoop cust s q).val.map fun i => (cust i).id) ∧
      leaveIds cust q as ++ nodeIds cust l = enqueueIds cust q as ∧
      ∀ i ∈ waitLoop cust s q, checkHead cust s i q ≠ none := by
  have state := integrity run
  obtain ⟨l, queue⟩ := state.queues q
  have loops := state.mutex.waitLoop_eq free
  have ids := queue.ids
  have card := congrArg Multiset.card ids
  rw [Multiset.coe_card, Multiset.card_map, nodeIds, List.length_map] at card
  rw [loops]
  exact ⟨l, queue.holds.seg, queue.holds.size, queue.length, card, ids, queue.order,
    fun i inside => queue.checkHead_ne_none inside⟩

def customer1 : Fin 2 := 0

def customer2 : Fin 2 := 1

/-- The customer enters the queue, with no clerk blocked, and waits. -/
def arrival (i : Fin n) (q : Class) : List (Action n) := [.enqueue i q 1, .signalArrival i none, .wait i q]

/-- Two economy customers with the same id. -/
def twins : Fin 2 → Customer := fun _ => ⟨7, 0⟩

/-- Both enter the queue, clerk 1 selects it, and the second one takes out the node of the first. -/
def twinsRun : List (Action 2) :=
  arrival customer1 .economy ++ arrival customer2 .economy ++ List.replicate 5 (.clerk (clerkOf 1)) ++
    [.select (clerkOf 1) .economy, .leave customer2 .economy 2]

theorem queues_fifo_twins :
    ∃ l : List (Nat × Fin 2),
      Seg (twinsRun.foldl (next twins) (start 2)).heap
        ((twinsRun.foldl (next twins) (start 2)).vars .economy).queue.head l none ∧
      ((twinsRun.foldl (next twins) (start 2)).vars .economy).queue.size = l.length ∧
      ((twinsRun.foldl (next twins) (start 2)).vars .economy).length = l.length ∧
      l.length = (waitLoop twins (twinsRun.foldl (next twins) (start 2)) .economy).card ∧
      (nodeIds twins l : Multiset Int) =
        ((waitLoop twins (twinsRun.foldl (next twins) (start 2)) .economy).val.map fun i => (twins i).id) ∧
      leaveIds twins .economy twinsRun ++ nodeIds twins l = enqueueIds twins .economy twinsRun ∧
      ∀ i ∈ waitLoop twins (twinsRun.foldl (next twins) (start 2)) .economy,
        checkHead twins (twinsRun.foldl (next twins) (start 2)) i .economy ≠ none :=
  queues_fifo (Run.of_check (by decide)) .economy (by decide)

end CSC360.Clerks
