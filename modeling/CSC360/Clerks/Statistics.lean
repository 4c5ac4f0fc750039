import CSC360.Clerks.QueueIntegrity
import Mathlib.Algebra.BigOperators.Group.Finset.Piecewise
import Mathlib.Algebra.BigOperators.Group.List.Basic
import Mathlib.Data.Rat.Lemmas

/-!
# Waiting-time statistics

**When all customers are done, the counters and the total times of the two queues are those
of the clock readings taken**: each customer has read the clock once on entering its queue
and once on leaving the loop, and has been counted once.

The readings are read off the history of the run. The invariant (`Tally`) needs no
threads: each counter is the number of `leave` readings so far. What the threads show
(`Readings`) is that a customer has at most one reading of each kind.
-/

namespace CSC360.Clerks

open CSC360.Base Function

variable {n : Nat} {cust : Fin n → Customer} {as : List (Action n)} {s : State n} {a : Action n}
variable {q : Class} {i j : Fin n}

/-- The `class_type` of the customers of the queue. -/
def Class.classType : Class → Int
  | .economy => 0
  | .business => 1

theorem currQueue_eq_some {c : Customer} : c.currQueue = some q ↔ c.classType = q.classType := by
  unfold Customer.currQueue
  cases q with
  | economy =>
    rw [Class.classType]
    split
    · rename_i business
      simp [business]
    · simp
  | business =>
    rw [Class.classType]
    split
    · rename_i business
      simp [business]
    · rename_i other
      simp [other]

/-- The customers of the class. -/
def ofClass (cust : Fin n → Customer) (q : Class) : Finset (Fin n) :=
  Finset.univ.filter fun i => (cust i).classType = q.classType

theorem mem_ofClass : i ∈ ofClass cust q ↔ (cust i).currQueue = some q := by
  rw [ofClass, Finset.mem_filter, currQueue_eq_some]
  exact and_iff_right (Finset.mem_univ i)

/-- The clock reading for `businessQueue_time_init` or `economyQueue_time_init` that the customer takes in the step. -/
def enterReading (i : Fin n) : Action n → Option Rat
  | .enqueue j _ reading => if i = j then some reading else none
  | _ => none

/-- The clock reading for `businessQueue_time_end` or `economyQueue_time_end` that the customer takes in the step. -/
def leaveReading (i : Fin n) : Action n → Option Rat
  | .leave j _ reading => if i = j then some reading else none
  | _ => none

/-- The readings that the customer has taken on entering a queue, in order. -/
def enterReadings (i : Fin n) (as : List (Action n)) : List Rat := as.filterMap (enterReading i)

/-- The readings that the customer has taken on leaving the loop, in order. -/
def leaveReadings (i : Fin n) (as : List (Action n)) : List Rat := as.filterMap (leaveReading i)

theorem enterReadings_snoc : enterReadings i (as ++ [a]) = enterReadings i as ++ (enterReading i a).toList := by
  rw [enterReadings, List.filterMap_append]
  cases found : enterReading i a <;> simp [enterReadings, found]

theorem leaveReadings_snoc : leaveReadings i (as ++ [a]) = leaveReadings i as ++ (leaveReading i a).toList := by
  rw [leaveReadings, List.filterMap_append]
  cases found : leaveReading i a <;> simp [leaveReadings, found]

/-! ## Each customer reads the clock twice -/

/-- How far a customer of one of the classes has come. -/
inductive Stage
  | outside
  | inside
  | past
  | lost
  deriving DecidableEq

def CustomerLoc.stage : CustomerLoc → Stage
  | .arriving => .outside
  | .enqueued | .signalled | .waiting | .woken => .inside
  | .admitted _ | .serving _ | .done => .past
  | .crashed => .lost

/-- The readings of a customer are those of its stage, and its first one is in `timeInit`. -/
def Readings (as : List (Action n)) (s : State n) (i : Fin n) : Prop :=
  match (s.customer i).stage with
  | .outside => enterReadings i as = [] ∧ leaveReadings i as = []
  | .inside => enterReadings i as = [s.timeInit i] ∧ leaveReadings i as = []
  | .past => enterReadings i as = [s.timeInit i] ∧ ∃ reading, leaveReadings i as = [reading]
  | .lost => True

/-- Only the customers of neither class change their stage in a step that leaves the queues alone. -/
theorem stage_kept (own : (cust i).currQueue = some q) (enabled : Enabled cust s a) (quiet : a.touches = false) :
    ((next cust s a).customer i).stage = (s.customer i).stage := by
  cases a with
  | enqueue | leave | fault => cases quiet
  | signalArrival j woken =>
    apply update_field_at CustomerLoc.stage (signalArrival_loc enabled)
    rfl
  | wait j q' | startService j q' c =>
    apply update_field_at CustomerLoc.stage enabled.2
    rfl
  | rewait j q' =>
    apply update_field_at CustomerLoc.stage enabled.2.1
    rfl
  | skip j unset =>
    have other : i ≠ j := by
      rintro rfl
      rw [enabled.1] at own
      cases own
    exact congrArg _ (update_of_ne other _ _)
  | finish j c | wakeCustomer j =>
    apply update_field_at CustomerLoc.stage enabled
    rfl
  | clerk k =>
    obtain ⟨loc, requestMutex, -, after⟩ := clerk_step enabled
    rw [after]
  | select k q' => exact broadcast_loc _ rfl _ _
  | wakeClerk k => rfl

/-- The steps that leave the queues alone leave the clock alone. -/
theorem quiet_readings (quiet : a.touches = false) : enterReading i a = none ∧ leaveReading i a = none := by
  cases a <;> first | exact ⟨rfl, rfl⟩ | cases quiet

/-- The two states have counted and timed the same customers. -/
structure SameTimes (s s' : State n) : Prop where
  timeInit : s'.timeInit = s.timeInit
  time : ∀ q, (s'.vars q).time = (s.vars q).time
  served : ∀ q, (s'.vars q).served = (s.vars q).served

theorem sameTimes (quiet : a.touches = false) : SameTimes s (next cust s a) := by
  cases a with
  | enqueue | leave | fault => cases quiet
  | wait j q' | select k q' => exact ⟨rfl, update_field _ rfl, update_field _ rfl⟩
  | startService j q' c =>
    cases q' with
    | economy => exact ⟨rfl, fun q => rfl, fun q => rfl⟩
    | business => exact ⟨rfl, update_field _ rfl, update_field _ rfl⟩
  | clerk k =>
    simp only [next]
    split <;> exact ⟨rfl, fun q => rfl, fun q => rfl⟩
  | _ => exact ⟨rfl, fun q => rfl, fun q => rfl⟩

/-- A step that is not the customer's own. -/
theorem Readings.kept {s' : State n} (readings : Readings as s i)
    (stage : (s'.customer i).stage = (s.customer i).stage) (timeInit : s'.timeInit i = s.timeInit i)
    (none : enterReading i a = none ∧ leaveReading i a = none) : Readings (as ++ [a]) s' i := by
  rw [Readings, stage, timeInit, enterReadings_snoc, leaveReadings_snoc, none.1, none.2]
  simp only [Option.toList_none, List.append_nil]
  exact readings

theorem Readings.step (state : Integrity cust as s) (readings : Readings as s i)
    (own : (cust i).currQueue = some q) (enabled : Enabled cust s a) :
    Readings (as ++ [a]) (next cust s a) i := by
  cases quiet : a.touches with
  | false => exact readings.kept (stage_kept own enabled quiet) (congrFun (sameTimes quiet).timeInit i) (quiet_readings quiet)
  | true =>
    cases a with
    | enqueue j q' reading =>
      obtain ⟨heap, queue, done⟩ := enqueue_succeeds state.queues j q'
      rw [enqueue_step done]
      by_cases here : i = j
      · subst here
        have loc := enabled.2.1
        rw [Readings, loc] at readings
        rw [Readings, enterReadings_snoc, leaveReadings_snoc, readings.1, readings.2]
        simp [CustomerLoc.stage, enterReading, leaveReading]
      · exact readings.kept (congrArg _ (update_of_ne here _ _)) (update_of_ne here _ _) ⟨if_neg here, rfl⟩
    | leave j q' reading =>
      obtain ⟨queue, done⟩ := leave_succeeds state.queues enabled
      rw [leave_step done]
      by_cases here : i = j
      · subst here
        have loc := enabled.2.1
        rw [Readings, loc] at readings
        rw [Readings, enterReadings_snoc, leaveReadings_snoc, readings.1, readings.2]
        simp [CustomerLoc.stage, enterReading, leaveReading]
      · exact readings.kept (congrArg _ (update_of_ne here _ _)) rfl ⟨rfl, if_neg here⟩
    | fault j q' => exact absurd enabled (not_fault state.queues)
    | _ => cases quiet

theorem readings (run : Reaches cust as s) (own : (cust i).currQueue = some q) : Readings as s i := by
  refine run.invariant (I := fun as s => Readings as s i) ?_ fun as s a run readings enabled => ?_
  · exact And.intro rfl rfl
  · exact readings.step (integrity run) own enabled

/-! ## The accumulators -/

/-- What the customer's readings on leaving contribute. -/
def waited (as : List (Action n)) (s : State n) (i : Fin n) : Rat :=
  ((leaveReadings i as).map fun reading => reading - s.timeInit i).sum

/-- The counter and the total time of each queue are those of the readings taken. -/
structure Tally (cust : Fin n → Customer) (as : List (Action n)) (s : State n) : Prop where
  served : ∀ q, (s.vars q).served = ∑ i ∈ ofClass cust q, (leaveReadings i as).length
  time : ∀ q, (s.vars q).time = ∑ i ∈ ofClass cust q, waited as s i

theorem Tally.start : Tally cust [] (start n) where
  served q := by simp [leaveReadings, Clerks.start]
  time q := by simp [waited, leaveReadings, Clerks.start]

/-- A step in which no customer leaves, and which changes the `timeInit` of nobody who has. -/
theorem Tally.kept {s' : State n} (tally : Tally cust as s) (none : ∀ i, leaveReading i a = none)
    (time : ∀ q, (s'.vars q).time = (s.vars q).time) (served : ∀ q, (s'.vars q).served = (s.vars q).served)
    (timeInit : ∀ q, ∀ i ∈ ofClass cust q, s'.timeInit i = s.timeInit i ∨ leaveReadings i as = []) :
    Tally cust (as ++ [a]) s' := by
  have still : ∀ i, leaveReadings i (as ++ [a]) = leaveReadings i as := by
    intro i
    rw [leaveReadings_snoc, none, Option.toList_none, List.append_nil]
  refine ⟨fun q => ?_, fun q => ?_⟩
  · simp only [served, tally.served, still]
  · rw [time, tally.time]
    apply Finset.sum_congr rfl
    intro i mem
    rw [waited, waited, still]
    rcases timeInit q i mem with same | none
    · rw [same]
    · rw [none, List.map_nil, List.map_nil]

/-- **Leaving counts the customer once.** -/
theorem Tally.leave {reading : Rat} (tally : Tally cust as s) (state : Integrity cust as s)
    (enabled : Enabled cust s (.leave j q reading)) :
    Tally cust (as ++ [.leave j q reading]) (next cust s (.leave j q reading)) := by
  have own := enabled.1
  obtain ⟨queue, done⟩ := leave_succeeds state.queues enabled
  rw [leave_step done]
  have length : ∀ i, (leaveReadings i (as ++ [Action.leave j q reading])).length =
      (leaveReadings i as).length + if i = j then 1 else 0 := by
    intro i
    rw [leaveReadings_snoc, List.length_append, leaveReading]
    split <;> rfl
  have sum : ∀ i, ((leaveReadings i (as ++ [Action.leave j q reading])).map fun r => r - s.timeInit i).sum =
      waited as s i + if i = j then reading - s.timeInit j else 0 := by
    intro i
    rw [leaveReadings_snoc, List.map_append, List.sum_append, waited, leaveReading]
    split
    · rename_i same
      simp [same]
    · rfl
  refine ⟨fun q' => ?_, fun q' => ?_⟩
  · simp only [length, Finset.sum_add_distrib, Finset.sum_ite_eq', mem_ofClass, own]
    by_cases here : q' = q
    · subst here
      simp only [update_self, tally.served, if_pos]
    · have other : some q ≠ some q' := fun same => here (Option.some.inj same).symm
      rw [update_of_ne here, tally.served, if_neg other, Nat.add_zero]
  · simp only [waited, sum, Finset.sum_add_distrib, Finset.sum_ite_eq', mem_ofClass, own]
    by_cases here : q' = q
    · subst here
      simp only [update_self, tally.time, waited, if_pos]
    · have other : some q ≠ some q' := fun same => here (Option.some.inj same).symm
      rw [update_of_ne here, tally.time, if_neg other, Rat.add_zero]
      rfl

theorem Tally.step (tally : Tally cust as s) (run : Reaches cust as s) (enabled : Enabled cust s a) :
    Tally cust (as ++ [a]) (next cust s a) := by
  have state := integrity run
  cases quiet : a.touches with
  | false =>
    have same : SameTimes s (next cust s a) := sameTimes quiet
    refine tally.kept (fun i => (quiet_readings quiet).2) same.time same.served fun q i _ => ?_
    rw [same.timeInit]
    exact .inl rfl
  | true =>
    cases a with
    | enqueue j q reading =>
      obtain ⟨heap, queue, done⟩ := enqueue_succeeds state.queues j q
      rw [enqueue_step done]
      refine tally.kept (fun i => rfl) (update_field _ rfl) (update_field _ rfl) fun q' i mem => ?_
      by_cases here : i = j
      · -- the customer that takes its first reading has not left a queue
        subst here
        have before := readings run (mem_ofClass.1 mem)
        rw [Readings, enabled.2.1] at before
        exact .inr before.2
      · exact .inl (update_of_ne here _ _)
    | leave j q reading => exact tally.leave state enabled
    | fault j q => exact absurd enabled (not_fault state.queues)
    | _ => cases quiet

/-- **The statistics lose no update.** Whatever the interleaving, spurious wake-ups
included, once all customers are done each customer of a class has read the clock once
on entering its queue and once on leaving the loop, the counter of the queue is the
number of its customers, and the total time of the queue is the sum of their waiting
times. -/
theorem statistics_exact (run : Reaches cust as s) (finished : ∀ i, s.customer i = .done) (q : Class) :
    ∃ enter leave : Fin n → Rat,
      (∀ i ∈ ofClass cust q, enterReadings i as = [enter i] ∧ leaveReadings i as = [leave i]) ∧
      (s.vars q).served = (ofClass cust q).card ∧
      (s.vars q).time = ∑ i ∈ ofClass cust q, (leave i - enter i) := by
  have taken : ∃ leave : Fin n → Rat,
      ∀ i ∈ ofClass cust q, enterReadings i as = [s.timeInit i] ∧ leaveReadings i as = [leave i] := by
    refine ⟨fun i => (leaveReadings i as).sum, fun i mem => ?_⟩
    show _ ∧ leaveReadings i as = [(leaveReadings i as).sum]
    have past := readings run (mem_ofClass.1 mem)
    rw [Readings, finished i] at past
    obtain ⟨enter, reading, leave⟩ := past
    rw [leave, List.sum_singleton]
    exact ⟨enter, rfl⟩
  obtain ⟨leave, taken⟩ := taken
  have tally : Tally cust as s := run.invariant .start fun as s a run tally enabled => tally.step run enabled
  refine ⟨s.timeInit, leave, taken, ?_, ?_⟩
  · rw [tally.served, Finset.card_eq_sum_ones]
    apply Finset.sum_congr rfl
    intro i mem
    rw [(taken i mem).2, List.length_singleton]
  · rw [tally.time]
    apply Finset.sum_congr rfl
    intro i mem
    rw [waited, (taken i mem).2, List.map_singleton, List.sum_singleton]

/-- A business customer and an economy customer. -/
def mixed : Fin 2 → Customer := fun i => if i = customer1 then ⟨1, 1⟩ else ⟨2, 0⟩

theorem mixed_classes (i : Fin 2) : (mixed i).classType = 0 ∨ (mixed i).classType = 1 := by
  by_cases first : i = customer1
  · exact .inr (by rw [mixed, if_pos first])
  · exact .inl (by rw [mixed, if_neg first])

/-- The customer leaves the loop, starts, and signals completion to clerk 1, which waits for it. -/
def service (i : Fin 2) (q : Class) (reading : Rat) : List (Action 2) :=
  [.select (clerkOf 1) q, .leave i q reading, .clerk (clerkOf 1), .startService i q 1, .finish i 1]

/-- Clerk 1 serves the business customer, then the economy customer. -/
def mixedRun : List (Action 2) :=
  arrival customer1 .business ++ arrival customer2 .economy ++ List.replicate 3 (.clerk (clerkOf 1)) ++
    service customer1 .business 4 ++ List.replicate 6 (.clerk (clerkOf 1)) ++ service customer2 .economy 6

theorem statistics_exact_mixed :
    ∃ enter leave : Fin 2 → Rat,
      (∀ i ∈ ofClass mixed .economy,
        enterReadings i mixedRun = [enter i] ∧ leaveReadings i mixedRun = [leave i]) ∧
      ((mixedRun.foldl (next mixed) (start 2)).vars .economy).served = (ofClass mixed .economy).card ∧
      ((mixedRun.foldl (next mixed) (start 2)).vars .economy).time =
        ∑ i ∈ ofClass mixed .economy, (leave i - enter i) :=
  statistics_exact (Run.of_check (by decide)) (by decide) .economy

end CSC360.Clerks
