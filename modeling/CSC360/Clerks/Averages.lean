import CSC360.Clerks.Statistics
import Mathlib.Algebra.BigOperators.Ring.Finset
import Mathlib.Algebra.Order.BigOperators.Group.Finset
import Mathlib.Algebra.Order.Field.Rat
import Mathlib.Tactic.FieldSimp
import Mathlib.Tactic.Linarith
import Mathlib.Tactic.Ring

/-!
# The average waiting times

`get_current_system_time` gives the time since `init_time` in tenths of a second; `main`
divides the total times by ten and by the numbers of customers. The program does so in doubles;
here the arithmetic is exact, and nothing is said about the two decimals that `%.2f` leaves. **If
the clock never goes back, the averages are the mean waiting times in seconds**, of each class and
of all customers: none is negative or longer than the simulation, and an average that is not a
number belongs to a class without customers (`averages_exact`).

That nobody waits for a negative time is a fact about runs: a customer reads the clock on
entering its queue before it reads the clock on leaving the loop.
-/

namespace CSC360.Clerks

open CSC360.Base Function

variable {n : Nat} {cust : Fin n → Customer} {as : List (Action n)} {s : State n} {a : Action n}
variable {q : Class} {i : Fin n}

/-- The C struct `timeval`. -/
structure Timeval where
  tvSec : Int
  tvUsec : Int

/-- `tv_sec*1000000 + tv_usec` -/
def Timeval.micros (t : Timeval) : Int := t.tvSec * 1000000 + t.tvUsec

def Timeval.seconds (t : Timeval) : Rat := t.micros / 1000000

/-- `get_current_system_time`, without the rounding of its division. -/
def getCurrentSystemTime (initTime currTime : Timeval) : Rat :=
  let finalTime : Rat := currTime.micros
  let initialTime : Rat := initTime.micros
  (finalTime - initialTime) / 100000

/-- `time/(customers*10)`, not rounded; in doubles 0 divided by 0 is not a number, which is `none` here. -/
def average (time : Rat) (customers : Nat) : Option Rat :=
  if customers = 0 then none else some (time / (customers * 10))

/-- The three numbers that `main` prints, before they are rounded. -/
structure Averages where
  business : Option Rat
  economy : Option Rat
  all : Option Rat

def averages (s : State n) : Averages where
  business := average (s.vars .business).time (s.vars .business).served
  economy := average (s.vars .economy).time (s.vars .economy).served
  all := average ((s.vars .business).time + (s.vars .economy).time)
    ((s.vars .business).served + (s.vars .economy).served)

/-! ## The clock -/

/-- The clock reading of the step. -/
def Action.reading : Action n → Option Rat
  | .enqueue _ _ reading | .leave _ _ reading => some reading
  | _ => none

/-- The readings of the run are those of `times`, which never go back. -/
structure Clocked (initTime : Timeval) (times : List Timeval) (as : List (Action n)) : Prop where
  readings : as.filterMap Action.reading = times.map (getCurrentSystemTime initTime)
  forward : (initTime :: times).Pairwise fun t t' => t.micros ≤ t'.micros

theorem getCurrentSystemTime_eq (initTime t : Timeval) :
    getCurrentSystemTime initTime t = 10 * (t.seconds - initTime.seconds) := by
  rw [getCurrentSystemTime, Timeval.seconds, Timeval.seconds]
  ring

theorem Timeval.seconds_le {t t' : Timeval} : t.seconds ≤ t'.seconds ↔ t.micros ≤ t'.micros := by
  rw [Timeval.seconds, Timeval.seconds, div_le_div_iff_of_pos_right (by norm_num), Int.cast_le]

/-- The readings of a customer are among those of the run. -/
theorem enterReadings_sub {r : Rat} (mem : r ∈ enterReadings i as) : r ∈ as.filterMap Action.reading := by
  obtain ⟨a, inRun, read⟩ := List.mem_filterMap.1 mem
  refine List.mem_filterMap.2 ⟨a, inRun, ?_⟩
  cases a with
  | enqueue j q reading =>
    simp only [enterReading, Option.ite_none_right_eq_some] at read
    exact read.2
  | _ => cases read

theorem leaveReadings_sub {r : Rat} (mem : r ∈ leaveReadings i as) : r ∈ as.filterMap Action.reading := by
  obtain ⟨a, inRun, read⟩ := List.mem_filterMap.1 mem
  refine List.mem_filterMap.2 ⟨a, inRun, ?_⟩
  cases a with
  | leave j q reading =>
    simp only [leaveReading, Option.ite_none_right_eq_some] at read
    exact read.2
  | _ => cases read

/-- **A customer enters before it leaves.** -/
theorem enters_first (run : Reaches cust as s) (own : (cust i).currQueue = some q) :
    ∀ r ∈ leaveReadings i as, ∃ before after, as = before ++ after ∧ (∃ e, e ∈ enterReadings i before) ∧
      r ∈ leaveReadings i after := by
  refine run.invariant (I := fun as _ => ∀ r ∈ leaveReadings i as, ∃ before after, as = before ++ after ∧
    (∃ e, e ∈ enterReadings i before) ∧ r ∈ leaveReadings i after) nofun fun as s a run first enabled => ?_
  intro r mem
  rw [leaveReadings_snoc, List.mem_append, Option.mem_toList] at mem
  rcases mem with old | new
  · obtain ⟨before, after, rfl, entered, left⟩ := first r old
    refine ⟨before, after ++ [a], List.append_assoc _ _ _, entered, ?_⟩
    rw [leaveReadings_snoc]
    exact List.mem_append_left _ left
  · refine ⟨as, [a], rfl, ?_, by rw [leaveReadings, List.filterMap_cons_some new]; exact List.mem_cons_self⟩
    cases a with
    | leave j q' reading =>
      simp only [leaveReading, Option.ite_none_right_eq_some] at new
      have past := readings run own
      rw [Readings, new.1, enabled.2.1] at past
      rw [new.1, past.1]
      exact ⟨_, List.mem_singleton_self _⟩
    | _ => cases new

/-- The two clock readings of a customer that is done. -/
structure Waited (initTime : Timeval) (times : List Timeval) (as : List (Action n)) (s : State n) (i : Fin n)
    (enter leave : Timeval) : Prop where
  timeInit : s.timeInit i = getCurrentSystemTime initTime enter
  entered : enterReadings i as = [getCurrentSystemTime initTime enter]
  left : leaveReadings i as = [getCurrentSystemTime initTime leave]
  enterMem : enter ∈ times
  leaveMem : leave ∈ times
  forward : enter.micros ≤ leave.micros

theorem waited_of_done {initTime : Timeval} {times : List Timeval} (run : Reaches cust as s)
    (clock : Clocked initTime times as) (own : (cust i).currQueue = some q) (done : s.customer i = .done) :
    ∃ enter leave, Waited initTime times as s i enter leave := by
  have past := readings run own
  rw [Readings, done] at past
  obtain ⟨entered, r, left⟩ := past
  have read : ∀ {r}, r ∈ as.filterMap Action.reading → ∃ t ∈ times, getCurrentSystemTime initTime t = r := by
    intro r mem
    rw [clock.readings] at mem
    exact List.mem_map.1 mem
  obtain ⟨enter, enterMem, enterIs⟩ := read (enterReadings_sub (by rw [entered]; exact List.mem_singleton_self _))
  obtain ⟨leave, leaveMem, leaveIs⟩ := read (leaveReadings_sub (by rw [left]; exact List.mem_singleton_self r))
  refine ⟨enter, leave, enterIs.symm, by rw [entered, enterIs], by rw [left, leaveIs], enterMem, leaveMem, ?_⟩
  have ordered : (as.filterMap Action.reading).Pairwise (· ≤ ·) := by
    rw [clock.readings, List.pairwise_map]
    refine (List.pairwise_cons.1 clock.forward).2.imp fun le => ?_
    rw [getCurrentSystemTime_eq, getCurrentSystemTime_eq]
    have later := Timeval.seconds_le.2 le
    linarith
  obtain ⟨before, after, rfl, ⟨e, first⟩, second⟩ :=
    enters_first run own r (by rw [left]; exact List.mem_singleton_self r)
  have same : e = s.timeInit i := by
    have mem : e ∈ enterReadings i (before ++ after) := by
      rw [enterReadings, List.filterMap_append]
      exact List.mem_append_left _ first
    rw [entered] at mem
    exact List.mem_singleton.1 mem
  rw [List.filterMap_append, List.pairwise_append] at ordered
  have le := ordered.2.2 e (enterReadings_sub first) r (leaveReadings_sub second)
  rw [same, ← enterIs, ← leaveIs, getCurrentSystemTime_eq, getCurrentSystemTime_eq] at le
  exact Timeval.seconds_le.1 (by linarith)

/-! ## The means -/

/-- The mean time in seconds that the customers wait; `none` if there are none. -/
def meanWait (enter leave : Fin n → Timeval) (customers : Finset (Fin n)) : Option Rat :=
  if customers = ∅ then none
  else some ((∑ i ∈ customers, ((leave i).seconds - (enter i).seconds)) / customers.card)

theorem meanWait_spec {enter leave : Fin n → Timeval} {customers : Finset (Fin n)} {m : Rat}
    (mean : meanWait enter leave customers = some m) :
    (0 : Rat) < customers.card ∧ m = (∑ i ∈ customers, ((leave i).seconds - (enter i).seconds)) / customers.card := by
  rw [meanWait] at mean
  split at mean
  · cases mean
  · rename_i some
    have positive : 0 < customers.card := Finset.card_pos.2 (Finset.nonempty_iff_ne_empty.2 some)
    exact ⟨by exact_mod_cast positive, (Option.some.inj mean).symm⟩

/-- A bound for all customers bounds their mean. -/
theorem le_meanWait {enter leave : Fin n → Timeval} {customers : Finset (Fin n)} {m low : Rat}
    (mean : meanWait enter leave customers = some m) (bound : ∀ i, low ≤ (leave i).seconds - (enter i).seconds) :
    low ≤ m := by
  obtain ⟨positive, rfl⟩ := meanWait_spec mean
  rw [le_div_iff₀ positive, mul_comm, ← nsmul_eq_mul]
  exact Finset.card_nsmul_le_sum _ _ _ fun i _ => bound i

theorem meanWait_le {enter leave : Fin n → Timeval} {customers : Finset (Fin n)} {m high : Rat}
    (mean : meanWait enter leave customers = some m) (bound : ∀ i, (leave i).seconds - (enter i).seconds ≤ high) :
    m ≤ high := by
  obtain ⟨positive, rfl⟩ := meanWait_spec mean
  rw [div_le_iff₀ positive, mul_comm, ← nsmul_eq_mul]
  exact Finset.sum_le_card_nsmul _ _ _ fun i _ => bound i

/-- A total of tenths of seconds, divided by ten times the number of customers. -/
theorem average_eq {enter leave : Fin n → Timeval} {customers : Finset (Fin n)} {time : Rat}
    (total : time = ∑ i ∈ customers, 10 * ((leave i).seconds - (enter i).seconds)) :
    average time customers.card = meanWait enter leave customers := by
  rw [average, meanWait]
  by_cases none : customers = ∅
  · rw [if_pos none, if_pos (Finset.card_eq_zero.2 none)]
  · rw [if_neg none, if_neg (mt Finset.card_eq_zero.1 none), total, ← Finset.mul_sum, mul_comm (customers.card : Rat),
      mul_div_mul_left _ _ (by norm_num)]

/-- The customers of the two classes are all customers. -/
theorem ofClass_compl (classes : ∀ i, (cust i).classType = 0 ∨ (cust i).classType = 1) :
    ofClass cust .economy = (ofClass cust .business)ᶜ := by
  ext i
  rw [Finset.mem_compl, ofClass, ofClass, Finset.mem_filter, Finset.mem_filter, Class.classType, Class.classType]
  rcases classes i with economy | business
  · simp [economy]
  · simp [business]

/-- What `main` prints when all customers are done. -/
structure Reported (initTime : Timeval) (times : List Timeval) (cust : Fin n → Customer) (as : List (Action n))
    (s : State n) (enter leave : Fin n → Timeval) : Prop where
  waited : ∀ i, Waited initTime times as s i (enter i) (leave i)
  business : (averages s).business = meanWait enter leave (ofClass cust .business)
  economy : (averages s).economy = meanWait enter leave (ofClass cust .economy)
  all : (averages s).all = meanWait enter leave Finset.univ
  /-- where nobody is counted, 0 is divided by 0 -/
  nobody : ∀ q, (s.vars q).served = 0 → (s.vars q).time = 0
  bounds : ∀ m, some m ∈ [(averages s).business, (averages s).economy, (averages s).all] →
    0 ≤ m ∧ ∀ stop : Timeval, (∀ t ∈ times, t.micros ≤ stop.micros) → m ≤ stop.seconds - initTime.seconds

/-- **The averages are the mean waiting times in seconds** if the clock never goes back and all customers are of
the two classes. -/
theorem averages_exact {initTime : Timeval} {times : List Timeval}
    (classes : ∀ i, (cust i).classType = 0 ∨ (cust i).classType = 1) (run : Reaches cust as s)
    (done : ∀ i, s.customer i = .done) (clock : Clocked initTime times as) :
    ∃ enter leave, Reported initTime times cust as s enter leave := by
  have own : ∀ i, ∃ q, (cust i).currQueue = some q := by
    intro i
    rcases classes i with economy | business
    · exact ⟨.economy, currQueue_eq_some.2 economy⟩
    · exact ⟨.business, currQueue_eq_some.2 business⟩
  choose enter leave waits using fun i => waited_of_done run clock (own i).choose_spec (done i)
  have tally : Tally cust as s := run.invariant .start fun as s a run tally enabled => tally.step run enabled
  have served : ∀ q, (s.vars q).served = (ofClass cust q).card := by
    intro q
    rw [tally.served, Finset.card_eq_sum_ones]
    refine Finset.sum_congr rfl fun i _ => ?_
    rw [(waits i).left, List.length_singleton]
  have time : ∀ q, (s.vars q).time = ∑ i ∈ ofClass cust q, 10 * ((leave i).seconds - (enter i).seconds) := by
    intro q
    rw [tally.time]
    refine Finset.sum_congr rfl fun i _ => ?_
    rw [Clerks.waited, (waits i).left, (waits i).timeInit, List.map_singleton, List.sum_singleton,
      getCurrentSystemTime_eq, getCurrentSystemTime_eq]
    ring
  have business : (averages s).business = meanWait enter leave (ofClass cust .business) := by
    rw [averages, served]
    exact average_eq (time _)
  have economy : (averages s).economy = meanWait enter leave (ofClass cust .economy) := by
    rw [averages, served, served]
    exact average_eq (time _)
  have all : (averages s).all = meanWait enter leave Finset.univ := by
    rw [averages, served, served, ofClass_compl classes, Finset.card_add_card_compl, ← Finset.card_univ]
    refine average_eq ?_
    rw [time, time, ofClass_compl classes, Finset.sum_add_sum_compl]
  refine ⟨enter, leave, waits, business, economy, all, fun q none => ?_, fun m printed => ?_⟩
  · rw [served, Finset.card_eq_zero] at none
    rw [time, none, Finset.sum_empty]
  · have mean : ∃ customers, meanWait enter leave customers = some m := by
      simp only [List.mem_cons, List.not_mem_nil, or_false, business, economy, all] at printed
      rcases printed with same | same | same <;> exact ⟨_, same.symm⟩
    obtain ⟨customers, mean⟩ := mean
    have order : ∀ i, initTime.seconds ≤ (enter i).seconds ∧ (enter i).seconds ≤ (leave i).seconds := fun i =>
      ⟨Timeval.seconds_le.2 ((List.pairwise_cons.1 clock.forward).1 _ (waits i).enterMem),
        Timeval.seconds_le.2 (waits i).forward⟩
    refine ⟨le_meanWait mean fun i => by linarith [(order i).2], fun stop last => meanWait_le mean fun i => ?_⟩
    have before := Timeval.seconds_le.2 (last _ (waits i).leaveMem)
    linarith [(order i).1]

/-- Two customers come at the same time, 0.1 seconds after the start. -/
def mixedTimes : List Timeval := [⟨100, 100000⟩, ⟨100, 100000⟩, ⟨100, 400000⟩, ⟨100, 600000⟩]

theorem mixed_clocked : Clocked ⟨100, 0⟩ mixedTimes mixedRun := by
  refine ⟨?_, by decide⟩
  show [(1 : Rat), 1, 4, 6] = _
  norm_num [mixedTimes, getCurrentSystemTime, Timeval.micros]

theorem averages_exact_mixed :
    ∃ enter leave, Reported ⟨100, 0⟩ mixedTimes mixed mixedRun (mixedRun.foldl (next mixed) (start 2)) enter leave :=
  averages_exact mixed_classes (Run.of_check (by decide)) (by decide) mixed_clocked

end CSC360.Clerks
