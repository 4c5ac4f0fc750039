import CSC360.Clerks.DeskRealization
import CSC360.Clerks.Quiescence
import Mathlib.Data.List.FinRange

/-!
# Serving everybody

The simulation can deadlock, but it need not: **whatever the customers, the order in which they
come and what the clock shows, some run without spurious wake-ups, whose steps all find their
partners, serves everybody in that order, whichever queues they are in** (`everybody_servable`).

At the desks each customer comes when the one before it is done, and is served by clerk 1
(`visits`). The run that shows this, and nothing else at the desks, leaves all clerks idle; then
they block.
-/

namespace CSC360.Clerks

open CSC360.Base Function

variable {n : Nat} {cust : Fin n → Customer} {enter leave : Fin n → Rat} {as : List (Action n)} {s : State n}
variable {a : Action n} {q : Class} {i : Fin n} {k : Fin 5}

/-! ## The visits -/

/-- The queue of a customer of one of the classes. -/
def Customer.class (c : Customer) : Class := if c.classType = 1 then .business else .economy

theorem currQueue_class {c : Customer} (isClass : c.classType = 0 ∨ c.classType = 1) : c.currQueue = some c.class := by
  rcases isClass with economy | business
  · simp [Customer.currQueue, Customer.class, economy]
  · simp [Customer.currQueue, Customer.class, business]

/-- The customer comes, is served and goes. -/
def visit (k : Fin 5) (q : Class) (i : Fin n) : List (DeskEvent n) := [.join q i, .call k q i, .dismiss k i]

/-- The customers come one after the other and are served by clerk 1. -/
def visits (cust : Fin n → Customer) (order : List (Fin n)) : List (DeskEvent n) :=
  order.flatMap fun i => visit (clerkOf 1) (cust i).class i

section Visits

variable {order : List (Fin n)}

theorem visits_cons (i : Fin n) (order : List (Fin n)) :
    visits cust (i :: order) = visit (clerkOf 1) (cust i).class i ++ visits cust order :=
  List.flatMap_cons

theorem visit_run (k : Fin 5) (q : Class) (i : Fin n) :
    Run BusinessFirst Desks.next Desks.opened (visit k q i) Desks.opened := by
  have joins : BusinessFirst Desks.opened (.join q i) := ⟨trivial, by simp⟩
  have calls : BusinessFirst (Desks.opened.next (.join q i)) (.call k q i) := by
    refine ⟨⟨rfl, by simp [Desks.next, Desks.opened]⟩, fun economy => ?_⟩
    cases q with
    | business => cases economy
    | economy => rfl
  have ends : BusinessFirst ((Desks.opened.next (.join q i)).next (.call k q i)) (.dismiss k i) :=
    ⟨by simp [Desks.Can, Desks.next], by simp⟩
  have closed : ((Desks.opened.next (.join q i)).next (.call k q i)).next (.dismiss k i) = Desks.opened := by
    simp [Desks.next, Desks.opened]
  have run := ((Run.single joins).append (.single calls)).append (.single ends)
  rwa [closed] at run

theorem visits_run (cust : Fin n → Customer) (order : List (Fin n)) :
    Run BusinessFirst Desks.next Desks.opened (visits cust order) Desks.opened := by
  induction order with
  | nil => exact .start
  | cons i order ih =>
    rw [visits_cons]
    exact (visit_run _ _ i).append ih

theorem joined_visits (q : Class) : Desks.joined q (visits cust order) = order.filter fun i => (cust i).class = q := by
  induction order with
  | nil => rfl
  | cons i order ih =>
    rw [visits_cons, Desks.joined_append, ih, List.filter_cons]
    by_cases here : (cust i).class = q <;> simp [Desks.joined, visit, here]

theorem visits_once (classes : ∀ i, (cust i).classType = 0 ∨ (cust i).classType = 1) (once : order.Nodup) :
    ComeOnce cust (visits cust order) := by
  intro q
  rw [joined_visits]
  refine ⟨once.filter _, fun i mem => ?_⟩
  rw [currQueue_class (classes i), of_decide_eq_true (List.mem_filter.1 mem).2]

end Visits

/-! ## The clerks block -/

namespace Play

variable {es : List (DeskEvent n)} {p : Scene n}

section

variable (classes : ∀ i, (cust i).classType = 0 ∨ (cust i).classType = 1) (empty : ∀ q, (desksOf es).line q = [])

include classes empty

/-- The clerk looks into both queues, which are empty, and blocks. -/
theorem sleeps (play : Play cust enter leave es p as s) (idle : p.clerk k = .idle) (free : p.request = none) :
    ∃ as' s', Play cust enter leave es { p with clerk := update p.clerk k .blockedRequest } as' s' := by
  have locked := play.clerkStep k .testingBusiness k
    (by simp only [clerkNext, play.clerk_eq, idle, play.request_eq, free, if_true])
  have noBusiness := locked.clerkStep k .testingEconomy k
    (by simp only [clerkNext, locked.clerk_eq, update_self, (locked.size classes .business).2 (empty .business),
      locked.request_eq, if_true])
  have noEconomy := noBusiness.clerkStep k .blocking k
    (by simp only [clerkNext, noBusiness.clerk_eq, update_self, (noBusiness.size classes .economy).2 (empty .economy),
      noBusiness.request_eq, if_true])
  have blocked := noEconomy.clerkStep k .blockedRequest none
    (by simp only [clerkNext, noEconomy.clerk_eq, update_self])
  simp only [update_idem, ← free] at blocked
  exact ⟨_, _, blocked⟩

/-- All clerks block, one after the other. -/
theorem all_sleep (play : Play cust enter leave es p as s) {ks : List (Fin 5)} (once : ks.Nodup)
    (idle : ∀ k ∈ ks, p.clerk k = .idle) (free : p.request = none) :
    ∃ as' s', Play cust enter leave es { p with clerk := fun k => if k ∈ ks then .blockedRequest else p.clerk k }
      as' s' := by
  induction ks generalizing p as s with
  | nil => exact ⟨as, s, by simpa using play⟩
  | cons k ks ih =>
    obtain ⟨new, once⟩ := List.nodup_cons.1 once
    obtain ⟨_, _, first⟩ := play.sleeps classes empty (idle k List.mem_cons_self) free
    have others : ∀ k' ∈ ks, update p.clerk k .blockedRequest k' = .idle := by
      intro k' mem
      have other : k' ≠ k := fun same => new (same ▸ mem)
      exact (update_of_ne other _ _).trans (idle k' (List.mem_cons_of_mem _ mem))
    obtain ⟨as', s', rest⟩ := ih first once others free
    have clerks : (fun k' => if k' ∈ k :: ks then .blockedRequest else p.clerk k') =
        fun k' => if k' ∈ ks then .blockedRequest else update p.clerk k .blockedRequest k' := by
      funext k'
      by_cases here : k' = k
      · rw [here, if_pos List.mem_cons_self, update_self, ite_self]
      · rw [update_of_ne here]
        simp only [List.mem_cons, here, false_or]
    rw [clerks]
    exact ⟨as', s', rest⟩

end

end Play

/-! ## What the run shows -/

/-- The customers in the order of their arrivals. -/
def arrivals (as : List (Action n)) : List (Fin n) :=
  as.filterMap fun
    | .enqueue i _ _ => some i
    | _ => none

theorem Reads.enters {r : Rat} (reads : Reads enter leave a) (shows : enterReading i a = some r) : r = enter i := by
  cases a with
  | enqueue j q reading =>
    obtain ⟨rfl, rfl⟩ : i = j ∧ reading = r := by simpa [enterReading] using shows
    exact reads
  | _ => cases shows

theorem Reads.leaves {r : Rat} (reads : Reads enter leave a) (shows : leaveReading i a = some r) : r = leave i := by
  cases a with
  | leave j q reading =>
    obtain ⟨rfl, rfl⟩ : i = j ∧ reading = r := by simpa [leaveReading] using shows
    exact reads
  | _ => cases shows

/-- The arrivals are in the trace. -/
theorem Play.arrivals_eq {es : List (DeskEvent n)} {p : Scene n} (play : Play cust enter leave es p as s) :
    arrivals as = es.filterMap fun
      | .join _ i => some i
      | _ => none := by
  rw [← play.shown]
  refine (trace_filterMap (fun s a => ?_) _ _ _).symm
  cases a <;> rfl

/-- The readings of a customer that is done are the given ones. -/
theorem Play.readings_eq {es : List (DeskEvent n)} {p : Scene n} (play : Play cust enter leave es p as s)
    (own : (cust i).currQueue = some q) (done : s.customer i = .done) :
    enterReadings i as = [enter i] ∧ leaveReadings i as = [leave i] := by
  have given : ∀ a ∈ as, Reads enter leave a := by
    refine play.run.invariant (I := fun as _ => ∀ a ∈ as, Reads enter leave a) (by simp) ?_
    intro as s a _ before can b mem
    rcases List.mem_append.1 mem with old | new
    · exact before b old
    · rw [List.mem_singleton.1 new]
      exact can.reads
  have past := readings play.reaches own
  rw [Readings, done] at past
  obtain ⟨entered, reading, left⟩ := past
  have enters : ∀ r ∈ enterReadings i as, r = enter i := by
    intro r mem
    obtain ⟨a, taken, shows⟩ := List.mem_filterMap.1 mem
    exact (given a taken).enters shows
  have leaves : ∀ r ∈ leaveReadings i as, r = leave i := by
    intro r mem
    obtain ⟨a, taken, shows⟩ := List.mem_filterMap.1 mem
    exact (given a taken).leaves shows
  rw [entered] at enters
  rw [left] at leaves
  exact ⟨by rw [entered, enters _ (List.mem_singleton_self _)], by rw [left, leaves _ (List.mem_singleton_self _)]⟩

/-- **Everybody can be served** in the order in which the customers come, whatever that is and whatever the
clock shows: each joins its queue, leaves it for clerk 1 and is done before the next one comes. -/
theorem everybody_servable (classes : ∀ i, (cust i).classType = 0 ∨ (cust i).classType = 1) {order : List (Fin n)}
    (once : order.Nodup) (everybody : ∀ i, i ∈ order) (enter leave : Fin n → Rat) :
    ∃ as s, Run (fun s a => Enabled cust s a ∧ Orderly s a ∧ a.spurious = false) (next cust) (start n) as s ∧
      Finished cust as s ∧ arrivals as = order ∧ trace seen (next cust) (start n) as = visits cust order ∧
      ∀ i, enterReadings i as = [enter i] ∧ leaveReadings i as = [leave i] := by
  obtain ⟨p, _, _, rest, play⟩ := realized classes enter leave (visits_run cust order) (visits_once classes once)
  have closed : desksOf (visits cust order) = Desks.opened := (visits_run cust order).foldl
  have empty : ∀ q, (desksOf (visits cust order)).line q = [] := fun q => by rw [closed]; rfl
  have idle : ∀ k, p.clerk k = .idle := fun k => rest.free k (by rw [closed]; rfl)
  obtain ⟨as, s, asleep⟩ := play.all_sleep classes empty (List.nodup_finRange 5) (fun k _ => idle k) rest.request
  have done : ∀ i, s.customer i = .done := by
    intro i
    have loc : s.customer i = p.customer i := congrFun (congrArg Scene.customer asleep.scene) i
    exact loc.trans (rest.gone (clerkOf 1) i (List.mem_flatMap.2 ⟨i, everybody i, by simp [visit]⟩))
  have blocked : ∀ k, s.clerk k = .blockedRequest := by
    intro k
    rw [asleep.clerk_eq]
    exact if_pos (List.mem_finRange k)
  refine ⟨as, s, asleep.run.mono fun _ _ can => ⟨can.enabled, can.orderly, can.genuine⟩,
    finished_of_done asleep.reaches done fun k => .inl (blocked k), ?_, asleep.shown,
    fun i => asleep.readings_eq (currQueue_class (classes i)) (done i)⟩
  rw [asleep.arrivals_eq, visits, List.filterMap_flatMap]
  simp [visit, List.flatMap_singleton']

/-- The economy customer comes first. -/
theorem everybody_servable_mixed :
    ∃ as s, Run (fun s a => Enabled mixed s a ∧ Orderly s a ∧ a.spurious = false) (next mixed) (start 2) as s ∧
      Finished mixed as s ∧ arrivals as = [customer2, customer1] ∧
      trace seen (next mixed) (start 2) as =
        visit (clerkOf 1) .economy customer2 ++ visit (clerkOf 1) .business customer1 ∧
      ∀ i, enterReadings i as = [1] ∧ leaveReadings i as = [4] :=
  everybody_servable mixed_classes (by decide) (by decide) (fun _ => 1) (fun _ => 4)

end CSC360.Clerks
