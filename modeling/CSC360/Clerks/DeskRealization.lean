import CSC360.Clerks.DeskRefinement
import CSC360.Clerks.Progress
import CSC360.Clerks.Statistics

/-!
# Threads for the desks

The other direction: **whatever happens at the desks, some run of the threads shows it**
(`threads_realize_desks`), if each customer comes once and economy customers are called only while
no business customer waits. The run has no spurious wake-ups and its steps find their partners.

Each event is a block of steps between two states at rest (`Rest`), in which the clerks with free
desks are idle and the others wait for their customers. A block for `call` also wakes the customers
behind the first one: they stay awake, which changes nothing. What the queues hold in between is
known from the refinement.
-/

namespace CSC360.Clerks

open CSC360.Base Function

variable {n : Nat} {cust : Fin n → Customer} {enter leave : Fin n → Rat} {as : List (Action n)} {s : State n}
variable {a : Action n} {q : Class} {i : Fin n} {k : Fin 5}

/-- The clock shows the given readings. -/
def Reads (enter leave : Fin n → Rat) : Action n → Prop
  | .enqueue i _ reading => reading = enter i
  | .leave i _ reading => reading = leave i
  | _ => True

/-- A step of a thread's own that finds its partner, at the given time. -/
structure Can (cust : Fin n → Customer) (enter leave : Fin n → Rat) (s : State n) (a : Action n) : Prop where
  enabled : Enabled cust s a
  orderly : Orderly s a
  genuine : a.spurious = false
  withClerk : LeavesWithClerk s a
  reads : Reads enter leave a

/-- A run of such steps from the start. -/
abbrev Serves (cust : Fin n → Customer) (enter leave : Fin n → Rat) : List (Action n) → State n → Prop :=
  Run (Can cust enter leave) (next cust) (start n)

abbrev DeskEvent (n : Nat) := Desks.Event Class (Fin 5) (Fin n)

/-- The desks after the events. -/
def desksOf (es : List (DeskEvent n)) : Desks Class (Fin 5) (Fin n) := es.foldl Desks.next Desks.opened

/-- The variables and the threads' places that decide what the threads can do next. -/
structure Scene (n : Nat) where
  customer : Fin n → CustomerLoc
  clerk : Fin 5 → ClerkLoc
  request : Option (Fin 5)
  mutex : Class → Option (Fin n)
  winner : Class → Bool
  status : Class → Int

def State.scene (s : State n) : Scene n where
  customer := s.customer
  clerk := s.clerk
  request := s.requestMutex
  mutex q := (s.vars q).mutex
  winner q := (s.vars q).winner
  status q := (s.vars q).status

/-- The run has shown the events and come to the scene. -/
structure Play (cust : Fin n → Customer) (enter leave : Fin n → Rat) (es : List (DeskEvent n)) (p : Scene n)
    (as : List (Action n)) (s : State n) : Prop where
  run : Serves cust enter leave as s
  shown : trace seen (next cust) (start n) as = es
  scene : s.scene = p

namespace Play

variable {es : List (DeskEvent n)} {p : Scene n}

theorem reaches (play : Play cust enter leave es p as s) : Reaches cust as s := play.run.mono fun _ _ can => can.enabled

theorem clerk_eq (play : Play cust enter leave es p as s) (k : Fin 5) : s.clerk k = p.clerk k :=
  congrFun (congrArg Scene.clerk play.scene) k

theorem request_eq (play : Play cust enter leave es p as s) : s.requestMutex = p.request :=
  congrArg Scene.request play.scene

/-- A step that shows nothing. -/
theorem moved {p' : Scene n} (play : Play cust enter leave es p as s) (can : Can cust enter leave s a)
    (hidden : seen s a = none) (scene : (next cust s a).scene = p') :
    Play cust enter leave es p' (as ++ [a]) (next cust s a) where
  run := play.run.step can
  shown := by rw [play.run.trace_snoc, play.shown, hidden, Option.toList_none, List.append_nil]
  scene := scene

/-- The clerk takes a step of its own. -/
theorem clerkStep (play : Play cust enter leave es p as s) (k : Fin 5) (loc : ClerkLoc) (request : Option (Fin 5))
    (moves : clerkNext s k = some (loc, request)) :
    Play cust enter leave es { p with clerk := update p.clerk k loc, request } (as ++ [.clerk k])
      (next cust s (.clerk k)) := by
  obtain rfl := play.scene
  refine play.moved ⟨?_, trivial, rfl, trivial, trivial⟩ rfl ?_
  · rw [Enabled, moves]
    rfl
  · simp only [next, moves, State.scene]

theorem enqueue (play : Play cust enter leave es p as s) (own : (cust i).currQueue = some q)
    (loc : p.customer i = .arriving) (free : p.mutex q = none) :
    Play cust enter leave (es ++ [.join q i])
      { p with customer := update p.customer i .enqueued, mutex := update p.mutex q (some i) }
      (as ++ [.enqueue i q (enter i)]) (next cust s (.enqueue i q (enter i))) := by
  obtain rfl := play.scene
  obtain ⟨heap, queue, done⟩ := enqueue_succeeds (integrity play.reaches).queues i q
  refine ⟨play.run.step ⟨⟨own, loc, free⟩, trivial, rfl, trivial, rfl⟩, ?_, ?_⟩
  · rw [play.run.trace_snoc, play.shown]
    rfl
  · rw [enqueue_step done]
    simp only [State.scene, update_view, update_eq_self]

/-- No clerk is blocked that the signal could wake. -/
theorem signalArrival (play : Play cust enter leave es p as s) (loc : p.customer i = .enqueued)
    (awake : ∀ k, p.clerk k ≠ .blockedRequest) :
    Play cust enter leave es { p with customer := update p.customer i .signalled } (as ++ [.signalArrival i none])
      (next cust s (.signalArrival i none)) := by
  obtain rfl := play.scene
  exact play.moved ⟨⟨loc, awake⟩, trivial, rfl, trivial, trivial⟩ rfl rfl

theorem wait (play : Play cust enter leave es p as s) (own : (cust i).currQueue = some q)
    (loc : p.customer i = .signalled) :
    Play cust enter leave es { p with customer := update p.customer i .waiting, mutex := update p.mutex q none }
      (as ++ [.wait i q]) (next cust s (.wait i q)) := by
  obtain rfl := play.scene
  refine play.moved ⟨⟨own, loc⟩, trivial, rfl, trivial, trivial⟩ rfl ?_
  simp only [next, State.scene, update_view, update_eq_self]

theorem startService {c : Int} (play : Play cust enter leave es p as s) (own : (cust i).currQueue = some q)
    (loc : p.customer i = .admitted c) (closed : p.winner q = true) :
    ∃ status, (∀ q', p.status q' = 0 → status q' = 0) ∧
      Play cust enter leave es { p with customer := update p.customer i (.serving c), status }
        (as ++ [.startService i q c]) (next cust s (.startService i q c)) := by
  obtain rfl := play.scene
  cases q with
  | business =>
    have notOffered : ¬ Offered s .business := fun offered => absurd (offered.1.symm.trans closed) (by decide)
    refine ⟨update (fun q => (s.vars q).status) .business 0, fun q' unset => ?_,
      play.moved ⟨⟨own, loc⟩, notOffered, rfl, trivial, trivial⟩ rfl ?_⟩
    · cases q' with
      | business => exact update_self _ _ _
      | economy => exact unset
    · simp only [next, State.scene, update_view, update_eq_self]
  | economy => exact ⟨_, fun _ unset => unset, play.moved ⟨⟨own, loc⟩, trivial, rfl, trivial, trivial⟩ rfl rfl⟩

/-- The customer signals completion to its clerk, which waits for it. -/
theorem finish (play : Play cust enter leave es p as s) (loc : p.customer i = .serving (clerkId k))
    (waits : p.clerk k = .blockedOwn q) :
    Play cust enter leave (es ++ [.dismiss k i])
      { p with customer := update p.customer i .done, clerk := update p.clerk k .wokenOwn }
      (as ++ [.finish i (clerkId k)]) (next cust s (.finish i (clerkId k))) := by
  obtain rfl := play.scene
  have released : (s.clerk k).release = .wokenOwn := by rw [show s.clerk k = .blockedOwn q from waits, ClerkLoc.release]
  have orderly : Orderly s (.finish i (clerkId k)) := by
    rw [Orderly, clerkOf_clerkId, released, show s.clerk k = .blockedOwn q from waits]
    exact fun same => by cases same
  refine ⟨play.run.step ⟨loc, orderly, rfl, trivial, trivial⟩, ?_, ?_⟩
  · rw [play.run.trace_snoc, play.shown, seen, clerkOf_clerkId, Option.toList_some]
  · simp only [next, State.scene, clerkOf_clerkId, released]

section

variable (classes : ∀ i, (cust i).classType = 0 ∨ (cust i).classType = 1)

include classes

/-- The lines of the desks are the queues. -/
theorem nodes (play : Play cust enter leave es p as s) (q : Class) :
    ∃ l, QueueState cust as s q l ∧ nodeIds cust l = ((desksOf es).line q).map fun i => (cust i).id := by
  obtain ⟨d, spec, state⟩ :=
    at_desks classes (play.run.mono fun _ _ can => ⟨can.enabled, can.genuine, can.withClerk⟩)
  have ended := spec.foldl
  rw [Clerks.shown, trace_map, play.shown] at ended
  have names : d = (desksOf es).map fun i => (cust i).id :=
    ended.symm.trans (Desks.foldl_map _ Desks.opened es)
  obtain ⟨l, nodes, same⟩ := state.nodes q
  exact ⟨l, nodes, by rw [same, names]; rfl⟩

theorem size (play : Play cust enter leave es p as s) (q : Class) :
    (s.vars q).queue.size = 0 ↔ (desksOf es).line q = [] := by
  obtain ⟨l, nodes, same⟩ := play.nodes classes q
  rw [nodes.holds.size_eq_zero, ← List.map_eq_nil_iff (f := fun i => (cust i).id), ← same, nodeIds,
    List.map_eq_nil_iff]

/-- The first customer of the line finds itself at the head. -/
theorem checkHead (play : Play cust enter leave es p as s) (first : ((desksOf es).line q).head? = some i) :
    checkHead cust s i q = some true := by
  obtain ⟨l, nodes, same⟩ := play.nodes classes q
  obtain ⟨rest, split⟩ := List.head?_eq_some_iff.1 first
  rw [split] at same
  cases l with
  | nil => cases same
  | cons c l =>
    rw [nodeIds_cons, List.map_cons, List.cons.injEq] at same
    rw [Clerks.checkHead, nodes.holds.head_cons]
    simp [same.1]

/-- The clerk selects a queue that is not empty and has no open offer. -/
theorem select (play : Play cust enter leave es p as s) (loc : p.clerk k = .selecting q) (free : p.mutex q = none)
    (closed : p.winner q = true ∨ p.status q = 0) (some : (desksOf es).line q ≠ []) :
    Play cust enter leave es
      { p with
        customer := broadcast cust q p.customer
        clerk := update p.clerk k (.selected q)
        winner := update p.winner q false
        status := update p.status q (clerkId k) }
      (as ++ [.select k q]) (next cust s (.select k q)) := by
  obtain rfl := play.scene
  have notOffered : ¬ Offered s q := by
    rintro ⟨opened, set⟩
    rcases closed with closed | unset
    · exact absurd (opened.symm.trans closed) (by decide)
    · exact set unset
  refine play.moved ⟨⟨loc, free⟩, ⟨(play.size classes q).not.2 some, notOffered⟩, rfl, trivial, trivial⟩ rfl ?_
  simp only [next, State.scene, update_view, update_eq_self]

/-- The first customer of the line takes the clerk's offer. -/
theorem leaves (play : Play cust enter leave es p as s) (own : (cust i).currQueue = some q)
    (loc : p.customer i = .woken) (free : p.mutex q = none) (opened : p.winner q = false)
    (status : p.status q = clerkId k) (first : ((desksOf es).line q).head? = some i) :
    Play cust enter leave (es ++ [.call k q i])
      { p with customer := update p.customer i (.admitted (clerkId k)), winner := update p.winner q true }
      (as ++ [.leave i q (leave i)]) (next cust s (.leave i q (leave i))) := by
  obtain rfl := play.scene
  have named : (s.vars q).status = clerkId k := status
  have enabled : Enabled cust s (.leave i q (leave i)) := ⟨own, loc, free, play.checkHead classes first, opened⟩
  obtain ⟨queue, done⟩ := leave_succeeds (integrity play.reaches).queues enabled
  have withClerk : (s.vars q).status ≠ 0 := by
    rw [named]
    exact clerkId_ne_zero k
  refine ⟨play.run.step ⟨enabled, trivial, rfl, withClerk, rfl⟩, ?_, ?_⟩
  · rw [play.run.trace_snoc, play.shown, seen, named, clerkOf_clerkId, Option.toList_some]
  · rw [leave_step done]
    simp only [State.scene, update_view, update_eq_self]
    rw [named]

/-- A clerk finds the first customer that is to be called: it looks into the business queue first. -/
theorem looks (play : Play cust enter leave es p as s) (idle : p.clerk k = .idle) (free : p.request = none)
    (some : (desksOf es).line q ≠ []) (first : q = .economy → (desksOf es).line .business = []) :
    ∃ as' s', Play cust enter leave es { p with clerk := update p.clerk k (.selecting q) } as' s' := by
  have locked := play.clerkStep k .testingBusiness k
    (by simp only [clerkNext, play.clerk_eq, idle, play.request_eq, free, if_true])
  cases q with
  | business =>
    have tested := locked.clerkStep k .choosingBusiness none
      (by simp only [clerkNext, locked.clerk_eq, update_self, (locked.size classes .business).not.2 some, if_false])
    have chosen := tested.clerkStep k (.selecting .business) none
      (by simp [clerkNext, tested.clerk_eq, (tested.size classes .business).not.2 some, tested.request_eq])
    simp only [update_idem, ← free] at chosen
    exact ⟨_, _, chosen⟩
  | economy =>
    have none := first rfl
    have passed := locked.clerkStep k .testingEconomy k
      (by simp only [clerkNext, locked.clerk_eq, update_self, (locked.size classes .business).2 none, locked.request_eq,
        if_true])
    have tested := passed.clerkStep k .choosingBusiness .none
      (by simp only [clerkNext, passed.clerk_eq, update_self, (passed.size classes .economy).not.2 some, if_false])
    have again := tested.clerkStep k .choosingEconomy .none
      (by simp [clerkNext, tested.clerk_eq, (tested.size classes .business).2 none, tested.request_eq])
    have chosen := again.clerkStep k (.selecting .economy) .none
      (by simp [clerkNext, again.clerk_eq, (again.size classes .economy).not.2 some, again.request_eq])
    simp only [update_idem, ← free] at chosen
    exact ⟨_, _, chosen⟩

end

end Play

/-! ## One event -/

theorem desksOf_snoc (es : List (DeskEvent n)) (e : DeskEvent n) : desksOf (es ++ [e]) = (desksOf es).next e := by
  rw [desksOf, List.foldl_append]
  rfl

theorem joined_snoc {es : List (DeskEvent n)} (q q' : Class) (i : Fin n) :
    Desks.joined q' (es ++ [.join q i]) = Desks.joined q' es ++ if q = q' then [i] else [] := by
  rw [Desks.joined_append]
  by_cases here : q = q' <;> simp [Desks.joined, here]

/-- Whoever has not joined yet had not joined before. -/
theorem not_joined {es : List (DeskEvent n)} {e : DeskEvent n} (never : ∀ q, i ∉ Desks.joined q (es ++ [e]))
    (q : Class) : i ∉ Desks.joined q es := by
  have later := never q
  rw [Desks.joined_append] at later
  exact fun mem => later (List.mem_append_left _ mem)

/-- Between two events: the clerks are idle or wait for the customers at their desks, and nobody
holds a mutex or has an open offer. -/
structure Rest (cust : Fin n → Customer) (es : List (DeskEvent n)) (p : Scene n) : Prop where
  request : p.request = none
  mutex : ∀ q, p.mutex q = none
  closed : ∀ q, p.winner q = true ∨ p.status q = 0
  free : ∀ k, (desksOf es).desk k = none → p.clerk k = .idle
  busy : ∀ k i, (desksOf es).desk k = some i →
    p.customer i = .serving (clerkId k) ∧ ∃ q, p.clerk k = .blockedOwn q
  waiting : ∀ q i, i ∈ (desksOf es).line q → (cust i).currQueue = some q ∧ (p.customer i).atWait = true
  away : ∀ i, (∀ q, i ∉ Desks.joined q es) → p.customer i = .arriving
  gone : ∀ k i, .dismiss k i ∈ es → p.customer i = .done

namespace Rest

variable {es : List (DeskEvent n)} {p : Scene n}

theorem start : Rest cust [] (Clerks.start n).scene where
  request := rfl
  mutex _ := rfl
  closed _ := .inr rfl
  free _ _ := rfl
  busy k i occupied := by cases occupied
  waiting q i mem := by cases mem
  away _ _ := rfl
  gone k i mem := by cases mem

/-- The customer has come to its line. -/
theorem join (rest : Rest cust es p) (own : (cust i).currQueue = some q) (new : ∀ q, i ∉ Desks.joined q es) :
    Rest cust (es ++ [.join q i]) { p with customer := update p.customer i .waiting } := by
  have away := rest.away i new
  have others : ∀ (P : CustomerLoc → Prop) (j : Fin n), ¬ P .arriving → P (p.customer j) →
      P (update p.customer i .waiting j) :=
    fun P j elsewhere => update_forth P (fun here => absurd (away ▸ here) elsewhere) j
  refine ⟨rest.request, rest.mutex, rest.closed, fun k empty => ?_, fun k j occupied => ?_, fun q' j mem => ?_,
    fun j never => ?_, fun k j mem => ?_⟩
  · rw [desksOf_snoc] at empty
    exact rest.free k empty
  · rw [desksOf_snoc] at occupied
    obtain ⟨loc, waits⟩ := rest.busy k j occupied
    exact ⟨others (· = .serving (clerkId k)) j (by simp) loc, waits⟩
  · rw [desksOf_snoc] at mem
    rcases Desks.mem_line_join.1 mem with before | ⟨rfl, rfl⟩
    · obtain ⟨own', loc⟩ := rest.waiting q' j before
      exact ⟨own', others (CustomerLoc.atWait · = true) j (by simp [CustomerLoc.atWait]) loc⟩
    · exact ⟨own, by simp only [update_self]; rfl⟩
  · have other : j ≠ i := by
      rintro rfl
      exact never q (by simp [joined_snoc])
    exact (update_of_ne other _ _).trans (rest.away j (not_joined never))
  · have before : .dismiss k j ∈ es := by simpa using mem
    exact others (· = .done) j (by simp) (rest.gone k j before)

/-- A customer of the line is called to the desk of the clerk that has selected its queue. -/
theorem call {p' : Scene n} (rest : Rest cust es p) (once : ((desksOf es).line q).Nodup)
    (can : (desksOf es).Can (.call k q i))
    (customer : p'.customer = update (broadcast cust q p.customer) i (.serving (clerkId k)))
    (clerk : p'.clerk = update p.clerk k (.blockedOwn q)) (request : p'.request = p.request)
    (mutex : p'.mutex = p.mutex) (closed : ∀ q, p'.winner q = true ∨ p'.status q = 0) :
    Rest cust (es ++ [.call k q i]) p' := by
  obtain ⟨own, waits⟩ := rest.waiting q i (List.mem_of_head? can.2)
  -- the broadcast reaches only customers that wait
  have others : ∀ (P : CustomerLoc → Prop) (j : Fin n), (∀ loc, P loc → loc.atWait = false) → P (p.customer j) →
      P (p'.customer j) := by
    intro P j elsewhere before
    have outside := elsewhere _ before
    have other : j ≠ i := by
      rintro rfl
      rw [outside] at waits
      cases waits
    have awake : p.customer j ≠ .waiting := by
      intro same
      rw [same] at outside
      cases outside
    rwa [customer, update_of_ne other, broadcast, if_neg fun waiting => awake waiting.1]
  refine ⟨by rw [request, rest.request], by simp only [mutex, rest.mutex, implies_true], closed, fun k' empty => ?_,
    fun k' j occupied => ?_, fun q' j mem => ?_, fun j never => ?_, fun k' j mem => ?_⟩
  · rw [desksOf_snoc, Desks.desk_call_none] at empty
    rw [clerk, update_of_ne empty.1]
    exact rest.free k' empty.2
  · rw [desksOf_snoc] at occupied
    rcases Desks.desk_call_some.1 occupied with ⟨rfl, rfl⟩ | ⟨other, before⟩
    · exact ⟨by rw [customer, update_self], q, by rw [clerk, update_self]⟩
    · obtain ⟨loc, q', blocked⟩ := rest.busy k' j before
      exact ⟨others (· = .serving (clerkId k')) j (by rintro _ rfl; rfl) loc, q', by
        rw [clerk, update_of_ne other, blocked]⟩
  · rw [desksOf_snoc, Desks.mem_line_call can once] at mem
    obtain ⟨own', loc⟩ := rest.waiting q' j mem.1
    have other : j ≠ i := by
      rintro rfl
      exact mem.2 (Option.some.inj (own.symm.trans own')) rfl
    refine ⟨own', ?_⟩
    rw [customer, update_of_ne other, broadcast_loc CustomerLoc.atWait rfl, loc]
  · exact others (· = .arriving) j (by rintro _ rfl; rfl) (rest.away j (not_joined never))
  · exact others (· = .done) j (by rintro _ rfl; rfl) (rest.gone k' j (by simpa using mem))

/-- The customer at the clerk's desk is done, and the clerk is idle again. -/
theorem dismiss (rest : Rest cust es p) (occupied : (desksOf es).desk k = some i) :
    Rest cust (es ++ [.dismiss k i])
      { p with customer := update p.customer i .done, clerk := update p.clerk k .idle } := by
  obtain ⟨served, -⟩ := rest.busy k i occupied
  have others : ∀ (P : CustomerLoc → Prop) (j : Fin n), (P (.serving (clerkId k)) → P .done) → P (p.customer j) →
      P (update p.customer i .done j) :=
    fun P j ends => update_forth P (served ▸ ends) j
  refine ⟨rest.request, rest.mutex, rest.closed, fun k' empty => ?_, fun k' j occupied' => ?_, fun q j mem => ?_,
    fun j never => ?_, fun k' j mem => ?_⟩
  · rw [desksOf_snoc, Desks.desk_dismiss_none] at empty
    rcases empty with rfl | empty
    · exact update_self _ _ _
    · exact update_forth (· = ClerkLoc.idle) (fun _ => rfl) k' (rest.free k' empty)
  · rw [desksOf_snoc, Desks.desk_dismiss_some] at occupied'
    obtain ⟨other, before⟩ := occupied'
    obtain ⟨loc, waits⟩ := rest.busy k' j before
    have names : clerkId k ≠ clerkId k' := fun same => other (clerkId_injective same).symm
    refine ⟨others (· = .serving (clerkId k')) j (by simp [names]) loc, ?_⟩
    simpa only [update_of_ne other] using waits
  · rw [desksOf_snoc] at mem
    obtain ⟨own, loc⟩ := rest.waiting q j mem
    exact ⟨own, others (CustomerLoc.atWait · = true) j (by simp [CustomerLoc.atWait]) loc⟩
  · exact others (· = .arriving) j (by simp) (rest.away j (not_joined never))
  · rcases List.mem_append.1 mem with before | same
    · exact others (· = .done) j (fun _ => rfl) (rest.gone k' j before)
    · cases List.mem_singleton.1 same
      exact update_self _ _ _

end Rest

/-- Some run has shown the events and come to rest. -/
def Realized (cust : Fin n → Customer) (enter leave : Fin n → Rat) (es : List (DeskEvent n)) : Prop :=
  ∃ p as s, Rest cust es p ∧ Play cust enter leave es p as s

namespace Realized

variable {es : List (DeskEvent n)}

theorem start : Realized cust enter leave [] := ⟨_, [], _, .start, .start, rfl, rfl⟩

/-- The customer enters its queue and waits; no clerk is blocked that its signal could wake. -/
theorem join (realized : Realized cust enter leave es) (own : (cust i).currQueue = some q)
    (new : ∀ q, i ∉ Desks.joined q es) : Realized cust enter leave (es ++ [.join q i]) := by
  obtain ⟨p, as, s, rest, play⟩ := realized
  have awake : ∀ k, p.clerk k ≠ .blockedRequest := by
    intro k
    cases found : (desksOf es).desk k with
    | none => simp [rest.free k found]
    | some j =>
      obtain ⟨-, q, blocked⟩ := rest.busy k j found
      simp [blocked]
  have entered := play.enqueue own (rest.away i new) (rest.mutex q)
  have signalled := entered.signalArrival (i := i) (update_self _ _ _) awake
  have waits := signalled.wait (i := i) (q := q) own (update_self _ _ _)
  have released : update p.mutex q none = p.mutex := by rw [← rest.mutex q, update_eq_self]
  simp only [update_idem, released] at waits
  exact ⟨_, _, _, rest.join own new, waits⟩

/-- The clerk selects the queue and waits, and the first customer of the line takes its offer. -/
theorem call (classes : ∀ i, (cust i).classType = 0 ∨ (cust i).classType = 1)
    (realized : Realized cust enter leave es) (once : ((desksOf es).line q).Nodup)
    (can : (desksOf es).Can (.call k q i)) (business : q = .economy → (desksOf es).line .business = []) :
    Realized cust enter leave (es ++ [.call k q i]) := by
  obtain ⟨p, as, s, rest, play⟩ := realized
  have mem : i ∈ (desksOf es).line q := List.mem_of_head? can.2
  obtain ⟨own, waits⟩ := rest.waiting q i mem
  obtain ⟨_, _, found⟩ := play.looks classes (rest.free k can.1) rest.request (List.ne_nil_of_mem mem) business
  have selected := found.select classes (update_self _ _ _) (rest.mutex q) (rest.closed q) (List.ne_nil_of_mem mem)
  have blocked := selected.clerkStep k (.blockedOwn q) p.request
    (by simp only [clerkNext, selected.clerk_eq, update_self, selected.request_eq])
  have woken : broadcast cust q p.customer i = .woken := by
    unfold broadcast
    split
    · rfl
    · rename_i awake
      cases found : p.customer i <;> simp_all [CustomerLoc.atWait]
  have left := blocked.leaves (i := i) (k := k) (q := q) classes own woken (rest.mutex q) (update_self _ _ _)
    (update_self _ _ _) can.2
  obtain ⟨status, unset, served⟩ := left.startService (i := i) own (update_self _ _ _) (update_self _ _ _)
  simp only [update_idem] at served
  refine ⟨_, _, _, ?_, served⟩
  refine rest.call once can rfl rfl rfl rfl fun q' => ?_
  by_cases here : q' = q
  · subst here
    exact .inl (update_self _ _ _)
  · rcases rest.closed q' with closed | before
    · exact .inl ((update_of_ne here _ _).trans closed)
    · exact .inr (unset q' ((update_of_ne here _ _).trans before))

/-- The customer signals completion, and the clerk comes back from its wait. -/
theorem dismiss (realized : Realized cust enter leave es) (can : (desksOf es).Can (.dismiss k i)) :
    Realized cust enter leave (es ++ [.dismiss k i]) := by
  obtain ⟨p, as, s, rest, play⟩ := realized
  obtain ⟨serving, q, blocked⟩ := rest.busy k i can
  have finished := play.finish serving blocked
  have idle := finished.clerkStep k .idle p.request
    (by simp only [clerkNext, finished.clerk_eq, update_self, finished.request_eq])
  simp only [update_idem] at idle
  exact ⟨_, _, _, rest.dismiss can, idle⟩

end Realized

/-! ## All events -/

/-- Each customer joins at most once, the line of its class. -/
def ComeOnce (cust : Fin n → Customer) (es : List (DeskEvent n)) : Prop :=
  ∀ q, (Desks.joined q es).Nodup ∧ ∀ i ∈ Desks.joined q es, (cust i).currQueue = some q

/-- An economy customer is called only while no business customer waits. -/
def BusinessFirst (d : Desks Class (Fin 5) (Fin n)) (e : DeskEvent n) : Prop :=
  d.Can e ∧ (e matches .call _ .economy _ → d.line .business = [])

instance (d : Desks Class (Fin 5) (Fin n)) : DecidablePred (BusinessFirst d) :=
  fun _ => inferInstanceAs (Decidable (_ ∧ (_ → _)))

section

variable {es : List (DeskEvent n)} {d : Desks Class (Fin 5) (Fin n)}

theorem ComeOnce.before {e : DeskEvent n} (once : ComeOnce cust (es ++ [e])) : ComeOnce cust es := by
  intro q
  obtain ⟨distinct, own⟩ := once q
  rw [Desks.joined_append] at distinct own
  exact ⟨distinct.of_append_left, fun i mem => own i (List.mem_append_left _ mem)⟩

/-- Whoever joins has not joined any line before. -/
theorem ComeOnce.new (once : ComeOnce cust (es ++ [.join q i])) :
    (cust i).currQueue = some q ∧ ∀ q', i ∉ Desks.joined q' es := by
  have own : (cust i).currQueue = some q := (once q).2 i (by simp [joined_snoc])
  refine ⟨own, fun q' mem => ?_⟩
  obtain rfl := Option.some.inj (((once.before q').2 i mem).symm.trans own)
  have twice := (once q').1
  rw [joined_snoc, if_pos rfl] at twice
  exact List.disjoint_of_nodup_append twice mem (List.mem_singleton_self i)

theorem realized (classes : ∀ i, (cust i).classType = 0 ∨ (cust i).classType = 1) (enter leave : Fin n → Rat)
    (run : Run BusinessFirst Desks.next Desks.opened es d) (once : ComeOnce cust es) : Realized cust enter leave es := by
  induction run with
  | start => exact .start
  | @step es d e run can ih =>
    have before := ih once.before
    obtain rfl : desksOf es = d := run.foldl
    cases e with
    | join q i =>
      obtain ⟨own, new⟩ := once.new
      exact before.join own new
    | call k q i =>
      have line := Desks.fifo (run.mono fun _ _ can => can.1) q
      have distinct : ((desksOf es).line q).Nodup := by
        have all := (once.before q).1
        rw [← line] at all
        exact all.of_append_right
      refine before.call classes distinct can.1 ?_
      rintro rfl
      exact can.2 rfl
    | dismiss k i => exact before.dismiss can.1

/-- **The threads realize the desks**: whatever comes to the desks, business customers being called
first, some run shows it whose steps find their partners. -/
theorem threads_realize_desks (classes : ∀ i, (cust i).classType = 0 ∨ (cust i).classType = 1)
    (run : Run BusinessFirst Desks.next Desks.opened es d) (once : ComeOnce cust es) :
    ∃ as s, Run (fun s a => Enabled cust s a ∧ Orderly s a ∧ a.spurious = false ∧ LeavesWithClerk s a) (next cust)
      (start n) as s ∧ trace seen (next cust) (start n) as = es := by
  obtain ⟨p, as, s, -, play⟩ := realized classes (fun _ => 0) (fun _ => 0) run once
  exact ⟨as, s, play.run.mono fun _ _ can => ⟨can.enabled, can.orderly, can.genuine, can.withClerk⟩, play.shown⟩

end

/-- The business customer comes while the economy customer is served, and is done first. -/
def crossed : List (DeskEvent 2) :=
  [.join .economy customer2, .call (clerkOf 1) .economy customer2, .join .business customer1,
    .call (clerkOf 5) .business customer1, .dismiss (clerkOf 5) customer1, .dismiss (clerkOf 1) customer2]

theorem threads_realize_desks_crossed :
    ∃ as s, Run (fun s a => Enabled mixed s a ∧ Orderly s a ∧ a.spurious = false ∧ LeavesWithClerk s a) (next mixed)
      (start 2) as s ∧ trace seen (next mixed) (start 2) as = crossed :=
  threads_realize_desks mixed_classes (Run.of_check (by decide)) fun q => by cases q <;> decide

end CSC360.Clerks
