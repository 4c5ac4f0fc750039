import CSC360.Clerks.Matching

/-!
# Progress

The program waits without rechecking a predicate, so it depends on its signals. **No
run ends in a deadlock if every step finds its partner**: a clerk selects a queue that
is not empty and has no open offer, the unlocked store `queue_status[1] = 0` finds no
open offer, and a customer signals completion to a clerk that is already blocked on its
own variable. The invariant (`Progress`) gives every waiting party somebody who is
awake: an open offer has a woken customer at the head of its queue, a clerk that has
selected has an open offer or a customer, and as long as a customer waits some clerk is
about to look at the queues.

`clerks_deadlock` is a run in which a completion signal comes before the clerk waits for
it; all five clerks end up waiting for customers that have left.
-/

namespace CSC360.Clerks

open CSC360.Base Function

variable {n : Nat} {cust : Fin n → Customer} {as : List (Action n)} {s s' : State n} {a : Action n}
variable {q : Class} {i : Fin n} {k : Fin 5}

/-- `winner_selected[q]` and `queue_status[q]` show an offer. -/
def QueueVars.offered (v : QueueVars n) : Prop := v.winner = false ∧ v.status ≠ 0

/-- The offer is the clerk's. -/
def QueueVars.offers (k : Fin 5) (v : QueueVars n) : Prop := v.winner = false ∧ v.status = clerkId k

/-- A clerk has selected the queue and no customer has left since. -/
def Offered (s : State n) (q : Class) : Prop := (s.vars q).offered

instance : Decidable (Offered s q) := inferInstanceAs (Decidable (_ ∧ _))

/-- The step finds its partner. -/
def Orderly (s : State n) : Action n → Prop
  | .select _ q => (s.vars q).queue.size ≠ 0 ∧ ¬ Offered s q
  | .startService _ .business _ => ¬ Offered s .business
  | .finish _ currClerk => (s.clerk (clerkOf currClerk)).release ≠ s.clerk (clerkOf currClerk)
  | _ => True

instance (s : State n) : DecidablePred (Orderly s)
  | .select _ _ => inferInstanceAs (Decidable (_ ∧ _))
  | .startService _ .business _ | .finish _ _ => inferInstanceAs (Decidable (¬ _))
  | .startService _ .economy _ | .enqueue _ _ _ | .signalArrival _ _ | .wait _ _ | .leave _ _ _
  | .rewait _ _ | .fault _ _ | .skip _ _ | .wakeCustomer _ | .clerk _ | .wakeClerk _ =>
    inferInstanceAs (Decidable True)

/-- Has signalled its arrival and is still in the loop. -/
def CustomerLoc.announced : CustomerLoc → Bool
  | .signalled | .waiting | .woken => true
  | _ => false

/-- Holds `request_queue_mutex`. -/
def ClerkLoc.requesting : ClerkLoc → Bool
  | .testingBusiness | .testingEconomy | .blocking => true
  | _ => false

/-- Not on its way to sleep past a customer of the queue. -/
def ClerkLoc.alert : ClerkLoc → Class → Bool
  | .testingEconomy, .business | .blocking, _ | .blockedRequest, _ => false
  | _, _ => true

/-- The clerk in the request mutex's critical section holds it. -/
def RequestHeld (s : State n) : Prop := ∀ k, (s.clerk k).requesting = true → s.requestMutex = some k

/-- As long as a customer waits, some clerk is about to look at its queue. -/
def Watched (cust : Fin n → Customer) (s : State n) : Prop :=
  ∀ i q, (cust i).currQueue = some q → (s.customer i).announced = true → ∃ k, (s.clerk k).alert q = true

/-- An open offer has a woken customer that finds itself at the head. -/
def Taken (cust : Fin n → Customer) (s : State n) : Prop :=
  ∀ q, Offered s q → ∃ i, (cust i).currQueue = some q ∧ s.customer i = .woken ∧ checkHead cust s i q = some true

/-- A clerk that has selected has an open offer or a customer. -/
def Served (s : State n) : Prop :=
  ∀ k q, (s.clerk k).selection = some q →
    (s.vars q).offers k ∨ ∃ i, (s.customer i).currClerk = some (clerkId k)

/-- Everybody who waits waits for somebody who is awake. -/
structure Progress (cust : Fin n → Customer) (s : State n) : Prop where
  held : RequestHeld s
  watched : Watched cust s
  taken : Taken cust s
  served : Served s

theorem Progress.start : Progress cust (start n) where
  held k requesting := by cases requesting
  watched i q _ announced := by cases announced
  taken q offered := absurd rfl offered.2
  served k q selection := by cases selection

/-! ## The clerks -/

/-- A clerk that moves without the request mutex. -/
theorem RequestHeld.moved {loc : ClerkLoc} (held : RequestHeld s) (clerk : s'.clerk = update s.clerk k loc)
    (same : s'.requestMutex = s.requestMutex) (without : loc.requesting = true → (s.clerk k).requesting = true) :
    RequestHeld s' := by
  intro k' requesting
  rw [same]
  rw [clerk] at requesting
  by_cases here : k' = k
  · subst here
    rw [update_self] at requesting
    exact held k' (without requesting)
  · rw [update_of_ne here] at requesting
    exact held k' requesting

/-- A clerk takes the mutex when it is free and releases only its own. -/
theorem ClerkMove.requestMutex {before loc : ClerkLoc} {requestMutex : Option (Fin 5)}
    (move : ClerkMove s k before loc requestMutex) :
    (loc.requesting = true → requestMutex = some k ∨ before.requesting = true ∧ requestMutex = s.requestMutex) ∧
      (requestMutex = s.requestMutex ∨ s.requestMutex = none ∨ before.requesting = true) := by
  cases move with
  | lock free | relock free => exact ⟨fun _ => .inl rfl, .inr (.inl free)⟩
  | noBusiness | noEconomy => exact ⟨fun _ => .inr ⟨rfl, rfl⟩, .inl rfl⟩
  | someBusiness | someEconomy | block => exact ⟨nofun, .inr (.inr rfl)⟩
  | _ => exact ⟨nofun, .inl rfl⟩

theorem RequestHeld.clerk (held : RequestHeld s) (enabled : Enabled cust s (.clerk k)) :
    RequestHeld (next cust s (.clerk k)) := by
  obtain ⟨loc, requestMutex, move, after⟩ := clerk_step enabled
  obtain ⟨takes, keeps⟩ := move.requestMutex
  rw [after]
  intro k' requesting
  simp only at requesting ⊢
  by_cases here : k' = k
  · subst here
    rw [update_self] at requesting
    rcases takes requesting with mine | ⟨before, same⟩
    · exact mine
    · rw [same, held k' before]
  · rw [update_of_ne here] at requesting
    have other := held k' requesting
    rcases keeps with same | free | mine
    · rw [same, other]
    · rw [free] at other
      cases other
    · exact absurd (Option.some.inj (other.symm.trans (held k mine))) here

theorem release_requesting {loc : ClerkLoc} (requesting : loc.release.requesting = true) :
    loc.requesting = true := by
  cases loc <;> exact requesting

theorem RequestHeld.step (held : RequestHeld s) (enabled : Enabled cust s a) : RequestHeld (next cust s a) := by
  cases quiet : a.movesClerk with
  | false =>
    obtain ⟨clerk, same⟩ := clerk_kept cust s quiet
    intro k
    rw [clerk, same]
    exact held k
  | true =>
    cases a with
    | signalArrival i woken =>
      cases woken with
      | none => exact held
      | some k => exact held.moved rfl rfl nofun
    | finish i c => exact held.moved rfl rfl release_requesting
    | clerk k => exact held.clerk enabled
    | select k q => exact held.moved rfl rfl nofun
    | wakeClerk k =>
      refine held.moved rfl rfl fun requesting => ?_
      split at requesting <;> cases requesting
    | _ => cases quiet

/-! ## The watch over the queues -/

theorem release_alert {loc : ClerkLoc} (alert : loc.alert q = true) : loc.release.alert q = true := by
  cases loc <;> exact alert

/-- A clerk goes to sleep only past an empty queue. -/
theorem ClerkMove.alert {before loc : ClerkLoc} {requestMutex : Option (Fin 5)}
    (move : ClerkMove s k before loc requestMutex) (alert : before.alert q = true) :
    loc.alert q = true ∨ (s.vars q).queue.size = 0 := by
  cases move with
  | noBusiness empty =>
    cases q with
    | economy => exact .inl rfl
    | business => exact .inr empty
  | noEconomy empty =>
    cases q with
    | economy => exact .inr empty
    | business => cases alert
  | block => cases alert
  | _ => exact .inl rfl

theorem alert_update {loc : ClerkLoc} (kept : (s.clerk k).alert q = true → loc.alert q = true) {k' : Fin 5}
    (alert : (s.clerk k').alert q = true) : (update s.clerk k loc k').alert q = true :=
  update_forth (fun loc : ClerkLoc => loc.alert q = true) kept k' alert

theorem alert_step (enabled : Enabled cust s a) {k : Fin 5} (alert : (s.clerk k).alert q = true) :
    ((next cust s a).clerk k).alert q = true ∨ (s.vars q).queue.size = 0 := by
  cases quiet : a.movesClerk with
  | false =>
    rw [(clerk_kept cust s quiet).1]
    exact .inl alert
  | true =>
    cases a with
    | signalArrival i woken =>
      cases woken with
      | none => exact .inl alert
      | some k' => exact .inl (alert_update (fun _ => rfl) alert)
    | finish i c => exact .inl (alert_update release_alert alert)
    | clerk k' =>
      obtain ⟨loc, requestMutex, move, after⟩ := clerk_step enabled
      rw [after]
      by_cases here : k = k'
      · subst here
        simp only [update_self]
        exact move.alert alert
      · simp only [update_of_ne here]
        exact .inl alert
    | select k' q' => exact .inl (alert_update (fun _ => rfl) alert)
    | wakeClerk k' =>
      refine .inl (alert_update (fun _ => ?_) alert)
      split <;> rfl
    | _ => cases quiet

/-- Only the arrival signal announces a customer. -/
theorem announced_step (enabled : Enabled cust s a) (other : ∀ i woken, a ≠ .signalArrival i woken) (j : Fin n)
    (announced : ((next cust s a).customer j).announced = true) : (s.customer j).announced = true := by
  have moved : ∀ {i : Fin n} {loc : CustomerLoc}, (loc.announced = true → (s.customer i).announced = true) →
      (update s.customer i loc j).announced = true → (s.customer j).announced = true :=
    fun back => update_back (fun loc : CustomerLoc => loc.announced = true) back j
  cases a with
  | enqueue i q reading | leave i q reading =>
    simp only [next] at announced
    split at announced <;> exact moved (by intro back; cases back) announced
  | signalArrival i woken => exact absurd rfl (other i woken)
  | wait i q => exact moved (fun _ => by rw [enabled.2]; rfl) announced
  | rewait i q => exact moved (fun _ => by rw [enabled.2.1]; rfl) announced
  | fault i q | skip i unset | startService i q c | finish i c => exact moved (by intro back; cases back) announced
  | wakeCustomer i => exact moved (fun _ => by rw [show s.customer i = .waiting from enabled]; rfl) announced
  | select k q =>
    simp only [next] at announced
    rwa [broadcast_loc CustomerLoc.announced rfl] at announced
  | clerk k =>
    obtain ⟨loc, requestMutex, -, after⟩ := clerk_step enabled
    rwa [after] at announced
  | wakeClerk k => exact announced

/-- Of two clerks that are not blocked, at most one is in the critical section of the
request mutex. -/
theorem RequestHeld.somebody (held : RequestHeld s) (awake : ∀ k, s.clerk k ≠ .blockedRequest) (q : Class) :
    ∃ k, (s.clerk k).alert q = true := by
  have alert : ∀ k, (s.clerk k).requesting = false → (s.clerk k).alert q = true := by
    intro k outside
    have unblocked := awake k
    cases found : s.clerk k <;> rw [found] at outside unblocked <;>
      first | rfl | exact absurd rfl unblocked | cases outside
  cases first : (s.clerk 0).requesting with
  | false => exact ⟨0, alert 0 first⟩
  | true =>
    refine ⟨1, alert 1 (Bool.eq_false_iff.2 fun second => ?_)⟩
    have both := (held 0 first).symm.trans (held 1 second)
    cases both

theorem Watched.step (watched : Watched cust s) (held : RequestHeld s) (integrity : Integrity cust as s)
    (enabled : Enabled cust s a) : Watched cust (next cust s a) := by
  intro i q own announced
  by_cases signal : ∃ i woken, a = .signalArrival i woken
  · obtain ⟨i, woken, rfl⟩ := signal
    cases woken with
    | none => exact held.somebody enabled.2 q
    | some k =>
      refine ⟨k, ?_⟩
      simp only [next, update_self]
      rfl
  · have before := announced_step enabled (fun i woken same => signal ⟨i, woken, same⟩) i announced
    obtain ⟨k, alert⟩ := watched i q own before
    refine ⟨k, (alert_step enabled alert).resolve_right fun empty => ?_⟩
    -- the customer itself is in the queue
    obtain ⟨l, queue⟩ := integrity.queues q
    have inside : i ∈ inLoop cust s q := by
      refine mem_inLoop.2 ⟨own, ?_⟩
      cases found : s.customer i <;> rw [found] at before <;> first | rfl | cases before
    obtain rfl := queue.holds.size_eq_zero.1 empty
    apply queue.checkHead_ne_none (i := i) inside
    rw [checkHead, queue.holds.head_nil]
    rfl

/-! ## The open offers -/

/-- A new node at the tail does not change who is at the head. -/
theorem checkHead_enqueue {reading : Rat} {j : Fin n} {q' : Class} {b : Bool}
    (queues : ∀ q, ∃ l, QueueState cust as s q l) (check : checkHead cust s j q' = some b) :
    checkHead cust (next cust s (.enqueue i q reading)) j q' = some b := by
  obtain ⟨l, state⟩ := queues q
  obtain ⟨heap, queue, done, holds, -, kept⟩ := state.holds.enqueue i
  obtain ⟨l', state'⟩ := queues q'
  obtain ⟨⟨c, first⟩, l', rfl, same⟩ := state'.head_of_checkHead check
  rw [enqueue_step done, checkHead]
  by_cases here : q' = q
  · subst here
    rw [state.holds.seg.unique state'.holds.seg] at holds
    simp only [update_self, holds.head_cons, same]
    rfl
  · have holds' := state'.holds.frame fun b mem =>
      kept b (state'.holds.seg.lt_bound mem) (state.disjoint state' here mem)
    simp only [update_of_ne here, holds'.head_cons, same]
    rfl

theorem checkHead_same (same : SameQueues s s') (i : Fin n) (q : Class) :
    checkHead cust s' i q = checkHead cust s i q := by
  unfold checkHead
  rw [same.heap, same.queue]

theorem stays_awake {loc : CustomerLoc} {f : Fin n → CustomerLoc} (asleep : f i ≠ .woken) (j : Fin n)
    (awake : f j = .woken) : update f i loc j = .woken :=
  update_forth (fun loc : CustomerLoc => loc = .woken) (fun awake => absurd awake asleep) j awake

theorem Offered.other {q' : Class} {v : QueueVars n} (offered : Offered s' q') (here : q' ≠ q)
    (vars : s'.vars = update s.vars q v) : Offered s q' := by
  rw [Offered, vars, update_of_ne here] at offered
  exact offered

theorem Offered.kept {q' : Class} {v : QueueVars n} (offered : Offered s' q')
    (vars : s'.vars = update s.vars q v) (same : v.offered = (s.vars q).offered) : Offered s q' := by
  rw [Offered, vars] at offered
  exact (update_field QueueVars.offered same q').mp offered

/-- Steps that open no offer, keep the heads and put nobody to sleep. -/
theorem Taken.kept (taken : Taken cust s) (offered : ∀ q, Offered s' q → Offered s q)
    (heads : ∀ i q, checkHead cust s i q = some true → checkHead cust s' i q = some true)
    (awake : ∀ i, s.customer i = .woken → s'.customer i = .woken) : Taken cust s' := by
  intro q open'
  obtain ⟨i, own, woken, head⟩ := taken q (offered q open')
  exact ⟨i, own, awake i woken, heads i q head⟩

/-- Of the other queue, a step on the first one keeps the offer. -/
theorem Taken.other {q' : Class} {loc : CustomerLoc} (taken : Taken cust s) (own : (cust i).currQueue = some q)
    (here : q' ≠ q) (offered : Offered s q') (moved : s'.customer = update s.customer i loc)
    (heads : ∀ j, checkHead cust s' j q' = checkHead cust s j q') :
    ∃ j, (cust j).currQueue = some q' ∧ s'.customer j = .woken ∧ checkHead cust s' j q' = some true := by
  obtain ⟨j, own', woken, head⟩ := taken q' offered
  have other : j ≠ i := by
    rintro rfl
    exact here (Option.some.inj (own'.symm.trans own))
  refine ⟨j, own', ?_, by rw [heads, head]⟩
  rw [moved, update_of_ne other, woken]

/-- The broadcast of a selection wakes the customer at the head. -/
theorem Taken.select (taken : Taken cust s) (integrity : Integrity cust as s)
    (enabled : Enabled cust s (.select k q)) (filled : (s.vars q).queue.size ≠ 0) :
    Taken cust (next cust s (.select k q)) := by
  have heads : ∀ j q', checkHead cust (next cust s (.select k q)) j q' = checkHead cust s j q' :=
    checkHead_same (sameQueues enabled rfl)
  intro q' offered
  by_cases here : q' = q
  · subst here
    obtain ⟨l, state⟩ := integrity.queues q'
    cases l with
    | nil => exact absurd (state.holds.size_eq_zero.2 rfl) filled
    | cons c l =>
      obtain ⟨a, j⟩ := c
      -- some customer in the loop has the id of the head
      have atHead : (cust j).id ∈ (inLoop cust s q').val.map fun i => (cust i).id := by
        rw [← state.ids, nodeIds_cons]
        exact List.mem_cons_self
      obtain ⟨i, inside, same⟩ := Multiset.mem_map.1 atHead
      have waits : i ∈ waitLoop cust s q' := by
        rw [integrity.mutex.waitLoop_eq enabled.2]
        exact inside
      obtain ⟨own, atWait⟩ := (Finset.mem_filter.1 waits).2
      refine ⟨i, own, ?_, ?_⟩
      · simp only [next, broadcast, own, and_true]
        cases found : s.customer i <;> rw [found] at atWait <;> first | rfl | cases atWait
      · rw [heads, checkHead, state.holds.head_cons]
        simp [same]
  · obtain ⟨i, own, woken, head⟩ := taken q' (offered.other here rfl)
    refine ⟨i, own, ?_, by rw [heads, head]⟩
    simp only [next, broadcast, woken]
    rfl

/-- Steps that touch no queue keep the heads. -/
theorem Taken.quiet (taken : Taken cust s) (enabled : Enabled cust s a) (quiet : a.touches = false)
    (offered : ∀ q, Offered (next cust s a) q → Offered s q)
    (awake : ∀ i, s.customer i = .woken → (next cust s a).customer i = .woken) : Taken cust (next cust s a) := by
  refine taken.kept offered (fun j q check => ?_) awake
  rw [checkHead_same (sameQueues enabled quiet), check]

/-- The offer of the queue is closed, the other one is kept. -/
theorem Taken.leave {reading : Rat} (taken : Taken cust s) (integrity : Integrity cust as s)
    (enabled : Enabled cust s (.leave i q reading)) : Taken cust (next cust s (.leave i q reading)) := by
  obtain ⟨queue, done⟩ := leave_succeeds integrity.queues enabled
  rw [leave_step done]
  intro q' offered
  by_cases here : q' = q
  · subst here
    have closed := offered.1
    simp only [update_self] at closed
    cases closed
  · apply taken.other enabled.1 here (offered.other here rfl) rfl
    intro j
    simp only [checkHead, update_of_ne here]

/-- The customer at the head of an offered queue does not go back to sleep. -/
theorem Taken.rewait (taken : Taken cust s) (enabled : Enabled cust s (.rewait i q)) :
    Taken cust (next cust s (.rewait i q)) := by
  obtain ⟨own, loc, -, check⟩ := enabled
  intro q' offered
  by_cases here : q' = q
  · subst here
    obtain ⟨j, own', woken, head⟩ := taken q' offered
    have other : j ≠ i := by
      rintro rfl
      rcases check with behind | ⟨-, closed⟩
      · rw [head] at behind
        cases behind
      · exact absurd (offered.1.symm.trans closed) (by simp)
    exact ⟨j, own', (update_of_ne other _ _).trans woken, head⟩
  · exact taken.other own here offered rfl fun j => rfl

/-- The start of a service resets the winner of the business queue only. -/
theorem Taken.startService {c : Int} (taken : Taken cust s) (enabled : Enabled cust s (.startService i q c)) :
    Taken cust (next cust s (.startService i q c)) := by
  refine taken.quiet enabled rfl (fun q' offered => ?_) (stays_awake (by simp [enabled.2]))
  cases q with
  | economy => exact offered
  | business =>
    by_cases here : q' = .business
    · subst here
      exact absurd (by simp only [next, update_self]) offered.2
    · exact offered.other here rfl

theorem Taken.step (taken : Taken cust s) (integrity : Integrity cust as s) (enabled : Enabled cust s a)
    (orderly : Orderly s a) : Taken cust (next cust s a) := by
  cases a with
  | enqueue i q reading =>
    obtain ⟨heap, queue, done⟩ := enqueue_succeeds integrity.queues i q
    refine taken.kept (fun q' offered => ?_) (fun j q' check => checkHead_enqueue integrity.queues check) ?_
    · rw [enqueue_step done] at offered
      exact offered.kept rfl rfl
    · rw [enqueue_step done]
      exact stays_awake (by simp [enabled.2.1])
  | signalArrival i woken =>
    have loc := signalArrival_loc enabled
    exact taken.quiet enabled rfl (fun _ => id) (stays_awake (by simp [loc]))
  | wait i q =>
    exact taken.quiet enabled rfl (fun q' offered => offered.kept rfl rfl) (stays_awake (by simp [enabled.2]))
  | leave i q reading => exact taken.leave integrity enabled
  | rewait i q => exact taken.rewait enabled
  | fault i q => exact absurd enabled (not_fault integrity.queues)
  | skip i unset => exact taken.quiet enabled rfl (fun _ => id) (stays_awake (by simp [enabled.2]))
  | startService i q c => exact taken.startService enabled
  | finish i c =>
    have serving : s.customer i = .serving c := enabled
    exact taken.quiet enabled rfl (fun _ => id) (stays_awake (by simp [serving]))
  | wakeCustomer i =>
    have waiting : s.customer i = .waiting := enabled
    exact taken.quiet enabled rfl (fun _ => id) (stays_awake (by simp [waiting]))
  | clerk k =>
    obtain ⟨loc, requestMutex, -, after⟩ := clerk_step enabled
    rw [after]
    exact taken.kept (fun _ => id) (fun _ _ => id) fun _ => id
  | select k q => exact taken.select integrity enabled orderly.1
  | wakeClerk k => exact taken.kept (fun _ => id) (fun _ _ => id) fun _ => id

/-! ## The clerks that have selected -/

theorem QueueVars.offers.offered {v : QueueVars n} (offers : v.offers k) : v.offered :=
  ⟨offers.1, fun unset => clerkId_ne_zero k (offers.2.symm.trans unset)⟩

/-- Steps that close no offer, release nobody's clerk and let no clerk select. -/
theorem Served.kept (served : Served s) (offers : ∀ k q, (s.vars q).offers k → (s'.vars q).offers k)
    (clerks : ∀ k q, (s'.clerk k).selection = some q → (s.clerk k).selection = some q)
    (held : ∀ i c, (s.customer i).currClerk = some c → (s'.customer i).currClerk = some c) : Served s' := by
  intro k q selection
  rcases served k q (clerks k q selection) with offer | ⟨i, holds⟩
  · exact .inl (offers k q offer)
  · exact .inr ⟨i, held i _ holds⟩

theorem update_held {loc : CustomerLoc} {f : Fin n → CustomerLoc} {c : Int}
    (kept : (f i).currClerk = some c → loc.currClerk = some c) (j : Fin n)
    (held : (f j).currClerk = some c) : (update f i loc j).currClerk = some c :=
  update_forth (fun loc : CustomerLoc => loc.currClerk = some c) kept j held

theorem selection_of_update {loc : ClerkLoc} {f : Fin 5 → ClerkLoc}
    (back : loc.selection = some q → (f k).selection = some q) (k' : Fin 5)
    (selection : (update f k loc k').selection = some q) : (f k').selection = some q :=
  update_back (fun loc : ClerkLoc => loc.selection = some q) back k' selection

theorem offers_update {q' : Class} {v : QueueVars n} (same : v.offers k = (s.vars q).offers k)
    (offers : (s.vars q').offers k) : (update s.vars q v q').offers k :=
  (update_field (QueueVars.offers k) same q').mpr offers

/-- A customer without a clerk goes on. -/
theorem Served.moved {loc loc' : CustomerLoc} (served : Served s) (found : s.customer i = loc)
    (free : loc.currClerk = none) (moved : s'.customer = update s.customer i loc')
    (offers : ∀ k q, (s.vars q).offers k → (s'.vars q).offers k)
    (clerks : ∀ k q, (s'.clerk k).selection = some q → (s.clerk k).selection = some q) : Served s' := by
  refine served.kept offers clerks fun j c held => ?_
  rw [moved]
  refine update_held (fun held => ?_) j held
  rw [found, free] at held
  cases held

/-- The customer that leaves has the clerk on offer. -/
theorem Served.leave {reading : Rat} {queue : Queue} (served : Served s)
    (enabled : Enabled cust s (.leave i q reading)) (done : queueDequeue s.heap (s.vars q).queue = some queue) :
    Served (next cust s (.leave i q reading)) := by
  rw [leave_step done]
  intro k q' selection
  have free : (s.customer i).currClerk = none := by rw [enabled.2.1]; rfl
  rcases served k q' selection with offer | ⟨j, holds⟩
  · by_cases here : q' = q
    · subst here
      refine .inr ⟨i, ?_⟩
      simp only [update_self]
      rw [offer.2]
      rfl
    · refine .inl ?_
      simp only [update_of_ne here]
      exact offer
  · refine .inr ⟨j, update_held (fun held => ?_) j holds⟩
    rw [free] at held
    cases held

/-- The clerk that is signalled has waited; the others keep their customers. -/
theorem Served.finish {c : Int} (served : Served s) (enabled : Enabled cust s (.finish i c))
    (waits : (s.clerk (clerkOf c)).release ≠ s.clerk (clerkOf c)) : Served (next cust s (.finish i c)) := by
  have released : (s.clerk (clerkOf c)).release.selection = none := by
    cases found : s.clerk (clerkOf c) <;> rw [found] at waits <;> first | rfl | exact absurd rfl waits
  intro k q selection
  have other : k ≠ clerkOf c := by
    rintro rfl
    simp only [next, update_self, released] at selection
    cases selection
  simp only [next, update_of_ne other] at selection
  rcases served k q selection with offer | ⟨j, holds⟩
  · exact .inl offer
  · refine .inr ⟨j, update_held (fun held => ?_) j holds⟩
    obtain rfl : c = clerkId k := Option.some.inj ((finish_holds enabled).symm.trans held)
    exact absurd (clerkOf_clerkId k).symm other

/-- A selection that overwrites no offer. -/
theorem Served.select (served : Served s) (closed : ¬ Offered s q) : Served (next cust s (.select k q)) := by
  have held : ∀ j, (broadcast cust q s.customer j).currClerk = (s.customer j).currClerk := broadcast_loc _ rfl _
  intro k' q' selection
  by_cases mine : k' = k
  · subst mine
    simp only [next, update_self] at selection
    obtain rfl : q = q' := Option.some.inj selection
    refine .inl ?_
    simp only [next, update_self]
    exact ⟨rfl, rfl⟩
  · simp only [next, update_of_ne mine] at selection
    rcases served k' q' selection with offer | ⟨j, holds⟩
    · have here : q' ≠ q := by
        rintro rfl
        exact closed offer.offered
      refine .inl ?_
      simp only [next, update_of_ne here]
      exact offer
    · exact .inr ⟨j, by simp only [next, held, holds]⟩

theorem Served.step (served : Served s) (integrity : Integrity cust as s) (enabled : Enabled cust s a)
    (orderly : Orderly s a) : Served (next cust s a) := by
  cases a with
  | enqueue i q reading =>
    obtain ⟨heap, queue, done⟩ := enqueue_succeeds integrity.queues i q
    rw [enqueue_step done]
    exact served.moved enabled.2.1 rfl rfl (fun _ _ => offers_update rfl) fun _ _ => id
  | signalArrival i woken =>
    refine served.moved (signalArrival_loc enabled) rfl rfl (fun _ _ => id) fun k q => ?_
    cases woken with
    | none => exact id
    | some k' => exact selection_of_update (by intro back; cases back) k
  | wait i q => exact served.moved enabled.2 rfl rfl (fun _ _ => offers_update rfl) fun _ _ => id
  | leave i q reading =>
    obtain ⟨queue, done⟩ := leave_succeeds integrity.queues enabled
    exact served.leave enabled done
  | rewait i q | fault i q => exact served.moved enabled.2.1 rfl rfl (fun _ _ => id) fun _ _ => id
  | skip i unset => exact served.moved enabled.2 rfl rfl (fun _ _ => id) fun _ _ => id
  | startService i q c =>
    have held : ∀ {c'}, (s.customer i).currClerk = some c' → (CustomerLoc.serving c).currClerk = some c' := by
      rw [enabled.2]
      exact id
    cases q with
    | economy => exact served.kept (fun _ _ => id) (fun _ _ => id) fun j c' => update_held held j
    | business =>
      refine served.kept (fun k q offer => ?_) (fun _ _ => id) fun j c' => update_held held j
      have here : q ≠ .business := by
        rintro rfl
        exact orderly offer.offered
      simp only [next, update_of_ne here]
      exact offer
  | finish i c => exact served.finish enabled orderly
  | wakeCustomer i => exact served.moved enabled rfl rfl (fun _ _ => id) fun _ _ => id
  | clerk k =>
    obtain ⟨loc, requestMutex, move, after⟩ := clerk_step enabled
    rw [after]
    exact served.kept (fun _ _ => id) (fun k' q => selection_of_update move.selection.symm.trans k') fun _ _ => id
  | select k q => exact served.select orderly.2
  | wakeClerk k =>
    refine served.kept (fun _ _ => id) (fun k' q => selection_of_update (fun selection => ?_) k') fun _ _ => id
    split at selection <;> cases selection

theorem Progress.step (state : Progress cust s) (integrity : Integrity cust as s) (enabled : Enabled cust s a)
    (orderly : Orderly s a) : Progress cust (next cust s a) where
  held := state.held.step enabled
  watched := state.watched.step state.held integrity enabled
  taken := state.taken.step integrity enabled orderly
  served := state.served.step integrity enabled orderly

/-! ## Deadlock -/

/-- Some customer is not done, every customer is done or blocked and every clerk is
blocked, with no wake-up on its way. -/
structure Deadlocked (s : State n) : Prop where
  unfinished : ∃ i, s.customer i ≠ .done
  customers : ∀ i, s.customer i = .done ∨ s.customer i = .waiting
  clerks : ∀ k, s.clerk k = .blockedRequest ∨ ∃ q, s.clerk k = .blockedOwn q

theorem Progress.not_deadlocked (state : Progress cust s)
    (classes : ∀ i, (cust i).classType = 0 ∨ (cust i).classType = 1) : ¬ Deadlocked s := by
  rintro ⟨⟨i, unfinished⟩, customers, clerks⟩
  have waiting : s.customer i = .waiting := (customers i).resolve_left unfinished
  obtain ⟨q, own⟩ : ∃ q, (cust i).currQueue = some q := by
    unfold Customer.currQueue
    rcases classes i with economy | business
    · exact ⟨.economy, by simp [economy]⟩
    · exact ⟨.business, by simp [business]⟩
  obtain ⟨k, alert⟩ := state.watched i q own (by rw [waiting]; rfl)
  -- the clerk that watches the queue can only be waiting for its customer
  rcases clerks k with blocked | ⟨q', blocked⟩
  · rw [blocked] at alert
    cases alert
  rcases state.served k q' (by rw [blocked]; rfl) with offer | ⟨j, holds⟩
  · obtain ⟨j, -, woken, -⟩ := state.taken q' offer.offered
    rcases customers j with done | waits
    · exact absurd (woken.symm.trans done) (by simp)
    · exact absurd (woken.symm.trans waits) (by simp)
  · rcases customers j with done | waits
    · rw [done] at holds
      cases holds
    · rw [waits] at holds
      cases holds

/-- **No deadlock**, spurious wake-ups included, in a run whose steps find their partners. -/
theorem no_deadlock (classes : ∀ i, (cust i).classType = 0 ∨ (cust i).classType = 1)
    (run : Run (fun s a => Enabled cust s a ∧ Orderly s a) (next cust) (start n) as s) : ¬ Deadlocked s := by
  refine Progress.not_deadlocked (run.invariant (I := fun _ s => Progress cust s) Progress.start ?_) classes
  intro as s a run state can
  exact state.step (integrity (run.mono fun _ _ can => can.1)) can.1 can.2

/-- Two economy customers; clerk 1 serves the first one before the second one arrives. -/
def orderlyRun : List (Action 2) :=
  arrival customer1 .economy ++ List.replicate 5 (.clerk (clerkOf 1)) ++
    [.select (clerkOf 1) .economy, .clerk (clerkOf 1), .leave customer1 .economy 2,
      .startService customer1 .economy 1, .finish customer1 1] ++
    arrival customer2 .economy

theorem no_deadlock_orderly : ¬ Deadlocked (orderlyRun.foldl (next fun _ => ⟨7, 0⟩) (start 2)) :=
  no_deadlock (fun _ => .inl rfl) (Run.of_check (by decide))

/-- All five clerks see the one customer in the queue and select it; the customer leaves
with clerk 5 and signals completion before clerk 5 waits for it. All clerks then wait for
a customer that has left, and the second customer waits for a clerk. -/
def deadlockRun : List (Action 2) :=
  arrival customer1 .economy ++
    (List.finRange 5).flatMap (fun k => List.replicate 5 (.clerk k)) ++
    (List.finRange 5).map (fun k => .select k .economy) ++
    [.leave customer1 .economy 2, .startService customer1 .economy 5, .finish customer1 5] ++
    (List.finRange 5).map .clerk ++
    arrival customer2 .economy

/-- **The simulation can deadlock.** -/
theorem clerks_deadlock :
    ¬ ∀ (n : Nat) (cust : Fin n → Customer) (as : List (Action n)) (s : State n),
      (∀ i, (cust i).classType = 0 ∨ (cust i).classType = 1) →
      Run (fun s a => Enabled cust s a ∧ a.spurious = false) (next cust) (start n) as s → ¬ Deadlocked s := by
  intro claim
  have run : Run (fun s a => Enabled (fun _ => ⟨7, 0⟩) s a ∧ a.spurious = false) (next fun _ => ⟨7, 0⟩) (start 2)
      deadlockRun (deadlockRun.foldl (next fun _ => ⟨7, 0⟩) (start 2)) := Run.of_check (by decide)
  refine claim 2 _ _ _ (fun _ => .inl rfl) run ⟨⟨customer2, by decide⟩, by decide, fun k => .inr ⟨.economy, ?_⟩⟩
  revert k
  decide

end CSC360.Clerks
