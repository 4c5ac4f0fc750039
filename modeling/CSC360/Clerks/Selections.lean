import CSC360.Clerks.Progress

/-!
# Selections

A queue has one slot for a selection, `queue_status[q]` and `winner_selected[q]`. A clerk
tests the size of the queue before it locks the queue's mutex and does not look at the
slot. **In a run of tidy steps no selection is overwritten or made in vain**
(`Attended`): it stays open on a queue that is not empty until one customer takes it.

A customer of neither class queues nowhere and signals completion to whatever clerk its
unset `curr_clerk` names. As long as these signals are lost, `withoutStrays` shows a run
of the other customers, which the invariants of `Matched` and `Progress` are about.

`selection_overwritten` is a run in which two clerks select the queue of one customer.
-/

namespace CSC360.Clerks

open CSC360.Base Function

variable {n : Nat} {cust : Fin n → Customer} {as : List (Action n)} {s s' : State n} {a : Action n}
variable {q : Class} {i : Fin n} {k : Fin 5}

/-- The clerk's selection of the queue waits for a customer, and the queue has one. -/
def Pending (s : State n) (k : Fin 5) (q : Class) : Prop := (s.vars q).offers k ∧ (s.vars q).queue.size ≠ 0

/-- The customer has left the loop of the queue with the clerk and has not signalled completion. -/
def Accepted (cust : Fin n → Customer) (s : State n) (k : Fin 5) (q : Class) (i : Fin n) : Prop :=
  (cust i).currQueue = some q ∧ (s.customer i).currClerk = some (clerkId k)

/-- The selection of every clerk that has not been released is pending or accepted by one customer. -/
def Attended (cust : Fin n → Customer) (s : State n) : Prop :=
  ∀ k q, (s.clerk k).selection = some q → Pending s k q ∨ ∃! i, Accepted cust s k q i

/-- A clerk selects a queue that has customers and no open selection, the unlocked store
`queue_status[1] = 0` finds none either, and a completion signal finds its clerk waiting
exactly if it comes from a customer of one of the classes. -/
def Tidy (cust : Fin n → Customer) (s : State n) : Action n → Prop
  | .select _ q => (s.vars q).queue.size ≠ 0 ∧ ¬ Offered s q
  | .startService _ .business _ => (s.vars .business).winner = true
  | .finish i currClerk =>
    (cust i).currQueue = none ↔ (s.clerk (clerkOf currClerk)).release = s.clerk (clerkOf currClerk)
  | _ => True

instance (cust : Fin n → Customer) (s : State n) : DecidablePred (Tidy cust s)
  | .select _ _ => inferInstanceAs (Decidable (_ ∧ _))
  | .startService _ .business _ => inferInstanceAs (Decidable (_ = _))
  | .finish _ _ => inferInstanceAs (Decidable (_ ↔ _))
  | .startService _ .economy _ | .enqueue _ _ _ | .signalArrival _ _ | .wait _ _ | .leave _ _ _
  | .rewait _ _ | .fault _ _ | .skip _ _ | .wakeCustomer _ | .clerk _ | .wakeClerk _ =>
    inferInstanceAs (Decidable True)

/-! ## Customers of neither class -/

/-- The customer whose thread takes the step. -/
def Action.customer : Action n → Option (Fin n)
  | .enqueue i _ _ | .signalArrival i _ | .wait i _ | .leave i _ _ | .rewait i _ | .fault i _ | .skip i _
  | .startService i _ _ | .finish i _ | .wakeCustomer i => some i
  | .clerk _ | .select _ _ | .wakeClerk _ => none

def hideStrays (cust : Fin n → Customer) (f : Fin n → CustomerLoc) (i : Fin n) : CustomerLoc :=
  if (cust i).currQueue = none then .arriving else f i

/-- The state as if the customers of neither class had not arrived yet. -/
def withoutStrays (cust : Fin n → Customer) (s : State n) : State n :=
  { s with customer := hideStrays cust s.customer }

section Strays

variable {f : Fin n → CustomerLoc} {loc : CustomerLoc}

theorem hideStrays_own (own : (cust i).currQueue ≠ none) : hideStrays cust f i = f i := if_neg own

theorem hideStrays_update (own : (cust i).currQueue ≠ none) :
    hideStrays cust (update f i loc) = update (hideStrays cust f) i loc := by
  funext j
  by_cases here : j = i
  · rw [here, update_self, hideStrays_own own, update_self]
  · unfold hideStrays
    rw [update_of_ne here, update_of_ne here]

theorem hideStrays_stray (stray : (cust i).currQueue = none) :
    hideStrays cust (update f i loc) = hideStrays cust f := by
  funext j
  unfold hideStrays
  split
  · rfl
  · rename_i own
    have other : j ≠ i := by
      rintro rfl
      exact own stray
    rw [update_of_ne other]

theorem hideStrays_broadcast (q : Class) :
    hideStrays cust (broadcast cust q f) = broadcast cust q (hideStrays cust f) := by
  funext j
  by_cases own : (cust j).currQueue = none
  · simp [hideStrays, broadcast, own]
  · simp only [hideStrays_own own, broadcast]

theorem withoutStrays_start : withoutStrays cust (start n) = start n := by
  have all : hideStrays cust (start n).customer = (start n).customer := funext fun i => ite_self _
  rw [withoutStrays, all]

end Strays

/-- A step of a clerk or of a customer of the classes is enabled just as well without the others. -/
theorem enabled_withoutStrays (own : ∀ i, a.customer = some i → (cust i).currQueue ≠ none)
    (enabled : Enabled cust s a) : Enabled cust (withoutStrays cust s) a := by
  cases a with
  | clerk | select | wakeClerk => exact enabled
  | signalArrival i woken =>
    have loc : (withoutStrays cust s).customer i = s.customer i := hideStrays_own (own i rfl)
    cases woken <;> exact ⟨loc.trans enabled.1, enabled.2⟩
  | enqueue i q reading | leave i q reading | rewait i q | fault i q =>
    exact ⟨enabled.1, (hideStrays_own (own i rfl)).trans enabled.2.1, enabled.2.2⟩
  | wait i q | startService i q c | skip i unset =>
    exact ⟨enabled.1, (hideStrays_own (own i rfl)).trans enabled.2⟩
  | finish i c | wakeCustomer i => exact (hideStrays_own (own i rfl)).trans enabled

theorem next_withoutStrays (own : ∀ i, a.customer = some i → (cust i).currQueue ≠ none) :
    withoutStrays cust (next cust s a) = next cust (withoutStrays cust s) a := by
  cases a with
  | enqueue i q reading =>
    simp only [next, withoutStrays, createNode]
    split <;> rw [hideStrays_update (own i rfl)]
  | leave i q reading =>
    simp only [next, withoutStrays]
    split <;> rw [hideStrays_update (own i rfl)]
  | select k q => simp only [next, withoutStrays, hideStrays_broadcast]
  | clerk k =>
    have same : clerkNext (withoutStrays cust s) k = clerkNext s k := rfl
    simp only [next, same]
    split <;> rfl
  | wakeClerk k => rfl
  | signalArrival i | wait i | rewait i | fault i | skip i | startService i | finish i | wakeCustomer i =>
    simp only [next, withoutStrays, hideStrays_update (own i rfl)]

/-- A customer of neither class is in no loop. -/
theorem stray_outside (run : Reaches cust as s) (stray : (cust i).currQueue = none) :
    (s.customer i).inLoop = false := by
  refine run.invariant (I := fun _ s => (s.customer i).inLoop = false) rfl fun as s a run outside enabled => ?_
  cases quiet : a.touches with
  | false => rw [(sameQueues enabled quiet).loop, outside]
  | true =>
    have moved : ∀ {j loc}, (cust j).currQueue ≠ none → (update s.customer j loc i).inLoop = false := by
      intro j loc own
      have other : i ≠ j := by
        rintro rfl
        exact own stray
      rwa [update_of_ne other]
    cases a with
    | enqueue j q reading | leave j q reading =>
      have own : (cust j).currQueue ≠ none := by simp [enabled.1]
      simp only [next]
      split <;> exact moved own
    | fault j q => exact moved (by simp [enabled.1])
    | _ => cases quiet

/-- A step that finds its partner, by a clerk or by a customer of one of the classes. -/
structure RegularStep (cust : Fin n → Customer) (s : State n) (a : Action n) : Prop where
  enabled : Enabled cust s a
  genuine : a.spurious = false
  served : ∀ i unset, a ≠ .skip i unset
  closed : ClearsClosed s a
  orderly : Orderly s a

/-- A tidy step of a clerk or of a customer of the classes is regular without the others. -/
theorem Tidy.regular (tidy : Tidy cust s a) (enabled : Enabled cust s a) (genuine : a.spurious = false)
    (own : ∀ i, a.customer = some i → (cust i).currQueue ≠ none) : RegularStep cust (withoutStrays cust s) a where
  enabled := enabled_withoutStrays own enabled
  genuine := genuine
  served := by
    rintro i unset rfl
    exact own i rfl enabled.1
  closed := by
    cases a with
    | startService i q c =>
      cases q with
      | economy => trivial
      | business => exact tidy
    | _ => trivial
  orderly := by
    cases a with
    | select k q => exact tidy
    | startService i q c =>
      cases q with
      | economy => trivial
      | business =>
        have closed : (s.vars .business).winner = true := tidy
        intro offered
        have opened : (s.vars .business).winner = false := offered.1
        rw [closed] at opened
        cases opened
    | finish i c => exact fun lost => own i rfl (tidy.2 lost)
    | _ => trivial

/-- A tidy step of another customer does not show. -/
theorem Tidy.hidden (tidy : Tidy cust s a) (run : Reaches cust as s) (enabled : Enabled cust s a)
    (genuine : a.spurious = false) {i : Fin n} (mine : a.customer = some i) (stray : (cust i).currQueue = none) :
    withoutStrays cust (next cust s a) = withoutStrays cust s := by
  cases a with
  | clerk | select | wakeClerk => cases mine
  | wakeCustomer => cases genuine
  | skip j unset =>
    obtain rfl := Option.some.inj mine
    simp only [next, withoutStrays, hideStrays_stray stray]
  | finish j c =>
    obtain rfl := Option.some.inj mine
    simp only [next, withoutStrays, hideStrays_stray stray, tidy.1 stray, update_eq_self]
  | signalArrival j woken =>
    obtain rfl := Option.some.inj mine
    have outside := stray_outside run stray
    have loc := signalArrival_loc enabled
    rw [loc] at outside
    cases outside
  | _ =>
    obtain rfl := Option.some.inj mine
    have own := enabled.1
    rw [stray] at own
    cases own

/-- What `withoutStrays` shows of a tidy step. -/
theorem tidy_step (run : Reaches cust as s) (enabled : Enabled cust s a) (genuine : a.spurious = false)
    (tidy : Tidy cust s a) :
    withoutStrays cust (next cust s a) = withoutStrays cust s ∨
      RegularStep cust (withoutStrays cust s) a ∧
        withoutStrays cust (next cust s a) = next cust (withoutStrays cust s) a := by
  by_cases own : ∀ i, a.customer = some i → (cust i).currQueue ≠ none
  · exact .inr ⟨tidy.regular enabled genuine own, next_withoutStrays own⟩
  · simp only [not_forall, not_not] at own
    obtain ⟨i, mine, stray⟩ := own
    exact .inl (tidy.hidden run enabled genuine mine stray)

/-- A customer holds a clerk that has selected the customer's own queue. -/
def AtHome (cust : Fin n → Customer) (s : State n) : Prop :=
  ∀ i k, (s.customer i).currClerk = some (clerkId k) → (cust i).currQueue = (s.clerk k).selection

theorem AtHome.step (home : AtHome cust s) (tokens : Tokens as s) (enabled : Enabled cust s a)
    (genuine : a.spurious = false) (served : ∀ i unset, a ≠ .skip i unset)
    (set : ∀ i q reading, a = .leave i q reading → (s.vars q).status ≠ 0) : AtHome cust (next cust s a) := by
  intro i k held
  obtain ⟨k', q, same, selection, -, selection', accepts⟩ := tokens.held_step enabled genuine served set held
  obtain rfl := clerkId_injective same
  rw [selection']
  rcases accepts with before | ⟨⟨reading, rfl⟩, -⟩
  · exact (home i k before).trans selection
  · exact enabled.1

/-- The invariants of a run of customers of the two classes. -/
structure Regular (cust : Fin n → Customer) (as : List (Action n)) (s : State n) : Prop where
  integrity : Integrity cust as s
  matched : Matched cust as s
  progress : Progress cust s
  home : AtHome cust s

theorem Regular.start : Regular cust [] (start n) where
  integrity := .start
  matched := .start
  progress := .start
  home i k held := by cases held

theorem Regular.step (state : Regular cust as s) (regular : RegularStep cust s a) :
    Regular cust (as ++ [a]) (next cust s a) where
  integrity := state.integrity.step regular.enabled
  matched := state.matched.step regular.enabled regular.genuine regular.served regular.closed
  progress := state.progress.step state.integrity regular.enabled regular.orderly
  home := by
    apply state.home.step state.matched.tokens regular.enabled regular.genuine regular.served
    rintro i q reading rfl
    exact state.matched.status_ne_zero regular.enabled

theorem Regular.attended (state : Regular cust as s) : Attended cust s := by
  intro k q selection
  rcases state.progress.served k q selection with offer | ⟨i, held⟩
  · refine .inl ⟨offer, fun empty => ?_⟩
    -- the customer that is about to take the offer reads the head of the queue
    obtain ⟨i, -, -, head⟩ := state.progress.taken q offer.offered
    obtain ⟨l, queue⟩ := state.integrity.queues q
    obtain ⟨c, l, rfl, -⟩ := queue.head_of_checkHead head
    cases queue.holds.size_eq_zero.1 empty
  · refine .inr ⟨i, ⟨(state.home i k held).trans selection, held⟩, fun j accepted => ?_⟩
    exact state.matched.distinct j i _ accepted.2 held

/-- **No selection is overwritten or made in vain** in a run of tidy steps without
spurious wake-ups, whatever customers there are. -/
theorem selections_attended
    (run : Run (fun s a => Enabled cust s a ∧ a.spurious = false ∧ Tidy cust s a) (next cust) (start n) as s) :
    Attended cust s := by
  obtain ⟨as', seen⟩ : ∃ as', Run (RegularStep cust) (next cust) (withoutStrays cust (start n)) as'
      (withoutStrays cust s) := by
    apply run.image
    intro as s a run can
    exact tidy_step (run.mono fun _ _ can => can.1) can.1 can.2.1 can.2.2
  rw [withoutStrays_start] at seen
  have state : Regular cust as' (withoutStrays cust s) :=
    seen.invariant Regular.start fun _ _ _ _ state regular => state.step regular
  -- a customer that has accepted is of one of the classes
  have same : ∀ k q i, Accepted cust (withoutStrays cust s) k q i ↔ Accepted cust s k q i := by
    intro k q i
    apply and_congr_right
    intro own
    have loc : (withoutStrays cust s).customer i = s.customer i := hideStrays_own (by simp [own])
    rw [loc]
  intro k q selection
  refine (state.attended k q selection).imp id ?_
  simp only [same]
  exact id

/-- An economy customer and one of neither class. -/
def passerBy : Fin 2 → Customer := fun i => ⟨i.val, 2 * i.val⟩

/-- The customer of neither class signals to clerk 3, which is not waiting; clerk 1 serves the other one. -/
def attendedRun : List (Action 2) :=
  arrival customer1 .economy ++ List.replicate 5 (.clerk (clerkOf 1)) ++
    [.skip customer2 3, .select (clerkOf 1) .economy, .finish customer2 3, .leave customer1 .economy 2]

theorem selections_attended_passerBy : Attended passerBy (attendedRun.foldl (next passerBy) (start 2)) :=
  selections_attended (Run.of_check (by decide))

/-- Clerks 1 and 2 both see the one customer in the queue and select it. -/
def overwrittenRun : List (Action 2) :=
  arrival customer1 .economy ++ List.replicate 5 (.clerk (clerkOf 1)) ++ List.replicate 5 (.clerk (clerkOf 2)) ++
    [.select (clerkOf 1) .economy, .select (clerkOf 2) .economy]

/-- **A selection can be overwritten before a customer has seen it.** -/
theorem selection_overwritten :
    ¬ ∀ (n : Nat) (cust : Fin n → Customer) (as : List (Action n)) (s : State n),
      Run (fun s a => Enabled cust s a ∧ a.spurious = false) (next cust) (start n) as s → Attended cust s := by
  intro claim
  have run : Run (fun s a => Enabled twins s a ∧ a.spurious = false) (next twins) (start 2) overwrittenRun
      (overwrittenRun.foldl (next twins) (start 2)) := Run.of_check (by decide)
  rcases claim 2 twins _ _ run (clerkOf 1) .economy (by decide) with ⟨⟨-, status⟩, -⟩ | ⟨i, ⟨-, held⟩, -⟩
  · have overwritten : ((overwrittenRun.foldl (next twins) (start 2)).vars .economy).status = 2 := by decide
    rw [overwritten] at status
    cases status
  · have nobody : ∀ i, ((overwrittenRun.foldl (next twins) (start 2)).customer i).currClerk = none := by decide
    rw [nobody] at held
    cases held

end CSC360.Clerks
