import CSC360.Clerks.QueueIntegrity

/-!
# Customers and clerks

A clerk offers itself through `queue_status[q]` and `winner_selected[q]`, and the
customer that leaves the loop takes the offer. **As long as the unlocked store
`queue_status[1] = 0` never meets an offer that is still open**, the customer that
leaves holds the clerk that selected last, and no two customers hold the same clerk.
The invariant (`Matched`) follows one token for each clerk: a clerk that has selected
and not been released is either on offer, or held by one customer, or overwritten.
What one step does to the tokens is said once, by `held_step`, `selection_step` and
`slot_step`; the invariants follow from these.

`clerks_mismatched` is a run in which the store clears an open offer.
-/

namespace CSC360.Clerks

open CSC360.Base Function

variable {n : Nat} {cust : Fin n → Customer} {as : List (Action n)} {s s' : State n} {a : Action n}
variable {q : Class} {i : Fin n}

/-- The clerk id a customer has left the loop with, until it signals completion. -/
def CustomerLoc.currClerk : CustomerLoc → Option Int
  | .admitted currClerk | .serving currClerk => some currClerk
  | _ => none

/-- The queue a clerk has selected, until it is released from its wait. -/
def ClerkLoc.selection : ClerkLoc → Option Class
  | .selected q | .blockedOwn q => some q
  | _ => none

def Action.spurious : Action n → Bool
  | .wakeCustomer _ | .wakeClerk _ => true
  | _ => false

/-- The unlocked store `queue_status[1] = 0` finds no open offer. -/
def ClearsClosed (s : State n) : Action n → Prop
  | .startService _ .business _ => (s.vars .business).winner = true
  | _ => True

instance (s : State n) : DecidablePred (ClearsClosed s)
  | .startService _ .business _ => inferInstanceAs (Decidable (_ = _))
  | .startService _ .economy _ | .enqueue _ _ _ | .signalArrival _ _ | .wait _ _ | .leave _ _ _
  | .rewait _ _ | .fault _ _ | .skip _ _ | .finish _ _ | .wakeCustomer _ | .clerk _ | .select _ _
  | .wakeClerk _ => inferInstanceAs (Decidable True)

def selector (q : Class) : Action n → Option (Fin 5)
  | .select k q' => if q' = q then some k else none
  | _ => none

/-- The clerk whose selection of the queue was the last to clear `winner_selected[q]`. -/
def lastSelector (q : Class) (as : List (Action n)) : Option (Fin 5) := (as.filterMap (selector q)).getLast?

theorem lastSelector_other (other : selector q a = none) : lastSelector q (as ++ [a]) = lastSelector q as := by
  rw [lastSelector, List.filterMap_append, List.filterMap_cons_none other, List.filterMap_nil, List.append_nil,
    lastSelector]

theorem lastSelector_self (k : Fin 5) (q : Class) : lastSelector q (as ++ [.select k q]) = some k := by
  have here : selector q (.select k q : Action n) = some k := if_pos rfl
  rw [lastSelector, List.filterMap_append, List.filterMap_cons_some here, List.filterMap_nil,
    List.getLast?_concat]

/-- Where the tokens are, also after an unlocked store that has met an open offer. -/
structure Tokens (as : List (Action n)) (s : State n) : Prop where
  offer : ∀ q, (s.vars q).winner = false → (s.vars q).status ≠ 0 →
    ∃ k, (s.vars q).status = clerkId k ∧ lastSelector q as = some k ∧ (s.clerk k).selection = some q ∧
      ∀ i, (s.customer i).currClerk ≠ some (clerkId k)
  holder : ∀ i currClerk, (s.customer i).currClerk = some currClerk →
    ∃ k q, currClerk = clerkId k ∧ (s.clerk k).selection = some q
  distinct : ∀ i j currClerk, (s.customer i).currClerk = some currClerk →
    (s.customer j).currClerk = some currClerk → i = j

/-- Where the tokens are. -/
structure Matched (cust : Fin n → Customer) (as : List (Action n)) (s : State n) : Prop where
  /-- an open offer names the clerk that selected last, which still waits and which nobody holds -/
  offer : ∀ q, (s.vars q).winner = false → (s.vars q).status ≠ 0 →
    ∃ k, (s.vars q).status = clerkId k ∧ lastSelector q as = some k ∧ (s.clerk k).selection = some q ∧
      ∀ i, (s.customer i).currClerk ≠ some (clerkId k)
  /-- before the first selection no customer is awake -/
  asleep : ∀ q i, (s.vars q).winner = false → (s.vars q).status = 0 → (cust i).currQueue = some q →
    s.customer i ≠ .woken
  holder : ∀ i currClerk, (s.customer i).currClerk = some currClerk →
    ∃ k q, currClerk = clerkId k ∧ (s.clerk k).selection = some q
  distinct : ∀ i j currClerk, (s.customer i).currClerk = some currClerk →
    (s.customer j).currClerk = some currClerk → i = j

theorem Tokens.start : Tokens [] (start n) where
  offer q _ ne := absurd rfl ne
  holder i c held := by simp [Clerks.start, CustomerLoc.currClerk] at held
  distinct i j c held := by simp [Clerks.start, CustomerLoc.currClerk] at held

theorem Matched.tokens (state : Matched cust as s) : Tokens as s := ⟨state.offer, state.holder, state.distinct⟩

/-! ## What a step does to the tokens -/

/-- Only the steps below move a token. -/
def Action.movesToken : Action n → Bool
  | .leave _ _ _ | .finish _ _ | .startService _ .business _ | .select _ _ | .skip _ _ => true
  | _ => false

/-- The tokens are where they were, and nobody wakes. -/
structure SameTokens (s s' : State n) : Prop where
  winner : ∀ q, (s'.vars q).winner = (s.vars q).winner
  status : ∀ q, (s'.vars q).status = (s.vars q).status
  selection : ∀ k, (s'.clerk k).selection = (s.clerk k).selection
  held : ∀ i, (s'.customer i).currClerk = (s.customer i).currClerk
  awake : ∀ i, s'.customer i = .woken → s.customer i = .woken

/-- A local step of a clerk neither selects nor releases it. -/
theorem ClerkMove.selection {k : Fin 5} {before loc : ClerkLoc} {requestMutex : Option (Fin 5)}
    (move : ClerkMove s k before loc requestMutex) : loc.selection = before.selection := by
  cases move <;> rfl

theorem update_awake {loc : CustomerLoc} {f : Fin n → CustomerLoc} (asleep : loc ≠ .woken) (j : Fin n)
    (awake : update f i loc j = .woken) : f j = .woken :=
  update_back (fun loc : CustomerLoc => loc = .woken) (fun awake => absurd awake asleep) j awake

/-- A customer goes on without a change of its clerk, not out of its sleep. -/
theorem SameTokens.moved {loc loc' : CustomerLoc} (found : s.customer i = loc)
    (moved : s'.customer = update s.customer i loc') (held : loc'.currClerk = loc.currClerk) (asleep : loc' ≠ .woken)
    (winner : ∀ q, (s'.vars q).winner = (s.vars q).winner) (status : ∀ q, (s'.vars q).status = (s.vars q).status)
    (selection : ∀ k, (s'.clerk k).selection = (s.clerk k).selection) : SameTokens s s' where
  winner := winner
  status := status
  selection := selection
  held j := by
    rw [moved]
    exact update_field_at CustomerLoc.currClerk found held j
  awake j awake := by
    rw [moved] at awake
    exact update_awake asleep j awake

theorem sameTokens (enabled : Enabled cust s a) (genuine : a.spurious = false) (quiet : a.movesToken = false) :
    SameTokens s (next cust s a) := by
  cases a with
  | leave | finish | select | skip => cases quiet
  | wakeCustomer | wakeClerk => cases genuine
  | enqueue i q reading =>
    obtain ⟨own, loc, -⟩ := enabled
    cases done : queueEnqueue (s.heap.alloc i) (s.vars q).queue s.heap.bound with
    | none =>
      simp only [next, createNode, done]
      exact .moved loc rfl rfl (by simp) (fun _ => rfl) (fun _ => rfl) fun _ => rfl
    | some after =>
      rw [enqueue_step done]
      exact .moved loc rfl rfl (by simp) (update_field _ rfl) (update_field _ rfl) fun _ => rfl
  | signalArrival i woken =>
    refine .moved (signalArrival_loc enabled) rfl rfl (by simp) (fun _ => rfl) (fun _ => rfl) ?_
    cases woken with
    | none => exact fun _ => rfl
    | some k =>
      apply update_field
      rw [enabled.2]
      rfl
  | wait i q => exact .moved enabled.2 rfl rfl (by simp) (update_field _ rfl) (update_field _ rfl) fun _ => rfl
  | rewait i q | fault i q =>
    exact .moved enabled.2.1 rfl rfl (by simp) (fun _ => rfl) (fun _ => rfl) fun _ => rfl
  | startService i q currClerk =>
    cases q with
    | business => cases quiet
    | economy => exact .moved enabled.2 rfl rfl (by simp) (fun _ => rfl) (fun _ => rfl) fun _ => rfl
  | clerk k =>
    obtain ⟨loc, requestMutex, move, after⟩ := clerk_step enabled
    rw [after]
    exact ⟨fun _ => rfl, fun _ => rfl, update_field _ move.selection, fun _ => rfl, fun _ => id⟩

/-- A customer that no longer holds a clerk. -/
theorem update_released {loc : CustomerLoc} {f : Fin n → CustomerLoc} {j : Fin n} {c : Int}
    (released : loc.currClerk = none) (held : (update f i loc j).currClerk = some c) :
    j ≠ i ∧ (f j).currClerk = some c := by
  by_cases here : j = i
  · rw [here, update_self, released] at held
    cases held
  · rw [update_of_ne here] at held
    exact ⟨here, held⟩

theorem finish_holds {c : Int} (enabled : Enabled cust s (.finish i c)) : (s.customer i).currClerk = some c := by
  rw [show s.customer i = .serving c from enabled]
  rfl

/-- A customer gets its clerk when it leaves the loop, and closes the offer then; it gives
the clerk back when it signals completion. -/
theorem held_step (enabled : Enabled cust s a) (genuine : a.spurious = false) (served : ∀ i unset, a ≠ .skip i unset)
    {j : Fin n} {c : Int} (held : ((next cust s a).customer j).currClerk = some c) :
    (s.customer j).currClerk = some c ∧ (∀ c', a ≠ .finish j c') ∨
      ∃ q reading, a = .leave j q reading ∧ c = (s.vars q).status ∧ ((next cust s a).vars q).winner = true := by
  cases quiet : a.movesToken with
  | false =>
    rw [(sameTokens enabled genuine quiet).held] at held
    refine .inl ⟨held, ?_⟩
    rintro c' rfl
    cases quiet
  | true =>
    cases a with
    | leave i q reading =>
      cases done : queueDequeue s.heap (s.vars q).queue with
      | none =>
        simp only [next, done] at held
        exact .inl ⟨(update_released rfl held).2, by simp⟩
      | some queue =>
        rw [leave_step done] at held ⊢
        by_cases here : j = i
        · subst here
          simp only [update_self] at held ⊢
          exact .inr ⟨q, reading, rfl, (Option.some.inj held).symm, by simp only [update_self]⟩
        · simp only [update_of_ne here] at held
          exact .inl ⟨held, by simp⟩
    | finish i c' =>
      obtain ⟨other, held⟩ := update_released rfl held
      refine .inl ⟨held, fun c'' same => other ?_⟩
      cases same
      rfl
    | startService i q c' =>
      have kept : (CustomerLoc.serving c').currClerk = (s.customer i).currClerk := by
        rw [enabled.2]
        rfl
      simp only [next, update_field _ kept] at held
      exact .inl ⟨held, by simp⟩
    | select k q =>
      simp only [next, broadcast_loc CustomerLoc.currClerk rfl] at held
      exact .inl ⟨held, by simp⟩
    | skip i unset => exact absurd rfl (served i unset)
    | _ => cases quiet

/-- What a step does to the selection of a clerk. -/
inductive SelectionStep (k : Fin 5) (a : Action n) (before after : ClerkLoc) : Prop where
  | kept (other : ∀ q, a ≠ .select k q) (same : after.selection = before.selection)
  | selects (q : Class) (select : a = .select k q) (free : before.selection = none) (selected : after.selection = some q)
  | signalled (i : Fin n) (c : Int) (finish : a = .finish i c) (named : clerkOf c = k) (released : after = before.release)

theorem selection_step (enabled : Enabled cust s a) (genuine : a.spurious = false) (k : Fin 5) :
    SelectionStep k a (s.clerk k) ((next cust s a).clerk k) := by
  cases quiet : a.movesToken with
  | false =>
    refine .kept ?_ ((sameTokens enabled genuine quiet).selection k)
    rintro q rfl
    cases quiet
  | true =>
    cases a with
    | leave i q reading =>
      refine .kept (by simp) ?_
      simp only [next]
      split <;> rfl
    | finish i c =>
      by_cases here : k = clerkOf c
      · subst here
        exact .signalled i c rfl rfl (update_self _ _ _)
      · refine .kept (by simp) ?_
        simp only [next, update_of_ne here]
    | startService i q c | skip i unset => exact .kept (by simp) rfl
    | select k' q =>
      by_cases here : k = k'
      · subst here
        refine .selects q rfl ?_ ?_
        · rw [enabled.1]
          rfl
        · simp only [next, update_self]
          rfl
      · refine .kept (fun q' same => here ?_) ?_
        · cases same
          rfl
        · simp only [next, update_of_ne here]
    | _ => cases quiet

/-- What a step does to `winner_selected[q]` and `queue_status[q]`. -/
inductive SlotStep (q : Class) (a : Action n) (before after : QueueVars n) : Prop where
  | kept (winner : after.winner = before.winner) (status : after.status = before.status) (other : ∀ k, a ≠ .select k q)
  | taken (closed : after.winner = true)
  | selected (k : Fin 5) (select : a = .select k q) (status : after.status = clerkId k)
  | cleared (i : Fin n) (c : Int) (store : a = .startService i .business c) (here : q = .business)
      (winner : after.winner = before.winner) (unset : after.status = 0)

theorem slot_step (enabled : Enabled cust s a) (genuine : a.spurious = false) (q : Class) :
    SlotStep q a (s.vars q) ((next cust s a).vars q) := by
  cases quiet : a.movesToken with
  | false =>
    have same := sameTokens enabled genuine quiet
    refine .kept (same.winner q) (same.status q) ?_
    rintro k rfl
    cases quiet
  | true =>
    cases a with
    | leave i q' reading =>
      cases done : queueDequeue s.heap (s.vars q').queue with
      | none => apply SlotStep.kept <;> simp [next, done]
      | some queue =>
        rw [leave_step done]
        by_cases here : q = q'
        · subst here
          exact .taken (by simp only [update_self])
        · apply SlotStep.kept <;> simp [update_of_ne here]
    | finish i c | skip i unset => exact .kept rfl rfl (by simp)
    | startService i q' c =>
      cases q' with
      | economy => cases quiet
      | business =>
        by_cases here : q = .business
        · subst here
          exact .cleared i c rfl rfl (by simp only [next, update_self]) (by simp only [next, update_self])
        · apply SlotStep.kept <;> simp [next, update_of_ne here]
    | select k q' =>
      by_cases here : q = q'
      · subst here
        exact .selected k rfl (by simp only [next, update_self])
      · apply SlotStep.kept <;> simp [next, update_of_ne here, Ne.symm here]
    | _ => cases quiet

/-- Only a selection of its queue wakes a customer. -/
theorem awake_step (enabled : Enabled cust s a) (genuine : a.spurious = false) {j : Fin n}
    (awake : (next cust s a).customer j = .woken) :
    s.customer j = .woken ∨ ∃ k q, a = .select k q ∧ (cust j).currQueue = some q := by
  cases quiet : a.movesToken with
  | false => exact .inl ((sameTokens enabled genuine quiet).awake j awake)
  | true =>
    cases a with
    | leave i q reading =>
      simp only [next] at awake
      split at awake <;> exact .inl (update_awake (by simp) j awake)
    | finish i c | startService i q c | skip i unset => exact .inl (update_awake (by simp) j awake)
    | select k q =>
      simp only [next, broadcast] at awake
      split at awake
      · rename_i woken
        exact .inr ⟨k, q, rfl, woken.2⟩
      · exact .inl awake
    | _ => cases quiet

theorem lastSelector_kept (other : ∀ k, a ≠ .select k q) : lastSelector q (as ++ [a]) = lastSelector q as := by
  apply lastSelector_other
  cases a with
  | select k q' =>
    apply if_neg
    rintro rfl
    exact other k rfl
  | _ => rfl

namespace Tokens

/-- A clerk keeps its selection until the customer that holds it signals completion. -/
theorem selection_kept (state : Tokens as s) (enabled : Enabled cust s a) (genuine : a.spurious = false) {k : Fin 5}
    (selection : (s.clerk k).selection = some q)
    (unfinished : ∀ i c, a = .finish i c → (s.customer i).currClerk ≠ some (clerkId k)) :
    (∀ q', a ≠ .select k q') ∧ ((next cust s a).clerk k).selection = some q := by
  cases selection_step enabled genuine k with
  | kept other same => exact ⟨other, same.trans selection⟩
  | selects q' select free selected =>
    rw [free] at selection
    cases selection
  | signalled i c finish named released =>
    subst finish
    have mine := finish_holds enabled
    obtain ⟨k', -, rfl, -⟩ := state.holder i c mine
    rw [clerkOf_clerkId] at named
    rw [named] at mine
    exact absurd mine (unfinished i _ rfl)

/-- A customer that holds a clerk keeps the clerk at its selection. -/
theorem holder_kept (state : Tokens as s) (enabled : Enabled cust s a) (genuine : a.spurious = false) {k : Fin 5}
    (held : (s.customer i).currClerk = some (clerkId k)) (unfinished : ∀ c, a ≠ .finish i c) :
    ∃ q, (s.clerk k).selection = some q ∧ (∀ q', a ≠ .select k q') ∧ ((next cust s a).clerk k).selection = some q := by
  obtain ⟨k', q, same, selection⟩ := state.holder i _ held
  obtain rfl := clerkId_injective same
  refine ⟨q, selection, state.selection_kept enabled genuine selection fun j c finishes held' => ?_⟩
  -- nobody else holds the clerk
  obtain rfl := state.distinct i j _ held held'
  exact unfinished c finishes

/-- A customer that holds a clerk after the step has kept it or has just left the loop with it. -/
theorem held_step (state : Tokens as s) (enabled : Enabled cust s a) (genuine : a.spurious = false)
    (served : ∀ i unset, a ≠ .skip i unset) (set : ∀ i q reading, a = .leave i q reading → (s.vars q).status ≠ 0)
    {j : Fin n} {c : Int} (held : ((next cust s a).customer j).currClerk = some c) :
    ∃ k q, c = clerkId k ∧ (s.clerk k).selection = some q ∧ (∀ q', a ≠ .select k q') ∧
      ((next cust s a).clerk k).selection = some q ∧
      ((s.customer j).currClerk = some (clerkId k) ∨
        (∃ reading, a = .leave j q reading) ∧ lastSelector q as = some k ∧
          (∀ i, (s.customer i).currClerk ≠ some (clerkId k)) ∧ ((next cust s a).vars q).winner = true) := by
  rcases Clerks.held_step enabled genuine served held with ⟨before, unfinished⟩ | ⟨q, reading, rfl, rfl, closed⟩
  · obtain ⟨k, -, rfl, -⟩ := state.holder j c before
    obtain ⟨q, selection, other, selection'⟩ := state.holder_kept enabled genuine before unfinished
    exact ⟨k, q, rfl, selection, other, selection', .inl before⟩
  · obtain ⟨k, same, last, selection, free⟩ := state.offer q enabled.2.2.2.2 (set j q reading rfl)
    obtain ⟨other, selection'⟩ := state.selection_kept enabled genuine selection (by simp)
    exact ⟨k, q, same, selection, other, selection', .inr ⟨⟨reading, rfl⟩, last, free, closed⟩⟩

theorem step (state : Tokens as s) (enabled : Enabled cust s a) (genuine : a.spurious = false)
    (served : ∀ i unset, a ≠ .skip i unset) (set : ∀ i q reading, a = .leave i q reading → (s.vars q).status ≠ 0) :
    Tokens (as ++ [a]) (next cust s a) := by
  have clerk := fun {j c} => state.held_step enabled genuine served set (j := j) (c := c)
  refine ⟨fun q opened ne => ?_, fun j c held => ?_, fun j j' c held held' => ?_⟩
  · cases slot_step enabled genuine q with
    | kept winner status other =>
      rw [winner] at opened
      rw [status] at ne ⊢
      obtain ⟨k, same, last, selection, free⟩ := state.offer q opened ne
      obtain ⟨-, selection'⟩ := state.selection_kept enabled genuine selection fun i _ _ => free i
      refine ⟨k, same, by rw [lastSelector_kept other, last], selection', fun j held => ?_⟩
      obtain ⟨k', q', same', -, -, selection'', before | ⟨-, -, -, closed⟩⟩ := clerk held
      · exact free j (same' ▸ before)
      · -- one clerk has one selection
        obtain rfl := clerkId_injective same'
        obtain rfl := Option.some.inj (selection'.symm.trans selection'')
        rw [winner, opened] at closed
        cases closed
    | taken closed =>
      rw [opened] at closed
      cases closed
    | selected k select status =>
      subst select
      refine ⟨k, status, lastSelector_self k q, by simp only [next, update_self]; rfl, fun j held => ?_⟩
      obtain ⟨k', q', same, -, other, -⟩ := clerk held
      exact other q (clerkId_injective same ▸ rfl)
    | cleared i c store here winner unset => exact absurd unset ne
  · obtain ⟨k, q, same, -, -, selection, -⟩ := clerk held
    exact ⟨k, q, same, selection⟩
  · obtain ⟨k, q, rfl, -, -, -, before | ⟨⟨reading, leaves⟩, -, free, -⟩⟩ := clerk held <;>
      obtain ⟨k', q', same, -, -, -, before' | ⟨⟨reading', leaves'⟩, -, free', -⟩⟩ := clerk held' <;>
      obtain rfl := clerkId_injective same
    · exact state.distinct j j' _ before before'
    · exact absurd before (free' j)
    · exact absurd before' (free j')
    · rw [leaves] at leaves'
      cases leaves'
      rfl

end Tokens

namespace Matched

theorem start : Matched cust [] (start n) where
  offer := Tokens.start.offer
  asleep q i _ _ _ := by simp [Clerks.start]
  holder := Tokens.start.holder
  distinct := Tokens.start.distinct

theorem status_ne_zero {reading : Rat} (state : Matched cust as s) (enabled : Enabled cust s (.leave i q reading)) :
    (s.vars q).status ≠ 0 :=
  fun unset => state.asleep q i enabled.2.2.2.2 unset enabled.1 enabled.2.1

theorem step (state : Matched cust as s) (enabled : Enabled cust s a) (genuine : a.spurious = false)
    (served : ∀ i unset, a ≠ .skip i unset) (closed : ClearsClosed s a) :
    Matched cust (as ++ [a]) (next cust s a) := by
  have tokens := state.tokens.step enabled genuine served fun i q reading leaves => by
    subst leaves
    exact state.status_ne_zero enabled
  refine ⟨tokens.offer, fun q i opened unset own awake => ?_, tokens.holder, tokens.distinct⟩
  cases slot_step enabled genuine q with
  | kept winner status other =>
    rw [winner] at opened
    rw [status] at unset
    rcases awake_step enabled genuine awake with before | ⟨k, q', rfl, own'⟩
    · exact state.asleep q i opened unset own before
    · -- the broadcast wakes customers of the selected queue only
      obtain rfl := Option.some.inj (own.symm.trans own')
      exact other k rfl
  | taken closed =>
    rw [opened] at closed
    cases closed
  | selected k select status => exact clerkId_ne_zero k (status.symm.trans unset)
  | cleared j c store here winner unset =>
    subst store here
    rw [winner] at opened
    have closed : (s.vars .business).winner = true := closed
    rw [opened] at closed
    cases closed

end Matched

/-- Only a customer of neither class skips the queues. -/
theorem not_skip (classes : ∀ i, (cust i).classType = 0 ∨ (cust i).classType = 1) (enabled : Enabled cust s a)
    (i : Fin n) (unset : Int) : a ≠ .skip i unset := by
  rintro rfl
  have none := enabled.1
  unfold Customer.currQueue at none
  rcases classes i with economy | business
  · simp [economy] at none
  · simp [business] at none

/-- A customer that leaves the loop leaves with the clerk that selected its queue last,
and no two customers between leaving and completion hold the same clerk. -/
structure WellMatched (cust : Fin n → Customer) (as : List (Action n)) (s : State n) : Prop where
  leaves : ∀ i q reading, Enabled cust s (.leave i q reading) →
    ∃ k, lastSelector q as = some k ∧ 1 ≤ clerkId k ∧ clerkId k ≤ 5 ∧
      (next cust s (.leave i q reading)).customer i = .admitted (clerkId k)
  distinct : ∀ i j currClerk, (s.customer i).currClerk = some currClerk →
    (s.customer j).currClerk = some currClerk → i = j

/-- **Customers are matched to clerks** in every run without spurious wake-ups in which
the unlocked store `queue_status[1] = 0` finds no open offer. -/
theorem clerks_matched (classes : ∀ i, (cust i).classType = 0 ∨ (cust i).classType = 1)
    (run : Run (fun s a => Enabled cust s a ∧ a.spurious = false ∧ ClearsClosed s a) (next cust) (start n) as s) :
    WellMatched cust as s := by
  have sound : Reaches cust as s := run.mono fun _ _ can => can.1
  have state : Matched cust as s := by
    apply run.invariant Matched.start
    intro as s a run state can
    exact state.step can.1 can.2.1 (not_skip classes can.1) can.2.2
  refine ⟨fun i q reading enabled => ?_, state.distinct⟩
  obtain ⟨queue, done⟩ := leave_succeeds (integrity sound).queues enabled
  obtain ⟨own, woken, -, -, opened⟩ := enabled
  obtain ⟨k, same, last, -⟩ := state.offer q opened fun unset => state.asleep q i opened unset own woken
  refine ⟨k, last, by unfold clerkId; omega, by unfold clerkId; omega, ?_⟩
  rw [leave_step done, ← same]
  exact update_self _ _ _

/-- Two business customers. -/
def pair : Fin 2 → Customer := fun i => ⟨i.val, 1⟩

/-- The first customer is admitted by clerk 3 and served. -/
def servedRun : List (Action 2) :=
  arrival customer1 .business ++ List.replicate 3 (.clerk (clerkOf 3)) ++
    [.select (clerkOf 3) .business, .leave customer1 .business 2, .startService customer1 .business 3,
      .clerk (clerkOf 3), .finish customer1 3]

theorem clerks_matched_served : WellMatched pair servedRun (servedRun.foldl (next pair) (start 2)) :=
  clerks_matched (fun _ => .inr rfl) (Run.of_check (by decide))

/-- Clerk 1 admits the first customer; clerk 2 selects the queue for the second one, and
the first customer's unlocked store clears the status before the second one reads it. -/
def clearedRun : List (Action 2) :=
  arrival customer1 .business ++ List.replicate 3 (.clerk (clerkOf 1)) ++
    [.select (clerkOf 1) .business, .leave customer1 .business 2] ++
    arrival customer2 .business ++ List.replicate 3 (.clerk (clerkOf 2)) ++
    [.select (clerkOf 2) .business, .startService customer1 .business 1]

/-- **A customer can leave with the clerk id 0.** -/
theorem clerks_mismatched :
    ¬ ∀ (n : Nat) (cust : Fin n → Customer) (as : List (Action n)) (s : State n),
      (∀ i, (cust i).classType = 0 ∨ (cust i).classType = 1) →
      Run (fun s a => Enabled cust s a ∧ a.spurious = false) (next cust) (start n) as s → WellMatched cust as s := by
  intro claim
  have run : Run (fun s a => Enabled pair s a ∧ a.spurious = false) (next pair) (start 2) clearedRun
      (clearedRun.foldl (next pair) (start 2)) := Run.of_check (by decide)
  obtain ⟨k, -, -, -, loc⟩ := (claim 2 pair _ _ (fun _ => .inr rfl) run).leaves customer2 .business 4 (by decide)
  have zero : (next pair (clearedRun.foldl (next pair) (start 2)) (.leave customer2 .business 4)).customer customer2 =
      .admitted 0 := by decide
  rw [zero] at loc
  exact clerkId_ne_zero k (CustomerLoc.admitted.inj loc).symm

end CSC360.Clerks
