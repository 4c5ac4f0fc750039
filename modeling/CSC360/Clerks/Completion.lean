import CSC360.Clerks.Matching

/-!
# Completion signals

A clerk releases the mutex of the queue before it locks its own and waits, with no
predicate, for the customer it has admitted; the customer signals once. **The signal is
lost exactly if it comes before the clerk waits, and no clerk comes back before its
customer is done**, as long as no customer leaves the loop with the clerk id 0 that the
unlocked store `queue_status[1] = 0` has left there.

Which customer a clerk has admitted is read off the history of the run (`Admitted`); the
invariant (`Completion`) says that the customers that hold a clerk are the admitted ones.

`completion_signal_lost` is a run in which the customer is served before its clerk waits.
-/

namespace CSC360.Clerks

open CSC360.Base Function

variable {n : Nat} {cust : Fin n → Customer} {as : List (Action n)} {s : State n} {a : Action n}
variable {q : Class} {i : Fin n} {k : Fin 5}

/-- The clerk's latest selection was of the queue. -/
def Latest (as : List (Action n)) (k : Fin 5) (q : Class) : Prop :=
  ∃ before between, as = before ++ .select k q :: between ∧ ∀ q', .select k q' ∉ between

/-- The customer is the one that the clerk's latest selection admitted: it left the loop of
the selected queue when no other clerk had selected the queue since. -/
def Admitted (as : List (Action n)) (k : Fin 5) (i : Fin n) : Prop :=
  ∃ before q between reading after, as = before ++ .select k q :: between ++ .leave i q reading :: after ∧
    lastSelector q (before ++ .select k q :: between) = some k ∧ ∀ q', .select k q' ∉ between ++ after

theorem Latest.self : Latest (as ++ [.select k q]) k q := ⟨as, [], rfl, fun _ => List.not_mem_nil⟩

theorem Latest.kept (latest : Latest as k q) (other : ∀ q', a ≠ .select k q') : Latest (as ++ [a]) k q := by
  obtain ⟨before, between, rfl, none⟩ := latest
  refine ⟨before, between ++ [a], by simp, fun q' mem => ?_⟩
  rcases List.mem_append.1 mem with old | new
  · exact none q' old
  · exact other q' (List.mem_singleton.1 new).symm

theorem Latest.admits {reading : Rat} (latest : Latest as k q) (last : lastSelector q as = some k) :
    Admitted (as ++ [.leave i q reading]) k i := by
  obtain ⟨before, between, rfl, none⟩ := latest
  exact ⟨before, q, between, reading, [], rfl, last, by simpa using none⟩

theorem Admitted.kept (admitted : Admitted as k i) (other : ∀ q', a ≠ .select k q') : Admitted (as ++ [a]) k i := by
  obtain ⟨before, q, between, reading, after, rfl, last, none⟩ := admitted
  refine ⟨before, q, between, reading, after ++ [a], by simp, last, fun q' mem => ?_⟩
  rw [← List.append_assoc] at mem
  rcases List.mem_append.1 mem with old | new
  · exact none q' old
  · exact other q' (List.mem_singleton.1 new).symm

/-- The customer that leaves the loop finds a clerk in `queue_status[q]`. -/
def LeavesWithClerk (s : State n) : Action n → Prop
  | .leave _ q _ => (s.vars q).status ≠ 0
  | _ => True

instance (s : State n) : DecidablePred (LeavesWithClerk s)
  | .leave _ _ _ => inferInstanceAs (Decidable (_ ≠ _))
  | .enqueue _ _ _ | .signalArrival _ _ | .wait _ _ | .rewait _ _ | .fault _ _ | .skip _ _ | .startService _ _ _
  | .finish _ _ | .wakeCustomer _ | .clerk _ | .select _ _ | .wakeClerk _ => inferInstanceAs (Decidable True)

/-! ## The clerks that are released -/

theorem ClerkMove.ne_wokenOwn {before loc : ClerkLoc} {requestMutex : Option (Fin 5)}
    (move : ClerkMove s k before loc requestMutex) : loc ≠ .wokenOwn := by
  cases move <;> simp

/-- Only a completion signal wakes a clerk that waits for its customer. -/
theorem wokenOwn_step (enabled : Enabled cust s a) (genuine : a.spurious = false)
    (woken : (next cust s a).clerk k = .wokenOwn) :
    s.clerk k = .wokenOwn ∨ ∃ i c, a = .finish i c ∧ clerkOf c = k := by
  have moved : ∀ {k' loc}, loc ≠ .wokenOwn → update s.clerk k' loc k = .wokenOwn → s.clerk k = .wokenOwn :=
    fun asleep => update_back (fun loc : ClerkLoc => loc = .wokenOwn) (fun woken => absurd woken asleep) k
  cases quiet : a.movesClerk with
  | false =>
    rw [(clerk_kept cust s quiet).1] at woken
    exact .inl woken
  | true =>
    cases a with
    | signalArrival i clerk =>
      cases clerk with
      | none => exact .inl woken
      | some k' => exact .inl (moved (by simp) woken)
    | finish i c =>
      by_cases here : clerkOf c = k
      · exact .inr ⟨i, c, rfl, here⟩
      · simp only [next, update_of_ne (Ne.symm here)] at woken
        exact .inl woken
    | clerk k' =>
      obtain ⟨loc, requestMutex, move, after⟩ := clerk_step enabled
      rw [after] at woken
      exact .inl (moved move.ne_wokenOwn woken)
    | select k' q => exact .inl (moved (by simp) woken)
    | wakeClerk => cases genuine
    | _ => cases quiet

/-- A thread that has ended stays so. -/
theorem done_step (enabled : Enabled cust s a) (done : s.customer i = .done) : (next cust s a).customer i = .done := by
  have stays : ∀ {j loc}, s.customer j ≠ .done → update s.customer j loc i = .done :=
    fun live => update_forth (fun loc : CustomerLoc => loc = .done) (fun done => absurd done live) i done
  cases a with
  | enqueue j q reading | leave j q reading =>
    simp only [next]
    split <;> exact stays (by simp [enabled.2.1])
  | signalArrival j woken =>
    have loc := signalArrival_loc enabled
    exact stays (by simp [loc])
  | wait j q | skip j unset | startService j q c => exact stays (by simp [enabled.2])
  | rewait j q | fault j q => exact stays (by simp [enabled.2.1])
  | finish j c => exact stays (by simp [show s.customer j = .serving c from enabled])
  | wakeCustomer j => exact stays (by simp [show s.customer j = .waiting from enabled])
  | clerk k =>
    obtain ⟨loc, requestMutex, -, after⟩ := clerk_step enabled
    rwa [after]
  | select k q =>
    simp only [next, broadcast, done]
    rfl
  | wakeClerk k => exact done

/-! ## The invariant -/

/-- The customers that hold a clerk, or have released it, are those it has admitted. -/
structure Completion (as : List (Action n)) (s : State n) : Prop where
  tokens : Tokens as s
  latest : ∀ k q, (s.clerk k).selection = some q → Latest as k q
  admitted : ∀ i k, (s.customer i).currClerk = some (clerkId k) → Admitted as k i
  released : ∀ k, s.clerk k = .wokenOwn → ∃ i, Admitted as k i ∧ s.customer i = .done

namespace Completion

theorem start : Completion [] (start n) where
  tokens := .start
  latest k q selection := by cases selection
  admitted i k held := by cases held
  released k woken := by cases woken

/-- The customer that signals completion holds a clerk that has selected. -/
theorem finishing {c : Int} (state : Completion as s) (enabled : Enabled cust s (.finish i c)) :
    ∃ k q, c = clerkId k ∧ (s.clerk k).selection = some q ∧ Admitted as k i := by
  have mine := finish_holds enabled
  obtain ⟨k, q, rfl, selection⟩ := state.tokens.holder i c mine
  exact ⟨k, q, rfl, selection, state.admitted i k mine⟩

theorem step (state : Completion as s) (enabled : Enabled cust s a) (genuine : a.spurious = false)
    (served : ∀ i unset, a ≠ .skip i unset) (withClerk : LeavesWithClerk s a) :
    Completion (as ++ [a]) (next cust s a) := by
  have set : ∀ i q reading, a = .leave i q reading → (s.vars q).status ≠ 0 := by
    rintro i q reading rfl
    exact withClerk
  refine ⟨state.tokens.step enabled genuine served set, fun k q selection => ?_, fun i k held => ?_, fun k woken => ?_⟩
  · cases selection_step enabled genuine k with
    | kept other same =>
      rw [same] at selection
      exact (state.latest k q selection).kept other
    | selects q' select free selected =>
      obtain rfl := Option.some.inj (selection.symm.trans selected)
      rw [select]
      exact .self
    | signalled i c finish named released =>
      -- a signal that is lost leaves the selection as it is
      have before : (s.clerk k).selection = some q := by
        rw [released] at selection
        cases found : s.clerk k <;> rw [found] at selection <;> first | exact selection | cases selection
      exact (state.latest k q before).kept (by simp [finish])
  · obtain ⟨k', q, same, selection, other, -, before | ⟨⟨reading, rfl⟩, last, -⟩⟩ :=
      state.tokens.held_step enabled genuine served set held <;>
      obtain rfl := clerkId_injective same
    · exact (state.admitted i k before).kept other
    · exact (state.latest k q selection).admits last
  · rcases wokenOwn_step enabled genuine woken with before | ⟨i, c, rfl, rfl⟩
    · have other : ∀ q, a ≠ .select k q := by
        rintro q rfl
        have selecting := enabled.1
        rw [before] at selecting
        cases selecting
      obtain ⟨i, admitted, done⟩ := state.released k before
      exact ⟨i, admitted.kept other, done_step enabled done⟩
    · obtain ⟨k, -, rfl, -, admitted⟩ := state.finishing enabled
      rw [clerkOf_clerkId]
      exact ⟨i, admitted.kept (by simp), update_self _ _ _⟩

end Completion

/-- A completion signal is for a clerk, and finds it waiting unless the clerk is still on its
way from the selection to its wait; a clerk that comes back from the wait comes back for the
customer that its latest selection admitted, which is done. -/
structure Completes (cust : Fin n → Customer) (as : List (Action n)) (s : State n) : Prop where
  signals : ∀ i c, Enabled cust s (.finish i c) →
    ((∃ k q, c = clerkId k ∧ s.clerk k = .blockedOwn q) ↔ ∀ q, s.clerk (clerkOf c) ≠ .selected q)
  returns : ∀ k, s.clerk k = .wokenOwn → ∃ i, Admitted as k i ∧ s.customer i = .done

/-- **A completion signal finds its clerk waiting, unless it comes too early, and releases it
for the right customer**, in a run without spurious wake-ups in which every customer that
leaves the loop has a clerk. -/
theorem signals_find_clerk (classes : ∀ i, (cust i).classType = 0 ∨ (cust i).classType = 1)
    (run : Run (fun s a => Enabled cust s a ∧ a.spurious = false ∧ LeavesWithClerk s a) (next cust) (start n) as s) :
    Completes cust as s := by
  have state : Completion as s := by
    apply run.invariant Completion.start
    intro as s a run state can
    exact state.step can.1 can.2.1 (not_skip classes can.1) can.2.2
  refine ⟨fun i c enabled => ?_, state.released⟩
  obtain ⟨k, q, rfl, selection, -⟩ := state.finishing enabled
  rw [clerkOf_clerkId]
  constructor
  · rintro ⟨k', q', same, blocked⟩ q
    obtain rfl := clerkId_injective same
    simp [blocked]
  · intro arrived
    refine ⟨k, q, rfl, ?_⟩
    cases found : s.clerk k with
    | selected q' => exact absurd found (arrived q')
    | blockedOwn q' =>
      rw [found] at selection
      cases selection
      rfl
    | _ =>
      rw [found] at selection
      cases selection

theorem signals_find_clerk_served : Completes pair servedRun (servedRun.foldl (next pair) (start 2)) :=
  signals_find_clerk (fun _ => .inr rfl) (Run.of_check (by decide))

/-- The customer has been served before clerk 1 waits. -/
def hastyRun : List (Action 2) :=
  arrival customer1 .economy ++ List.replicate 5 (.clerk (clerkOf 1)) ++
    [.select (clerkOf 1) .economy, .leave customer1 .economy 2, .startService customer1 .economy 1]

/-- **A completion signal can be lost.** -/
theorem completion_signal_lost :
    ¬ ∀ (n : Nat) (cust : Fin n → Customer) (as : List (Action n)) (s : State n),
      (∀ i, (cust i).classType = 0 ∨ (cust i).classType = 1) →
      Run (fun s a => Enabled cust s a ∧ a.spurious = false) (next cust) (start n) as s →
      (∀ i c, Enabled cust s (.finish i c) → ∃ k q, c = clerkId k ∧ s.clerk k = .blockedOwn q) ∧
        ∀ k, s.clerk k = .wokenOwn → ∃ i, Admitted as k i ∧ s.customer i = .done := by
  intro claim
  have run : Run (fun s a => Enabled twins s a ∧ a.spurious = false) (next twins) (start 2) hastyRun
      (hastyRun.foldl (next twins) (start 2)) := Run.of_check (by decide)
  obtain ⟨k, q, same, blocked⟩ := (claim 2 twins _ _ (fun _ => .inl rfl) run).1 customer1 1 (by decide)
  obtain rfl : k = clerkOf 1 := by rw [same, clerkOf_clerkId]
  have onItsWay : (hastyRun.foldl (next twins) (start 2)).clerk (clerkOf 1) = .selected .economy := by decide
  rw [onItsWay] at blocked
  cases blocked

end CSC360.Clerks
