import CSC360.Clerks.Statistics
import Mathlib.Data.Fintype.Card

/-!
# Business customers first

A clerk looks into the business queue before it looks into the economy queue, but it selects
later. **While a business customer is in its queue, each clerk selects the economy queue at most
once and at most six economy customers leave theirs** (`business_overtaken`): those are the clerks
that had found the business queue empty before, and an offer that was open. Some run reaches both
bounds (`overtaken_six`).

The bound is a credit that no step raises while the business queue is not empty, and that an
economy customer pays when it leaves.
-/

namespace CSC360.Clerks

open CSC360.Base Function

variable {n : Nat} {cust : Fin n → Customer} {as as' : List (Action n)} {s s' : State n} {a : Action n}
variable {i : Fin n} {k : Fin 5}

/-- The clerk has found the business queue empty and has not selected since. -/
def ClerkLoc.pastBusiness : ClerkLoc → Bool
  | .choosingEconomy | .selecting .economy => true
  | _ => false

def selectsEconomy (k : Fin 5) : Action n → Bool
  | .select k' .economy => k' = k
  | _ => false

def leavesEconomy : Action n → Bool
  | .leave _ .economy _ => true
  | _ => false

/-- What a thread can do while somebody is in the business queue. -/
def Busy (cust : Fin n → Customer) (s : State n) (a : Action n) : Prop :=
  Enabled cust s a ∧ (s.vars .business).queue.size ≠ 0

/-! ## The clerks -/

theorem release_pastBusiness {loc : ClerkLoc} (past : loc.release.pastBusiness = true) : loc.pastBusiness = true := by
  cases loc <;> exact past

/-- A clerk that finds a business customer does not look into the economy queue. -/
theorem clerkNext_pastBusiness {loc : ClerkLoc} {request : Option (Fin 5)}
    (busy : (s.vars .business).queue.size ≠ 0) (moves : clerkNext s k = some (loc, request))
    (past : loc.pastBusiness = true) : (s.clerk k).pastBusiness = true := by
  have move := clerkNext_move moves
  cases found : s.clerk k with
  | choosingBusiness =>
    rw [clerkNext, found] at moves
    simp only [if_pos busy, Option.some.injEq, Prod.mk.injEq] at moves
    rw [← moves.1] at past
    cases past
  | choosingEconomy | selecting =>
    rw [found] at move
    cases move <;> rfl
  | _ =>
    rw [found] at move
    cases move <;> cases past

/-- **No clerk comes to the economy queue** while the business queue is not empty, and a clerk that
selects it goes. -/
theorem pastBusiness_step (can : Busy cust s a) (past : ((next cust s a).clerk k).pastBusiness = true) :
    (s.clerk k).pastBusiness = true ∧ selectsEconomy k a = false := by
  obtain ⟨enabled, busy⟩ := can
  have moved : ∀ {k' loc}, (loc.pastBusiness = true → (s.clerk k').pastBusiness = true) →
      (update s.clerk k' loc k).pastBusiness = true → (s.clerk k).pastBusiness = true :=
    fun back => update_back (fun loc : ClerkLoc => loc.pastBusiness = true) back k
  cases quiet : a.movesClerk with
  | false =>
    rw [(clerk_kept cust s quiet).1] at past
    refine ⟨past, ?_⟩
    cases a <;> first | rfl | cases quiet
  | true =>
    cases a with
    | signalArrival i woken =>
      refine ⟨?_, rfl⟩
      cases woken with
      | none => exact past
      | some k' => exact moved (fun none => by cases none) past
    | finish i c => exact ⟨moved release_pastBusiness past, rfl⟩
    | clerk k' =>
      refine ⟨?_, rfl⟩
      obtain ⟨⟨loc, request⟩, moves⟩ := Option.isSome_iff_exists.1 enabled
      simp only [next, moves] at past
      exact moved (clerkNext_pastBusiness busy moves) past
    | select k' q =>
      have before := moved (fun none => by cases none) past
      refine ⟨before, ?_⟩
      cases q with
      | business => rfl
      | economy =>
        refine decide_eq_false fun same => ?_
        subst same
        simp only [next, update_self] at past
        cases past
    | wakeClerk k' =>
      refine ⟨moved (fun none => ?_) past, rfl⟩
      split at none <;> cases none
    | _ => cases quiet

/-- Each clerk selects the economy queue at most once. -/
theorem selects_once (run : Run (Busy cust) (next cust) s as' s') (k : Fin 5) : as'.countP (selectsEconomy k) ≤ 1 := by
  have bound := run.bounded (fun s => if (s.clerk k).pastBusiness then 1 else 0) (fun a => !selectsEconomy k a) 0
    (fun as s a _ can pays => ?_) fun as s a _ can _ => ?_
  · simp only [Bool.not_not, Nat.zero_mul, Nat.add_zero] at bound
    refine Nat.le_trans (Nat.le_trans (Nat.le_add_right _ _) bound) ?_
    split
    · exact Nat.le_refl 1
    · exact Nat.zero_le 1
  · rw [Bool.not_eq_false'] at pays
    have before : (s.clerk k).pastBusiness = true := by
      cases a with
      | select k' q =>
        cases q with
        | business => cases pays
        | economy =>
          obtain rfl := of_decide_eq_true pays
          rw [can.1.1]
          rfl
      | _ => cases pays
    have after : ((next cust s a).clerk k).pastBusiness ≠ true := by
      intro past
      rw [(pastBusiness_step can past).2] at pays
      cases pays
    rw [if_pos before, if_neg after]
    exact Nat.zero_lt_one
  · by_cases past : ((next cust s a).clerk k).pastBusiness = true
    · rw [if_pos past, if_pos (pastBusiness_step can past).1]
    · exact (if_neg past).le.trans (Nat.zero_le _)

/-! ## The economy customers -/

/-- The clerks that may still select the economy queue. -/
def pastClerks (s : State n) : Finset (Fin 5) := Finset.univ.filter fun k => (s.clerk k).pastBusiness = true

/-- The economy customers that may still leave. -/
def credit (s : State n) : Nat := (pastClerks s).card + if (s.vars .economy).winner then 0 else 1

theorem credit_le (s : State n) : credit s ≤ 6 := by
  have clerks : (pastClerks s).card ≤ 5 := Finset.card_le_univ (pastClerks s)
  rw [credit]
  split <;> omega

theorem pastClerks_sub (can : Busy cust s a) : pastClerks (next cust s a) ⊆ pastClerks s := by
  intro k mem
  rw [pastClerks, Finset.mem_filter] at mem ⊢
  exact ⟨mem.1, (pastBusiness_step can mem.2).1⟩

/-- Only a selection and a customer that leaves change `winner_selected[0]`. -/
theorem winner_kept (selects : ∀ k, selectsEconomy k a = false) (leaves : leavesEconomy a = false) :
    ((next cust s a).vars .economy).winner = (s.vars .economy).winner := by
  cases a with
  | enqueue i q reading =>
    simp only [next]
    split
    · rfl
    · cases q <;> rfl
  | wait i q => cases q <;> rfl
  | leave i q reading =>
    simp only [next]
    split
    · rfl
    · cases q with
      | economy => cases leaves
      | business => rfl
  | startService i q c => cases q <;> rfl
  | select k q =>
    cases q with
    | economy =>
      have none := selects k
      rw [selectsEconomy, decide_eq_true rfl] at none
      cases none
    | business => rfl
  | clerk k =>
    simp only [next]
    split <;> rfl
  | _ => rfl

/-- **An economy customer that leaves pays**, and no step earns. -/
theorem credit_step (run : Reaches cust as s) (can : Busy cust s a) :
    credit (next cust s a) + (if leavesEconomy a then 1 else 0) ≤ credit s := by
  have clerks := Finset.card_le_card (pastClerks_sub can)
  by_cases leaves : leavesEconomy a = true
  · cases a with
    | leave i q reading =>
      cases q with
      | business => cases leaves
      | economy =>
        obtain ⟨queue, done⟩ := leave_succeeds (integrity run).queues can.1
        have taken : ((next cust s (.leave i .economy reading)).vars .economy).winner = true := by
          rw [leave_step done]
          rfl
        rw [credit, credit, taken, can.1.2.2.2.2, if_pos leaves, if_pos rfl, if_neg Bool.false_ne_true]
        omega
    | _ => cases leaves
  · rw [if_neg leaves]
    by_cases selects : ∃ k, selectsEconomy k a = true
    · obtain ⟨k, selects⟩ := selects
      -- what the open offer adds, the clerk pays
      have one : (pastClerks (next cust s a)).card < (pastClerks s).card := by
        refine Finset.card_lt_card (Finset.ssubset_iff_of_subset (pastClerks_sub can) |>.2 ⟨k, ?_, fun mem => ?_⟩)
        · cases a with
          | select k' q =>
            cases q with
            | business => cases selects
            | economy =>
              obtain rfl := of_decide_eq_true selects
              rw [pastClerks, Finset.mem_filter, can.1.1]
              exact ⟨Finset.mem_univ _, rfl⟩
          | _ => cases selects
        · rw [(pastBusiness_step can (Finset.mem_filter.1 mem).2).2] at selects
          cases selects
      rw [credit, credit]
      split <;> split <;> omega
    · have none : ∀ k, selectsEconomy k a = false := fun k => Bool.eq_false_iff.2 fun selects' => selects ⟨k, selects'⟩
      rw [credit, credit, winner_kept none (Bool.eq_false_iff.2 leaves)]
      omega

/-! ## While a business customer waits -/

/-- A customer that is in its loop, and in the end still is, is there all the time. -/
theorem busy_run (run : Reaches cust as s) (rest : Run (Enabled cust) (next cust) s as' s')
    (business : (cust i).currQueue = some .business) (inside : (s.customer i).inLoop = true)
    (still : leaveReadings i (as ++ as') = []) : Run (Busy cust) (next cust) s as' s' := by
  induction rest with
  | start => exact .start
  | @step as' s₁ a rest enabled ih =>
    rw [← List.append_assoc, leaveReadings_snoc, List.append_eq_nil_iff] at still
    refine .step (ih still.1) ⟨enabled, ?_⟩
    have reached : Reaches cust (as ++ as') s₁ := run.append rest
    have here : i ∈ inLoop cust s₁ .business := by
      refine mem_inLoop.2 ⟨business, ?_⟩
      have now := readings reached business
      have before := readings run business
      have alive := (integrity reached).alive i
      have entered : enterReadings i as = [s.timeInit i] := by
        rw [Readings] at before
        cases found : s.customer i <;> rw [found] at before inside <;> first | exact before.1 | cases inside
      have entered' : enterReadings i (as ++ as') ≠ [] := by
        rw [enterReadings, List.filterMap_append, ← enterReadings, entered]
        exact List.cons_ne_nil _ _
      rw [Readings, still.1] at now
      cases found : s₁.customer i <;> rw [found] at now <;> simp_all [CustomerLoc.stage, CustomerLoc.inLoop]
    rw [(integrity reached).size]
    exact Finset.card_ne_zero.2 ⟨i, here⟩

/-- **A business customer is overtaken by at most six economy customers**, spurious wake-ups included. -/
theorem business_overtaken (run : Reaches cust as s) (rest : Run (Enabled cust) (next cust) s as' s')
    (business : (cust i).currQueue = some .business) (inside : (s.customer i).inLoop = true)
    (still : (s'.customer i).inLoop = true) :
    as'.countP leavesEconomy ≤ 6 ∧ ∀ k, as'.countP (selectsEconomy k) ≤ 1 := by
  have none : leaveReadings i (as ++ as') = [] := by
    have now := readings (run.append rest) business
    rw [Readings] at now
    cases found : s'.customer i <;> rw [found] at now still <;> first | exact now.2 | cases still
  have busy := busy_run run rest business inside none
  refine ⟨?_, selects_once busy⟩
  have bound := busy.bounded credit (fun a => !leavesEconomy a) 0 (fun as₁ s₁ a before can pays => ?_)
    fun as₁ s₁ a before can _ => ?_
  · simp only [Bool.not_not, Nat.zero_mul, Nat.add_zero] at bound
    exact Nat.le_trans (Nat.le_trans (Nat.le_add_right _ _) bound) (credit_le s)
  · have step := credit_step (run.append (before.mono fun _ _ can => can.1)) can
    rw [Bool.not_eq_false'] at pays
    rw [if_pos pays] at step
    exact step
  · have step := credit_step (run.append (before.mono fun _ _ can => can.1)) can
    omega

/-- A business customer and six economy customers. -/
def crowd : Fin 7 → Customer := fun i => if i = 0 then ⟨0, 1⟩ else ⟨i.val, 0⟩

/-- The economy customers come, all clerks find nobody else, and the business customer comes. -/
def crowdComes : List (Action 7) :=
  ([1, 2, 3, 4, 5, 6] : List (Fin 7)).flatMap (fun i => arrival i .economy) ++
    ([1, 2, 3, 4, 5] : List Int).flatMap (fun id => List.replicate 5 (.clerk (clerkOf id))) ++ arrival 0 .business

/-- The first economy customer wakes up without a clerk and leaves; the others are selected. -/
def crowdOvertakes : List (Action 7) :=
  [.wakeCustomer 1, .leave 1 .economy 2] ++
    ([(1, 2), (2, 3), (3, 4), (4, 5), (5, 6)] : List (Int × Fin 7)).flatMap fun m =>
      [.select (clerkOf m.1) .economy, .leave m.2 .economy 2]

/-- The crowd when the business customer has come. -/
def crowdState : State 7 := crowdComes.foldl (next crowd) (start 7)

theorem crowd_comes : Reaches crowd crowdComes crowdState := Run.of_check (by decide +kernel)

theorem crowd_overtakes :
    Run (Enabled crowd) (next crowd) crowdState crowdOvertakes (crowdOvertakes.foldl (next crowd) crowdState) :=
  Run.of_check (by decide +kernel)

theorem crowd_waits : (crowdState.customer 0).inLoop = true ∧
    ((crowdOvertakes.foldl (next crowd) crowdState).customer 0).inLoop = true := by
  decide +kernel

theorem business_overtaken_crowd :
    crowdOvertakes.countP leavesEconomy ≤ 6 ∧ ∀ k, crowdOvertakes.countP (selectsEconomy k) ≤ 1 :=
  business_overtaken crowd_comes crowd_overtakes (i := 0) rfl crowd_waits.1 crowd_waits.2

/-- **Both bounds are reached**: the crowd's six economy customers all overtake the business customer, and
all clerks select the economy queue. -/
theorem overtaken_six : ∃ (n : Nat) (cust : Fin n → Customer) (i : Fin n) (as as' : List (Action n))
    (s s' : State n), Reaches cust as s ∧ Run (Enabled cust) (next cust) s as' s' ∧
      (cust i).currQueue = some .business ∧ (s.customer i).inLoop = true ∧ (s'.customer i).inLoop = true ∧
      as'.countP leavesEconomy = 6 ∧ ∀ k, as'.countP (selectsEconomy k) = 1 :=
  ⟨7, crowd, 0, _, _, _, _, crowd_comes, crowd_overtakes, rfl, crowd_waits.1, crowd_waits.2, by decide, by decide⟩

end CSC360.Clerks
