import CSC360.Base.Desks
import CSC360.Clerks.Completion

/-!
# The desks behind the threads

What the simulation is for, without its threads: customers wait in two lines, first come first
served, and each of the five clerks has a desk with at most one customer (`Desks`). **The threads
refine the desks**: a run without spurious wake-ups in which every customer that leaves the loop has
a clerk shows a run of the desks (`threads_refine_desks`). What it shows are the calls of
`Queue_Enqueue` and `Queue_Dequeue` and the completion signals, with the ids of the customers and
the clerks. Ids may repeat.
-/

namespace CSC360.Clerks

open CSC360.Base Function

variable {n : Nat} {cust : Fin n → Customer} {as : List (Action n)} {s s' : State n} {a : Action n}
variable {q : Class} {i : Fin n} {k : Fin 5}

/-- What a step shows at the desks: a customer joins its queue, leaves it for a clerk, or is done. -/
def seen (s : State n) : Action n → Option (Desks.Event Class (Fin 5) (Fin n))
  | .enqueue i q _ => some (.join q i)
  | .leave i q _ => some (.call (clerkOf (s.vars q).status) q i)
  | .finish i currClerk => some (.dismiss (clerkOf currClerk) i)
  | _ => none

/-- What a run shows, with the customers' ids. -/
def shown (cust : Fin n → Customer) (as : List (Action n)) : List (Desks.Event Class (Fin 5) Int) :=
  trace (fun s a => (seen s a).map (.map fun i => (cust i).id)) (next cust) (start n) as

/-- The nodes of the queues are the lines, and whoever holds a clerk is at its desk. -/
structure ShowsDesks (cust : Fin n → Customer) (s : State n) (d : Desks Class (Fin 5) Int) : Prop where
  line : ∀ q, ∃ l, Holds s.heap (s.vars q).queue l ∧ nodeIds cust l = d.line q
  desk : ∀ k id, d.desk k = some id ↔ ∃ i, (cust i).id = id ∧ (s.customer i).currClerk = some (clerkId k)

/-- The relation between a run and the desks: the lines are read off the history. -/
structure AtDesks (cust : Fin n → Customer) (as : List (Action n)) (s : State n) (d : Desks Class (Fin 5) Int) :
    Prop where
  run : Reaches cust as s
  tokens : Tokens as s
  line : ∀ q, leaveIds cust q as ++ d.line q = enqueueIds cust q as
  desk : ∀ k id, d.desk k = some id ↔ ∃ i, (cust i).id = id ∧ (s.customer i).currClerk = some (clerkId k)

namespace AtDesks

variable {d : Desks Class (Fin 5) Int}

theorem start : AtDesks cust [] (start n) Desks.opened where
  run := .start
  tokens := .start
  line _ := rfl
  desk k id := by
    constructor
    · intro occupied
      cases occupied
    · rintro ⟨i, -, held⟩
      cases held

/-- The nodes of a queue have the ids of the line. -/
theorem nodes (state : AtDesks cust as s d) (q : Class) : ∃ l, QueueState cust as s q l ∧ nodeIds cust l = d.line q := by
  obtain ⟨l, nodes⟩ := (integrity state.run).queues q
  exact ⟨l, nodes, List.append_cancel_left (nodes.order.trans (state.line q).symm)⟩

theorem shows (state : AtDesks cust as s d) : ShowsDesks cust s d where
  line q := by
    obtain ⟨l, nodes, same⟩ := state.nodes q
    exact ⟨l, nodes.holds, same⟩
  desk := state.desk

/-- A step that shows nothing gives nobody a clerk and takes none away. -/
theorem held_kept (enabled : Enabled cust s a) (genuine : a.spurious = false) (served : ∀ i unset, a ≠ .skip i unset)
    (hidden : seen s a = none) (j : Fin n) : ((next cust s a).customer j).currClerk = (s.customer j).currClerk := by
  cases quiet : a.movesToken with
  | false => exact (sameTokens enabled genuine quiet).held j
  | true =>
    cases a with
    | leave | finish => cases hidden
    | skip i unset => exact absurd rfl (served i unset)
    | startService i q c =>
      refine update_field CustomerLoc.currClerk ?_ j
      rw [enabled.2]
      rfl
    | select k q => exact broadcast_loc CustomerLoc.currClerk rfl s.customer j
    | _ => cases quiet

/-- The holders of a clerk that the customer neither held nor holds. -/
theorem holders_kept {f : Fin n → CustomerLoc} {loc : CustomerLoc} {c id : Int} (before : (f i).currClerk ≠ some c)
    (after : loc.currClerk ≠ some c) :
    (∃ j, (cust j).id = id ∧ (update f i loc j).currClerk = some c) ↔
      ∃ j, (cust j).id = id ∧ (f j).currClerk = some c := by
  refine exists_congr fun j => and_congr_right fun _ => ?_
  by_cases here : j = i
  · rw [here, update_self]
    exact iff_of_false after before
  · rw [update_of_ne here]

/-- Nor does it touch a queue. -/
theorem ids_hidden (hidden : seen s a = none) : enqueuedId cust q a = none ∧ leftId cust q a = none := by
  cases a with
  | enqueue | leave => cases hidden
  | _ => exact ⟨rfl, rfl⟩

theorem hidden (state : AtDesks cust as s d) (enabled : Enabled cust s a) (genuine : a.spurious = false)
    (served : ∀ i unset, a ≠ .skip i unset) (withClerk : LeavesWithClerk s a) (hidden : seen s a = none) :
    AtDesks cust (as ++ [a]) (next cust s a) d where
  run := state.run.step enabled
  tokens := state.tokens.step enabled genuine served fun i q reading leaves => by
    subst leaves
    cases hidden
  line q := by
    rw [leaveIds_snoc, enqueueIds_snoc, (ids_hidden hidden).1, (ids_hidden hidden).2, Option.toList_none,
      List.append_nil, List.append_nil]
    exact state.line q
  desk k id := by
    simp only [held_kept enabled genuine served hidden]
    exact state.desk k id

/-- A customer joins its line. -/
theorem enqueue {reading : Rat} (state : AtDesks cust as s d) (enabled : Enabled cust s (.enqueue i q reading)) :
    AtDesks cust (as ++ [.enqueue i q reading]) (next cust s (.enqueue i q reading)) (d.next (.join q (cust i).id)) where
  run := state.run.step enabled
  tokens := state.tokens.step enabled rfl (by simp) (by simp)
  line q' := by
    rw [leaveIds_snoc, enqueueIds_snoc, ← state.line q']
    by_cases here : q = q'
    · subst here
      simp [enqueuedId, leftId, Desks.next]
    · simp [enqueuedId, leftId, Desks.next, here, update_of_ne (Ne.symm here)]
  desk k id := by
    simp only [(sameTokens enabled rfl rfl).held]
    exact state.desk k id

/-- The first customer of its line leaves it for the clerk that has selected the queue, whose desk is free. -/
theorem leave {reading : Rat} (state : AtDesks cust as s d) (enabled : Enabled cust s (.leave i q reading))
    (withClerk : (s.vars q).status ≠ 0) :
    d.Can (.call (clerkOf (s.vars q).status) q (cust i).id) ∧
      AtDesks cust (as ++ [.leave i q reading]) (next cust s (.leave i q reading))
        (d.next (.call (clerkOf (s.vars q).status) q (cust i).id)) := by
  obtain ⟨k, status, -, -, free⟩ := state.tokens.offer q enabled.2.2.2.2 withClerk
  obtain ⟨l, nodes, ids⟩ := state.nodes q
  obtain ⟨c, l, rfl, first⟩ := nodes.head_of_checkHead enabled.2.2.2.1
  have head : (cust i).id = (cust c.2).id := of_decide_eq_true first.symm
  rw [nodeIds_cons, ← head] at ids
  obtain ⟨queue, done⟩ := leave_succeeds (integrity state.run).queues enabled
  rw [status, clerkOf_clerkId]
  have empty : d.desk k = none := by
    cases found : d.desk k with
    | none => rfl
    | some id =>
      obtain ⟨j, -, held⟩ := (state.desk k id).1 found
      exact absurd held (free j)
  refine ⟨⟨empty, by rw [← ids, List.head?_cons]⟩, state.run.step enabled, ?_, fun q' => ?_, fun k' id => ?_⟩
  · refine state.tokens.step enabled rfl (by simp) ?_
    rintro i' q' reading' same
    cases same
    exact withClerk
  · rw [leaveIds_snoc, enqueueIds_snoc, ← state.line q']
    by_cases here : q = q'
    · subst here
      simp [enqueuedId, leftId, Desks.next, ← ids]
    · simp [enqueuedId, leftId, Desks.next, here, update_of_ne (Ne.symm here)]
  · rw [leave_step done, status]
    by_cases here : k' = k
    · subst here
      simp only [Desks.next, update_self, Option.some.injEq]
      constructor
      · rintro rfl
        exact ⟨i, rfl, by rw [update_self]; rfl⟩
      · rintro ⟨j, rfl, held⟩
        by_cases same : j = i
        · rw [same]
        · rw [update_of_ne same] at held
          exact absurd held (free j)
    · simp only [Desks.next, update_of_ne here]
      rw [state.desk k' id, holders_kept]
      · simp [enabled.2.1, CustomerLoc.currClerk]
      · exact fun same => here (clerkId_injective (Option.some.inj same)).symm

/-- The customer at the clerk's desk is done. -/
theorem finish {c : Int} (state : AtDesks cust as s d) (enabled : Enabled cust s (.finish i c)) :
    d.Can (.dismiss (clerkOf c) (cust i).id) ∧
      AtDesks cust (as ++ [.finish i c]) (next cust s (.finish i c)) (d.next (.dismiss (clerkOf c) (cust i).id)) := by
  have mine := finish_holds enabled
  obtain ⟨k, -, rfl, -⟩ := state.tokens.holder i c mine
  rw [clerkOf_clerkId]
  refine ⟨(state.desk k _).2 ⟨i, rfl, mine⟩, state.run.step enabled, state.tokens.step enabled rfl (by simp) (by simp),
    fun q => ?_, fun k' id => ?_⟩
  · rw [leaveIds_snoc, enqueueIds_snoc, ← state.line q]
    simp [enqueuedId, leftId, Desks.next]
  · by_cases here : k' = k
    · subst here
      simp only [Desks.next, update_self, next]
      refine iff_of_false (by simp) ?_
      rintro ⟨j, -, held⟩
      obtain ⟨other, held⟩ := update_released rfl held
      exact absurd (state.tokens.distinct j i _ held mine) other
    · simp only [Desks.next, update_of_ne here, next]
      rw [state.desk k' id, holders_kept]
      · rw [mine]
        exact fun same => here (clerkId_injective (Option.some.inj same)).symm
      · simp [CustomerLoc.currClerk]

end AtDesks

theorem at_desks (classes : ∀ i, (cust i).classType = 0 ∨ (cust i).classType = 1)
    (run : Run (fun s a => Enabled cust s a ∧ a.spurious = false ∧ LeavesWithClerk s a) (next cust) (start n) as s) :
    ∃ d, Run Desks.Can Desks.next Desks.opened (shown cust as) d ∧ AtDesks cust as s d := by
  refine run.refines AtDesks.start (fun as s d a state can hidden => ?_) fun as s d a e state can shows => ?_
  · exact state.hidden can.1 can.2.1 (not_skip classes can.1) can.2.2 (Option.map_eq_none_iff.1 hidden)
  · cases a with
    | enqueue i q reading =>
      cases shows
      exact ⟨trivial, state.enqueue can.1⟩
    | leave i q reading =>
      cases shows
      exact state.leave can.1 can.2.2
    | finish i c =>
      cases shows
      exact state.finish can.1
    | _ => cases shows

/-- **The threads refine the desks.** -/
theorem threads_refine_desks (classes : ∀ i, (cust i).classType = 0 ∨ (cust i).classType = 1)
    (run : Run (fun s a => Enabled cust s a ∧ a.spurious = false ∧ LeavesWithClerk s a) (next cust) (start n) as s) :
    ∃ d, Run Desks.Can Desks.next Desks.opened (shown cust as) d ∧ ShowsDesks cust s d := by
  obtain ⟨d, spec, state⟩ := at_desks classes run
  exact ⟨d, spec, state.shows⟩

/-- One customer is called to the desk of clerk 3 and dismissed. -/
theorem threads_refine_desks_served :
    ∃ d, Run Desks.Can Desks.next Desks.opened (shown pair servedRun) d ∧
      ShowsDesks pair (servedRun.foldl (next pair) (start 2)) d :=
  threads_refine_desks (fun _ => .inr rfl) (Run.of_check (by decide))

example : shown pair servedRun = [.join .business 0, .call (clerkOf 3) .business 0, .dismiss (clerkOf 3) 0] := by decide

end CSC360.Clerks
