import CSC360.PMan.Shell

/-!
# The list is the unreaped children

**Between two iterations of the command loop the list from `head` holds the children
that have been forked and not reaped, in the order of their launch.** `Tracks` is the
invariant of all steps: only `fork` and `waitpid` change the children, and each comes
with the matching change of the list. So the list is empty exactly when there are no
children, and `waitpid` never fails in `check_zombieProcess`.
-/

namespace CSC360.PMan

open CSC360.Base

variable {as : List Action} {s s' : State} {a : Action} {l : List (Nat × Node)} {pid : Int}

/-- The step launches or reaps a child. -/
def launchOrReap (pids : List Int) : Action → List Int
  | .fork pid => pids ++ [pid]
  | .waitpid ret => if 0 < ret then pids.erase ret else pids
  | _ => pids

/-- The children forked and not yet reaped, in launch order. -/
def unreaped (as : List Action) : List Int := as.foldl launchOrReap []

theorem unreaped_snoc : unreaped (as ++ [a]) = launchOrReap (unreaped as) a := by
  rw [unreaped, List.foldl_append]
  rfl

/-- The process that the next system call signals or inspects. -/
def Loc.target : Loc → Option Int
  | .signalling pid _ | .openingStat pid | .openingStatus pid => some pid
  | _ => none

/-- The invariant. -/
structure Tracks (as : List Action) (s : State) : Prop where
  list : ∃ l, Seg s.heap s.head l none ∧ pids l = unreaped as
  children : s.children.map Child.pid = unreaped as
  distinct : (unreaped as).Nodup
  positive : ∀ pid ∈ unreaped as, 0 < pid
  target : ∀ pid, s.loc.target = some pid → pid ∈ unreaped as
  alive : s.loc ≠ .failed

theorem Tracks.start : Tracks [] start where
  list := ⟨[], rfl, rfl⟩
  children := rfl
  distinct := List.nodup_nil
  positive _ mem := by cases mem
  target _ none := by cases none
  alive := by simp [PMan.start]

/-! ## A line -/

/-- Where a line leads when the list is `l`. -/
inductive Leads (l : List (Nat × Node)) : Loc → Prop
  | prompt : Leads l .prompt
  | forking (program : Text) : Leads l (.forking program)
  | signalling (pid : Int) (sig : Signal) : pid ∈ pids l → Leads l (.signalling pid sig)
  | openingStat (pid : Int) : pid ∈ pids l → Leads l (.openingStat pid)
  | reaping : Leads l .reaping
  | crashed : Leads l .crashed

theorem bgsigEntry_leads (seg : Seg s.heap s.head l none) (pid : Int) (cmd : Text) :
    Leads l (bgsigEntry s pid cmd).1 := by
  rw [bgsigEntry, checkPid_eq seg seg.length_le_bound]
  by_cases listed : pid ∈ pids l
  · rw [if_pos listed]
    cases signalOf cmd with
    | none => exact .reaping
    | some sig => exact .signalling pid sig listed
  · rw [if_neg listed]
    exact .reaping

theorem pstatEntry_leads (seg : Seg s.heap s.head l none) (pid : Int) : Leads l (pstatEntry s pid).1 := by
  rw [pstatEntry, checkPid_eq seg seg.length_le_bound]
  by_cases listed : pid ∈ pids l
  · rw [if_pos listed]
    exact .openingStat pid listed
  · rw [if_neg listed]
    exact .reaping

theorem bglistEntry_leads (seg : Seg s.heap s.head l none) : Leads l (bglistEntry s).1 := by
  rw [bglistEntry, listNodes_eq seg seg.length_le_bound]
  exact .reaping

theorem command_leads (seg : Seg s.heap s.head l none) (cmd : Text) : Leads l (command s cmd).1 := by
  unfold command
  split
  · exact .prompt
  cases tokens cmd with
  | nil => exact .crashed
  | cons cmdType args =>
    dsimp only
    split
    · cases args with
      | nil => exact .prompt
      | cons program _ => exact .forking program
    split
    · cases args with
      | nil => exact bglistEntry_leads seg
      | cons _ _ => exact .prompt
    split
    · cases args with
      | nil => exact .prompt
      | cons arg _ => exact bgsigEntry_leads seg _ _
    split
    · cases args with
      | nil => exact .prompt
      | cons arg _ => exact pstatEntry_leads seg _
    · exact .reaping

theorem Leads.target {loc : Loc} (leads : Leads l loc) (target : loc.target = some pid) : pid ∈ pids l := by
  cases leads with
  | signalling pid sig listed | openingStat pid listed =>
    obtain rfl := Option.some.inj target
    exact listed
  | _ => cases target

theorem Leads.alive {loc : Loc} (leads : Leads l loc) : loc ≠ .failed := by
  cases leads <;> simp

/-! ## The steps -/

/-- Taking out the first element with a key takes the key out of the keys. -/
theorem map_eraseP {α : Type} (key : α → Int) (v : Int) (l : List α) :
    (l.eraseP fun c => key c = v).map key = (l.map key).erase v := by
  induction l with
  | nil => rfl
  | cons c l ih =>
    by_cases here : key c = v
    · rw [List.eraseP_cons_of_pos (by simpa using here), List.map_cons, here, List.erase_cons_head]
    · rw [List.eraseP_cons_of_neg (by simpa using here), List.map_cons, List.map_cons, ih,
        List.erase_cons_tail (by simpa using here)]

/-- Steps that launch and reap nobody. -/
theorem Tracks.kept (tracks : Tracks as s) (quiet : launchOrReap (unreaped as) a = unreaped as)
    (heap : s'.heap = s.heap) (head : s'.head = s.head) (children : s'.children.map Child.pid = s.children.map Child.pid)
    (target : ∀ pid, s'.loc.target = some pid → pid ∈ unreaped as) (alive : s'.loc ≠ .failed) :
    Tracks (as ++ [a]) s' := by
  have same : unreaped (as ++ [a]) = unreaped as := by rw [unreaped_snoc, quiet]
  refine ⟨?_, ?_, ?_, ?_, ?_, alive⟩
  · rw [heap, head, same]
    exact tracks.list
  · rw [children, same, tracks.children]
  · rw [same]
    exact tracks.distinct
  · rw [same]
    exact tracks.positive
  · rw [same]
    exact target

theorem Tracks.readline (tracks : Tracks as s) (cmd : Option Text) :
    Tracks (as ++ [.readline cmd]) (next s (.readline cmd)) := by
  cases cmd with
  | none => exact tracks.kept rfl rfl rfl rfl (fun _ none => by cases none) (by simp [next])
  | some cmd =>
    obtain ⟨l, seg, same⟩ := tracks.list
    have leads := command_leads seg cmd
    exact tracks.kept rfl rfl rfl rfl (fun pid target => same ▸ leads.target target) leads.alive

theorem Tracks.fork (tracks : Tracks as s) (enabled : Enabled s (.fork pid)) :
    Tracks (as ++ [.fork pid]) (next s (.fork pid)) := by
  obtain ⟨forking, positive, unused⟩ := enabled
  obtain ⟨l, seg, same⟩ := tracks.list
  cases found : s.loc with
  | forking program =>
    obtain ⟨heap, head, inserted, seg'⟩ := insertNode_eq seg ⟨pid, program⟩
    have after : unreaped (as ++ [.fork pid]) = unreaped as ++ [pid] := by rw [unreaped_snoc, launchOrReap]
    simp only [next, found, inserted]
    refine ⟨⟨_, seg', ?_⟩, ?_, ?_, ?_, fun _ none => (by cases none), by simp⟩
    · rw [after, ← same, pids, List.map_append]
      rfl
    · rw [after, ← tracks.children, List.map_append]
      rfl
    · rw [after, List.nodup_append_comm, List.singleton_append, List.nodup_cons, ← tracks.children]
      exact ⟨unused, tracks.children ▸ tracks.distinct⟩
    · rw [after]
      intro other mem
      rcases List.mem_append.1 mem with old | new
      · exact tracks.positive other old
      · rwa [List.mem_singleton.1 new]
  | _ =>
    rw [found] at forking
    cases forking

theorem Tracks.waitpid {ret : Int} (tracks : Tracks as s) (enabled : Enabled s (.waitpid ret)) :
    Tracks (as ++ [.waitpid ret]) (next s (.waitpid ret)) := by
  obtain ⟨reaping, nonempty, returns⟩ := enabled
  obtain ⟨l, seg, same⟩ := tracks.list
  by_cases positive : 0 < ret
  · obtain ⟨heap, head, removed, seg'⟩ := removeNode_eq seg ret
    have after : unreaped (as ++ [.waitpid ret]) = (unreaped as).erase ret := by
      rw [unreaped_snoc, launchOrReap, if_pos positive]
    simp only [next, if_pos positive, removed]
    refine ⟨⟨_, seg', ?_⟩, ?_, ?_, ?_, fun _ none => (by cases none), by simp⟩
    · rw [after, ← same, pids, pids, map_eraseP fun c : Nat × Node => c.2.pid]
    · rw [after, ← tracks.children, map_eraseP Child.pid]
    · rw [after]
      exact tracks.distinct.erase ret
    · rw [after]
      exact fun other mem => tracks.positive other (List.mem_of_mem_erase mem)
  · rcases returns with ⟨reaped, -⟩ | ⟨rfl, -⟩ | ⟨rfl, childless⟩
    · exact absurd reaped positive
    · exact tracks.kept rfl rfl rfl rfl (fun _ none => by cases none) (by simp [next])
    · -- without children the list is empty, and PMan has returned before it calls `waitpid`
      rw [← tracks.children, childless, List.map_nil] at same
      obtain rfl : l = [] := List.map_eq_nil_iff.1 same
      exact absurd seg nonempty

theorem Tracks.step (tracks : Tracks as s) (enabled : Enabled s a) : Tracks (as ++ [a]) (next s a) := by
  have here := tracks.target
  cases a with
  | readline cmd => exact tracks.readline cmd
  | fork pid => exact tracks.fork enabled
  | kill ret =>
    obtain ⟨signalling, -⟩ := enabled
    cases found : s.loc with
    | signalling pid sig =>
      simp only [next, found]
      exact tracks.kept rfl rfl rfl rfl (fun _ none => by cases none) (by simp)
    | _ =>
      rw [found] at signalling
      cases signalling
  | openStat opened =>
    cases found : s.loc with
    | openingStat pid =>
      simp only [next, found]
      rw [found] at here
      exact tracks.kept rfl rfl rfl rfl here (by simp)
    | _ => simp [Enabled, found] at enabled
  | openStatus opened => exact tracks.kept rfl rfl rfl rfl (fun _ none => by cases none) (by simp [next])
  | waitpid ret => exact tracks.waitpid enabled
  | emptyList => exact tracks.kept rfl rfl rfl rfl (fun _ none => by cases none) (by simp [next])
  | terminate pid cause =>
    refine tracks.kept rfl rfl rfl ?_ here tracks.alive
    simp only [next, List.map_map]
    apply List.map_congr_left
    intro c _
    simp only [Function.comp]
    split <;> rfl

theorem tracks (run : Reaches as s) : Tracks as s :=
  run.invariant Tracks.start fun _ _ _ _ tracks enabled => tracks.step enabled

/-! ## `check_zombieProcess` -/

/-- The steps of `check_zombieProcess`. -/
def Action.checks : Action → Bool
  | .waitpid _ | .emptyList => true
  | _ => false

/-- From this state on, `check_zombieProcess` ends. -/
structure CheckEnds (as : List Action) (s : State) : Prop where
  /-- it is never stuck -/
  proceeds : ∃ a, a.checks = true ∧ Enabled s a
  /-- it takes at most one step for each child and one to return -/
  bounded : ∀ bs s', Run (fun s a => Enabled s a ∧ s.loc = .reaping) next s bs s' →
    (bs.filter Action.checks).length ≤ (unreaped as).length + 1
  /-- when it returns, the children that are left are running -/
  returns : ∀ a, a.checks = true → Enabled s a →
    ((next s a).loc = .prompt ∧ ∀ c ∈ (next s a).children, c.cause = none) ∨ (next s a).loc = .reaping

/-- The list is empty exactly when there are no children. -/
theorem Tracks.head_eq_none (tracks : Tracks as s) : s.head = none ↔ s.children = [] := by
  obtain ⟨l, seg, same⟩ := tracks.list
  rw [← tracks.children] at same
  constructor
  · intro empty
    rw [empty] at seg
    obtain rfl : l = [] := seg.unique rfl
    exact List.map_eq_nil_iff.1 same.symm
  · intro childless
    rw [childless, List.map_nil] at same
    obtain rfl : l = [] := List.map_eq_nil_iff.1 same
    exact seg

theorem Tracks.proceeds (tracks : Tracks as s) (reaping : s.loc = .reaping) :
    ∃ a, a.checks = true ∧ Enabled s a := by
  by_cases empty : s.head = none
  · exact ⟨.emptyList, rfl, reaping, empty⟩
  · by_cases running : ∀ c ∈ s.children, c.cause = none
    · exact ⟨.waitpid 0, rfl, reaping, empty, .inr (.inl ⟨rfl, mt tracks.head_eq_none.2 empty, running⟩)⟩
    · simp only [not_forall] at running
      obtain ⟨c, mem, terminated⟩ := running
      have positive : 0 < c.pid := tracks.positive _ (tracks.children ▸ List.mem_map_of_mem mem)
      exact ⟨.waitpid c.pid, rfl, reaping, empty, .inl ⟨positive, c, mem, rfl, terminated⟩⟩

/-- A call of `waitpid` reaps a child or is the last one. -/
theorem Tracks.checks (tracks : Tracks as s) (checks : a.checks = true) (enabled : Enabled s a) :
    ((next s a).loc = .prompt ∧ ∀ c ∈ (next s a).children, c.cause = none) ∨
      ((next s a).loc = .reaping ∧ (unreaped (as ++ [a])).length + 1 = (unreaped as).length) := by
  cases a with
  | emptyList =>
    obtain ⟨-, empty⟩ := enabled
    refine .inl ⟨rfl, ?_⟩
    simp only [next, tracks.head_eq_none.1 empty]
    exact fun c mem => by cases mem
  | waitpid ret =>
    have alive := (tracks.waitpid enabled).alive
    obtain ⟨-, -, returns⟩ := enabled
    rcases returns with ⟨positive, c, mem, rfl, -⟩ | ⟨rfl, -, running⟩ | ⟨rfl, -⟩
    · obtain ⟨l, seg, -⟩ := tracks.list
      obtain ⟨heap, head, removed, -⟩ := removeNode_eq seg c.pid
      have listed : c.pid ∈ unreaped as := tracks.children ▸ List.mem_map_of_mem mem
      refine .inr ⟨by simp only [next, if_pos positive, removed], ?_⟩
      rw [unreaped_snoc, launchOrReap, if_pos positive, List.length_erase_of_mem listed]
      exact Nat.sub_add_cancel (List.length_pos_of_mem listed)
    · exact .inl ⟨rfl, running⟩
    · exact absurd rfl alive
  | _ => cases checks

/-- The steps of others do not get `check_zombieProcess` on. -/
theorem unreaped_terminate {cause : Cause} : unreaped (as ++ [.terminate pid cause]) = unreaped as := by
  rw [unreaped_snoc]
  rfl

theorem Tracks.bounded (run : Reaches as s) {bs : List Action}
    (check : Run (fun s a => Enabled s a ∧ s.loc = .reaping) next s bs s') :
    (bs.filter Action.checks).length ≤ (unreaped as).length + 1 ∧ (s'.loc = .reaping →
      (bs.filter Action.checks).length + (unreaped (as ++ bs)).length ≤ (unreaped as).length) := by
  induction check with
  | start => simp
  | @step bs t a check can ih =>
    obtain ⟨enabled, reaping⟩ := can
    have bound := ih.2 reaping
    have state : Tracks (as ++ bs) t := tracks (run.append (check.mono fun _ _ can => can.1))
    rw [List.filter_append, List.length_append, ← List.append_assoc]
    cases mine : a.checks with
    | true =>
      rw [List.filter_cons_of_pos mine]
      rcases state.checks mine enabled with ⟨loc, -⟩ | ⟨-, shorter⟩
      · refine ⟨by simp only [List.filter_nil, List.length_singleton]; omega, fun again => ?_⟩
        rw [loc] at again
        cases again
      · simp only [List.filter_nil, List.length_singleton]
        exact ⟨by omega, fun _ => by omega⟩
    | false =>
      rw [List.filter_cons_of_neg (by simp [mine])]
      cases a with
      | terminate pid cause =>
        rw [unreaped_terminate]
        exact ⟨ih.1, fun _ => bound⟩
      | readline | fork | kill | openStat | openStatus =>
        -- not a step of a process that is in `check_zombieProcess`
        simp [Enabled, reaping] at enabled
      | waitpid | emptyList => cases mine

/-- **The list is the unreaped children.** Between two iterations the list from `head` is
finite, has distinct pids and holds the children that were forked and not reaped, in
launch order. `check_zombieProcess` ends, with every child removed that had terminated
before its last `waitpid`, and `waitpid` never fails in it. -/
theorem list_is_unreaped (run : Reaches as s) :
    (s.loc = .prompt → ∃ l, Seg s.heap s.head l none ∧ (pids l).Nodup ∧ pids l = unreaped as ∧
      s.children.map Child.pid = unreaped as) ∧
      (s.loc = .reaping → CheckEnds as s) ∧ s.loc ≠ .failed := by
  have state := tracks run
  refine ⟨fun _ => ?_, fun reaping => ⟨state.proceeds reaping, ?_, ?_⟩, state.alive⟩
  · obtain ⟨l, seg, same⟩ := state.list
    exact ⟨l, seg, same ▸ state.distinct, same, state.children⟩
  · exact fun bs s' check => (Tracks.bounded run check).1
  · exact fun a checks enabled => (state.checks checks enabled).imp_right And.left

/-- Two children; the first one terminates and is reaped at the end of the second command. -/
def reapedRun : List Action :=
  [.readline (some "bg sleep 10".toList), .fork 41, .waitpid 0, .readline (some "bg ls".toList),
    .terminate 41 .exited, .fork 42, .waitpid 41, .waitpid 0]

theorem list_is_unreaped_sample :
    ((reapedRun.foldl next start).loc = .prompt → ∃ l,
      Seg (reapedRun.foldl next start).heap (reapedRun.foldl next start).head l none ∧ (pids l).Nodup ∧
        pids l = unreaped reapedRun ∧ (reapedRun.foldl next start).children.map Child.pid = unreaped reapedRun) ∧
      ((reapedRun.foldl next start).loc = .reaping → CheckEnds reapedRun (reapedRun.foldl next start)) ∧
      (reapedRun.foldl next start).loc ≠ .failed :=
  list_is_unreaped (Run.of_check (by decide))

end CSC360.PMan
