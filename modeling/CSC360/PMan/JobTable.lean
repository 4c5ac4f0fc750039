import CSC360.PMan.Reaping

/-!
# PMan is a job table

What PMan is for, without pointers: a table of the jobs that have been launched and not
reported, in launch order. A line is a `Request`; what it does depends on the table through
the pids in it only. **The machine on the heap and the table have the same runs**
(`pman_refines`, `pman_realizes`): the calls, the locations and everything printed agree, the list
from `head` shows the jobs, and the kernel's children are those of the table.

The pids of a table are distinct and positive by construction, so that taking a job out of
it says what `removeNode` does to the list, and `waitpid` has no way to fail.
-/

namespace CSC360.PMan

open CSC360.Base

/-! ## The abstract machine -/

/-- A process that has been launched and not reported; without a cause it is running. -/
structure Job where
  pid : Int
  command : Text
  cause : Option Cause
  deriving DecidableEq

def Job.node (j : Job) : Node := ⟨j.pid, j.command⟩

def Job.child (j : Job) : Child := ⟨j.pid, j.cause⟩

/-- What is printed of a job when it is taken out of the table. -/
def Job.report (j : Job) : List Output :=
  match j.cause with
  | some .exited => [.terminated j.pid]
  | some .signaled => [.killed j.pid]
  | none => []

/-- The jobs in launch order. -/
structure JobTable where
  jobs : List Job
  distinct : (jobs.map Job.pid).Nodup
  positive : ∀ j ∈ jobs, 0 < j.pid

namespace JobTable

def pids (t : JobTable) : List Int := t.jobs.map Job.pid

def empty : JobTable := ⟨[], List.nodup_nil, nofun⟩

def launch (t : JobTable) (pid : Int) (command : Text) (new : 0 < pid ∧ pid ∉ t.pids) : JobTable where
  jobs := t.jobs ++ [⟨pid, command, none⟩]
  distinct := by
    rw [List.map_append, List.nodup_append_comm]
    exact List.nodup_cons.2 ⟨new.2, t.distinct⟩
  positive j mem := by
    rcases List.mem_append.1 mem with old | last
    · exact t.positive j old
    · rw [List.mem_singleton.1 last]
      exact new.1

/-- The job has terminated. -/
def terminate (t : JobTable) (pid : Int) (cause : Cause) : JobTable where
  jobs := t.jobs.map fun j => if j.pid = pid then { j with cause := some cause } else j
  distinct := by
    have same : (Job.pid ∘ fun j : Job => if j.pid = pid then { j with cause := some cause } else j) = Job.pid := by
      funext j
      simp only [Function.comp]
      split <;> rfl
    rw [List.map_map, same]
    exact t.distinct
  positive j mem := by
    obtain ⟨j, old, rfl⟩ := List.mem_map.1 mem
    have positive := t.positive j old
    split <;> exact positive

/-- The job is taken out. -/
def reap (t : JobTable) (pid : Int) : JobTable where
  jobs := t.jobs.filter (·.pid ≠ pid)
  distinct := t.distinct.sublist (List.filter_sublist.map _)
  positive j mem := t.positive j (List.mem_of_mem_filter mem)

variable {t : JobTable} {pid : Int}

@[simp]
theorem launch_jobs {command : Text} {new : 0 < pid ∧ pid ∉ t.pids} :
    (t.launch pid command new).jobs = t.jobs ++ [⟨pid, command, none⟩] := rfl

@[simp]
theorem terminate_jobs {cause : Cause} :
    (t.terminate pid cause).jobs = t.jobs.map fun j => if j.pid = pid then { j with cause := some cause } else j := rfl

@[simp]
theorem reap_jobs : (t.reap pid).jobs = t.jobs.filter (·.pid ≠ pid) := rfl

end JobTable

/-- What a line asks for. -/
inductive Request
  | nothing
  /-- a line of spaces, with which PMan follows a null pointer -/
  | spaces
  | launch (program : Text)
  | list
  | signal (pid : Int) (sig : Signal)
  | inspect (pid : Int)
  | missing (cmdType : Text)
  | extra
  | unknown (cmdType : Text)

/-- The request of a line, whatever the jobs are. -/
def request (cmd : Text) : Request :=
  if cmd = [] then .nothing
  else match tokens cmd with
    | [] => .spaces
    | cmdType :: args =>
      if cmdType = cmdBg then
        match args with
        | [] => .missing cmdType
        | program :: _ => .launch program
      else if cmdType = cmdBglist then
        match args with
        | [] => .list
        | _ :: _ => .extra
      else match signalOf cmdType with
        | some sig =>
          match args with
          | [] => .missing cmdType
          | arg :: _ => .signal (toPid (strtol arg)) sig
        | none =>
          if cmdType = cmdPstat then
            match args with
            | [] => .missing cmdType
            | arg :: _ => .inspect (toPid (strtol arg))
          else .unknown cmdType

/-- What the request does up to the next system call. -/
def JobTable.answer (t : JobTable) : Request → Loc × List Output
  | .nothing => (.prompt, [])
  | .spaces => (.crashed, [])
  | .launch program => (.forking program, [])
  | .list => (.reaping, (t.jobs.map fun j => .job j.node) ++ [.total t.jobs.length])
  | .signal pid sig => if pid ∈ t.pids then (.signalling pid sig, []) else (.reaping, [.doesNotExist pid])
  | .inspect pid => if pid ∈ t.pids then (.openingStat pid, []) else (.reaping, [.noProcess pid])
  | .missing cmdType => (.prompt, [.missingArgument cmdType])
  | .extra => (.prompt, [.tooManyArguments])
  | .unknown cmdType => (.reaping, [.notFound cmdType])

/-- What is printed behind the signal, whatever `kill` returns. -/
def Signal.acknowledge (pid : Int) : Signal → List Output
  | .sigstop => [.stopped pid]
  | .sigcont => [.resumed pid]
  | .sigterm => []

structure Session where
  loc : Loc
  table : JobTable
  output : List Output

namespace Session

def start : Session := ⟨.prompt, .empty, []⟩

def Enabled (t : Session) : Action → Prop
  | .readline _ => t.loc = .prompt
  | .fork pid => (t.loc matches .forking _) ∧ 0 < pid ∧ pid ∉ t.table.pids
  | .kill ret => (t.loc matches .signalling _ _) ∧ (ret = 0 ∨ ret = -1)
  | .openStat _ => (t.loc matches .openingStat _) = true
  | .openStatus _ => (t.loc matches .openingStatus _) = true
  -- the call reports a terminated job, or there is none and jobs are running
  | .waitpid ret => t.loc = .reaping ∧ t.table.jobs ≠ [] ∧
      ((∃ j ∈ t.table.jobs, j.pid = ret ∧ j.cause ≠ none) ∨ ret = 0 ∧ ∀ j ∈ t.table.jobs, j.cause = none)
  | .emptyList => t.loc = .reaping ∧ t.table.jobs = []
  | .terminate pid _ => ∃ j ∈ t.table.jobs, j.pid = pid ∧ j.cause = none

def next (t : Session) : Action → Session
  | .readline none => { t with loc := .crashed }
  | .readline (some cmd) =>
    { t with loc := (t.table.answer (request cmd)).1, output := t.output ++ (t.table.answer (request cmd)).2 }
  | .fork pid =>
    match t.loc with
    | .forking program =>
      if new : 0 < pid ∧ pid ∉ t.table.pids then
        ⟨.reaping, t.table.launch pid program new, t.output ++ [.running pid]⟩
      else t
    | _ => t
  | .kill _ =>
    match t.loc with
    | .signalling pid sig => { t with loc := .reaping, output := t.output ++ sig.acknowledge pid }
    | _ => t
  | .openStat found =>
    match t.loc with
    | .openingStat pid =>
      { t with loc := .openingStatus pid, output := t.output ++ if found then [] else [.noStat] }
    | _ => t
  | .openStatus found => { t with loc := .reaping, output := t.output ++ if found then [] else [.noStatus] }
  | .waitpid ret =>
    if ret = 0 then { t with loc := .prompt }
    else
      ⟨.reaping, t.table.reap ret, t.output ++ (t.table.jobs.filter (·.pid = ret)).flatMap Job.report⟩
  | .emptyList => { t with loc := .prompt }
  | .terminate pid cause => { t with table := t.table.terminate pid cause }

/-- The runs of the job table. -/
abbrev Reaches (as : List Action) (t : Session) : Prop := Run Enabled next start as t

end Session

/-! ## The machine shows the table -/

/-- The machine is where the session is, has printed the same, and holds the jobs of the table. -/
structure Shows (s : State) (t : Session) : Prop where
  loc : s.loc = t.loc
  output : s.output = t.output
  list : ∃ l, Seg s.heap s.head l none ∧ l.map Prod.snd = t.table.jobs.map Job.node
  children : s.children = t.table.jobs.map Job.child

variable {as : List Action} {s : State} {t : Session} {a : Action} {l : List (Nat × Node)} {pid : Int}

theorem Shows.start : Shows PMan.start Session.start := ⟨rfl, rfl, ⟨[], rfl, rfl⟩, rfl⟩

theorem pids_eq {t : JobTable} (same : l.map Prod.snd = t.jobs.map Job.node) : pids l = t.pids := by
  have nodes := congrArg (List.map Node.pid) same
  rwa [List.map_map, List.map_map] at nodes

theorem Shows.children_pids (shows' : Shows s t) : s.children.map Child.pid = t.table.pids := by
  rw [shows'.children, List.map_map]
  rfl

theorem Shows.checkPid (shows' : Shows s t) (pid : Int) :
    checkPid s.heap pid s.heap.bound s.head = some (if pid ∈ t.table.pids then 0 else 1) := by
  obtain ⟨l, seg, same⟩ := shows'.list
  rw [checkPid_eq seg seg.length_le_bound, pids_eq same]

theorem Shows.bglistEntry (shows' : Shows s t) : bglistEntry s = t.table.answer .list := by
  obtain ⟨l, seg, same⟩ := shows'.list
  rw [PMan.bglistEntry, listNodes_eq seg seg.length_le_bound, same]
  simp [JobTable.answer, Function.comp_def]

theorem Shows.bgsigEntry (shows' : Shows s t) {cmd : Text} {sig : Signal} (named : signalOf cmd = some sig) :
    bgsigEntry s pid cmd = t.table.answer (.signal pid sig) := by
  rw [PMan.bgsigEntry, shows'.checkPid, named, JobTable.answer]
  by_cases listed : pid ∈ t.table.pids
  · rw [if_pos listed, if_pos listed]
    rfl
  · rw [if_neg listed, if_neg listed]
    rfl

theorem Shows.pstatEntry (shows' : Shows s t) : pstatEntry s pid = t.table.answer (.inspect pid) := by
  rw [PMan.pstatEntry, shows'.checkPid, JobTable.answer]
  by_cases listed : pid ∈ t.table.pids
  · rw [if_pos listed, if_pos listed]
    rfl
  · rw [if_neg listed, if_neg listed]
    rfl

theorem signalOf_none {cmd : Text} : signalOf cmd = none ↔ ¬ (cmd = cmdBgkill ∨ cmd = cmdBgstop ∨ cmd = cmdBgcont) := by
  unfold signalOf
  by_cases stop : cmd = cmdBgstop
  · simp [stop]
  by_cases cont : cmd = cmdBgcont
  · rw [if_neg stop, if_pos cont]
    simp [cont]
  · rw [if_neg stop, if_neg cont]
    simp [stop, cont]

/-- **A line does on the heap what its request does on the table.** -/
theorem Shows.command (shows' : Shows s t) (cmd : Text) : command s cmd = t.table.answer (request cmd) := by
  unfold PMan.command request
  split
  · rfl
  cases tokens cmd with
  | nil => rfl
  | cons cmdType args =>
    dsimp only
    split
    · cases args <;> rfl
    split
    · cases args with
      | nil => exact shows'.bglistEntry
      | cons _ _ => rfl
    cases named : signalOf cmdType with
    | none =>
      rw [if_neg (signalOf_none.1 named)]
      dsimp only
      split
      · cases args with
        | nil => rfl
        | cons arg _ => exact shows'.pstatEntry
      · rfl
    | some sig =>
      have among : cmdType = cmdBgkill ∨ cmdType = cmdBgstop ∨ cmdType = cmdBgcont := by
        by_contra other
        rw [signalOf_none.2 other] at named
        cases named
      rw [if_pos among]
      cases args with
      | nil => rfl
      | cons arg _ => exact shows'.bgsigEntry named

/-! ## The steps -/

/-- Taking out the first job with a pid takes out the only one. -/
theorem eraseP_eq_filter {α : Type} (key : α → Int) (v : Int) {l : List α} (distinct : (l.map key).Nodup) :
    (l.eraseP fun c => key c = v) = l.filter fun c => key c ≠ v := by
  induction l with
  | nil => rfl
  | cons c l ih =>
    obtain ⟨notMem, rest⟩ := List.nodup_cons.1 distinct
    by_cases here : key c = v
    · rw [List.eraseP_cons_of_pos (by simpa using here), List.filter_cons_of_neg (by simpa using here)]
      refine (List.filter_eq_self.2 fun d mem => ?_).symm
      have other : key d ≠ key c := fun same => notMem (same ▸ List.mem_map_of_mem mem)
      simpa [← here] using other
    · rw [List.eraseP_cons_of_neg (by simpa using here), List.filter_cons_of_pos (by simpa using here), ih rest]

theorem killOutput_eq {ret : Int} (returns : ret = 0 ∨ ret = -1) (sig : Signal) :
    killOutput pid ret sig = sig.acknowledge pid := by
  have success : ret ≠ 1 := by omega
  cases sig <;> simp [killOutput, Signal.acknowledge, success]

theorem Shows.head_eq_none (shows' : Shows s t) : s.head = none ↔ t.table.jobs = [] := by
  obtain ⟨l, seg, same⟩ := shows'.list
  have lengths := congrArg List.length same
  rw [List.length_map, List.length_map] at lengths
  cases l with
  | nil =>
    have none : t.table.jobs = [] := List.eq_nil_of_length_eq_zero lengths.symm
    exact ⟨fun _ => none, fun _ => seg⟩
  | cons c l =>
    obtain ⟨first, -⟩ := seg
    refine ⟨fun empty => ?_, fun empty => ?_⟩
    · rw [first] at empty
      cases empty
    · rw [empty] at lengths
      cases lengths

theorem Shows.waitReturns (shows' : Shows s t) (some : t.table.jobs ≠ []) (ret : Int) :
    WaitReturns s.children ret ↔
      (∃ j ∈ t.table.jobs, j.pid = ret ∧ j.cause ≠ none) ∨ ret = 0 ∧ ∀ j ∈ t.table.jobs, j.cause = none := by
  rw [WaitReturns, shows'.children]
  constructor
  · rintro (⟨-, c, mem, same, dead⟩ | ⟨zero, -, running⟩ | ⟨-, none⟩)
    · obtain ⟨j, listed, rfl⟩ := List.mem_map.1 mem
      exact .inl ⟨j, listed, same, dead⟩
    · exact .inr ⟨zero, fun j listed => running j.child (List.mem_map_of_mem listed)⟩
    · exact absurd (List.map_eq_nil_iff.1 none) some
  · rintro (⟨j, listed, rfl, dead⟩ | ⟨zero, running⟩)
    · exact .inl ⟨t.table.positive j listed, j.child, List.mem_map_of_mem listed, rfl, dead⟩
    · refine .inr (.inl ⟨zero, mt List.map_eq_nil_iff.1 some, fun c mem => ?_⟩)
      obtain ⟨j, listed, rfl⟩ := List.mem_map.1 mem
      exact running j listed

theorem Shows.enabled_iff (shows' : Shows s t) (a : Action) : PMan.Enabled s a ↔ t.Enabled a := by
  cases a with
  | readline cmd | kill ret | openStat found | openStatus found =>
    rw [PMan.Enabled, shows'.loc]
    exact Iff.rfl
  | fork pid =>
    rw [PMan.Enabled, shows'.loc, shows'.children_pids]
    exact Iff.rfl
  | waitpid ret =>
    simp only [PMan.Enabled, Session.Enabled, shows'.loc, Ne, shows'.head_eq_none]
    refine and_congr_right fun _ => and_congr_right fun some => ?_
    exact shows'.waitReturns some ret
  | emptyList => simp only [PMan.Enabled, Session.Enabled, shows'.loc, shows'.head_eq_none]
  | terminate pid cause =>
    rw [PMan.Enabled, shows'.children]
    constructor
    · rintro ⟨c, mem, same, running⟩
      obtain ⟨j, listed, rfl⟩ := List.mem_map.1 mem
      exact ⟨j, listed, same, running⟩
    · rintro ⟨j, listed, same, running⟩
      exact ⟨j.child, List.mem_map_of_mem listed, same, running⟩

theorem Shows.fork (shows' : Shows s t) (enabled : PMan.Enabled s (.fork pid)) :
    Shows (PMan.next s (.fork pid)) (t.next (.fork pid)) := by
  obtain ⟨forking, new⟩ := enabled
  rw [shows'.children_pids] at new
  obtain ⟨l, seg, same⟩ := shows'.list
  have loc := shows'.loc
  cases found : s.loc with
  | forking program =>
    obtain ⟨heap, head, inserted, seg'⟩ := insertNode_eq seg ⟨pid, program⟩
    rw [found] at loc
    simp only [PMan.next, Session.next, found, inserted, ← loc, dif_pos new]
    refine ⟨rfl, by rw [shows'.output], ⟨_, seg', ?_⟩, ?_⟩
    · rw [List.map_append, same, JobTable.launch_jobs, List.map_append]
      rfl
    · rw [shows'.children, JobTable.launch_jobs, List.map_append]
      rfl
  | _ =>
    rw [found] at forking
    cases forking

/-- What is printed of the child that is reaped is the report of the job with its pid. -/
theorem reapOutput_eq {jobs : List Job} (distinct : (jobs.map Job.pid).Nodup) (pid : Int) :
    reapOutput (jobs.map Job.child) pid = (jobs.filter (·.pid = pid)).flatMap Job.report := by
  unfold reapOutput
  induction jobs with
  | nil => rfl
  | cons j jobs ih =>
    obtain ⟨notMem, rest⟩ := List.nodup_cons.1 distinct
    rw [List.map_cons]
    by_cases here : j.pid = pid
    · have others : jobs.filter (·.pid = pid) = [] := by
        refine List.filter_eq_nil_iff.2 fun k mem same => notMem ?_
        rw [here, ← of_decide_eq_true same]
        exact List.mem_map_of_mem mem
      subst here
      rw [List.find?_cons_of_pos (by exact decide_eq_true rfl), List.filter_cons_of_pos (by exact decide_eq_true rfl),
        others, List.flatMap_singleton]
      rfl
    · rw [List.find?_cons_of_neg (by exact mt of_decide_eq_true here), List.filter_cons_of_neg (by simpa using here)]
      exact ih rest

theorem Shows.waitpid {ret : Int} (shows' : Shows s t) (enabled : PMan.Enabled s (.waitpid ret)) :
    Shows (PMan.next s (.waitpid ret)) (t.next (.waitpid ret)) := by
  have output := reapOutput_eq t.table.distinct ret
  rw [← shows'.children] at output
  obtain ⟨-, some, returns⟩ := (shows'.enabled_iff _).1 enabled
  rcases returns with ⟨j, listed, rfl, -⟩ | ⟨rfl, -⟩
  · have positive := t.table.positive j listed
    obtain ⟨l, seg, same⟩ := shows'.list
    obtain ⟨heap, head, removed, seg'⟩ := removeNode_eq seg j.pid
    simp only [PMan.next, Session.next, if_pos positive, removed, if_neg (Int.ne_of_gt positive)]
    refine ⟨rfl, by rw [shows'.output, output], ⟨_, seg', ?_⟩, ?_⟩
    · have pids : (l.map fun c => c.2.pid) = t.table.pids := pids_eq same
      have filtered := congrArg (List.filter fun n : Node => n.pid ≠ j.pid) same
      rw [eraseP_eq_filter (fun c : Nat × Node => c.2.pid) _ (pids ▸ t.table.distinct)]
      rwa [List.filter_map, List.filter_map] at filtered
    · have filtered := congrArg (List.filter fun c : Child => c.pid ≠ j.pid) shows'.children
      rw [eraseP_eq_filter Child.pid _ (shows'.children_pids ▸ t.table.distinct)]
      rwa [List.filter_map] at filtered
  · exact ⟨rfl, shows'.output, shows'.list, shows'.children⟩

theorem Shows.step (shows' : Shows s t) (enabled : PMan.Enabled s a) : Shows (PMan.next s a) (t.next a) := by
  have loc := shows'.loc
  cases a with
  | readline cmd =>
    cases cmd with
    | none => exact ⟨rfl, shows'.output, shows'.list, shows'.children⟩
    | some cmd =>
      simp only [PMan.next, Session.next, shows'.command]
      exact ⟨rfl, by rw [shows'.output], shows'.list, shows'.children⟩
  | fork pid => exact shows'.fork enabled
  | kill ret =>
    obtain ⟨signalling, returns⟩ := enabled
    cases found : s.loc with
    | signalling pid sig =>
      rw [found] at loc
      simp only [PMan.next, Session.next, found, ← loc, killOutput_eq returns]
      exact ⟨rfl, by rw [shows'.output], shows'.list, shows'.children⟩
    | _ =>
      rw [found] at signalling
      cases signalling
  | openStat opened =>
    cases found : s.loc with
    | openingStat pid =>
      rw [found] at loc
      simp only [PMan.next, Session.next, found, ← loc]
      exact ⟨rfl, by rw [shows'.output], shows'.list, shows'.children⟩
    | _ => simp [PMan.Enabled, found] at enabled
  | openStatus opened =>
    exact ⟨rfl, by simp only [PMan.next, Session.next, shows'.output], shows'.list, shows'.children⟩
  | waitpid ret => exact shows'.waitpid enabled
  | emptyList => exact ⟨rfl, shows'.output, shows'.list, shows'.children⟩
  | terminate pid cause =>
    obtain ⟨l, seg, same⟩ := shows'.list
    refine ⟨loc, shows'.output, ⟨l, seg, ?_⟩, ?_⟩
    · rw [same]
      simp only [Session.next, JobTable.terminate_jobs, List.map_map]
      refine List.map_congr_left fun j _ => ?_
      simp only [Function.comp]
      split <;> rfl
    · simp only [PMan.next, Session.next, JobTable.terminate_jobs, shows'.children, List.map_map]
      refine List.map_congr_left fun j _ => ?_
      by_cases here : j.pid = pid
      · simp [Job.child, here]
      · simp [Job.child, here]

/-! ## The runs -/

/-- **The heap machine refines the job table**: it makes no call and prints nothing that the table does not. -/
theorem pman_refines (run : Reaches as s) : ∃ t, Session.Reaches as t ∧ Shows s t :=
  run.simulates Shows.start fun _ _ a shows' enabled => ⟨(shows'.enabled_iff a).1 enabled, shows'.step enabled⟩

/-- **The job table is realized by the heap machine**: every run of the table is one of PMan. -/
theorem pman_realizes (run : Session.Reaches as t) : ∃ s, Reaches as s ∧ Shows s t :=
  run.simulates (R := fun t s => Shows s t) Shows.start fun _ _ a shows' enabled =>
    have enabled' := (shows'.enabled_iff a).2 enabled
    ⟨enabled', shows'.step enabled'⟩

/-- **PMan and its job table have the same runs.** -/
theorem pman_job_table (as : List Action) :
    (∀ s, Reaches as s → ∃ t, Session.Reaches as t ∧ Shows s t) ∧
      ∀ t, Session.Reaches as t → ∃ s, Reaches as s ∧ Shows s t :=
  ⟨fun _ => pman_refines, fun _ => pman_realizes⟩

theorem pman_job_table_reaped : ∃ t, Session.Reaches reapedRun t ∧ Shows (reapedRun.foldl next start) t :=
  (pman_job_table reapedRun).1 _ (Run.of_check (by decide))

end CSC360.PMan
