import CSC360.PMan.Reaping

/-!
# Up-to-date commands

The list is brought in line with the children at the end of an iteration only, before
PMan waits in `readline`. **A command acts on running children only, in a run in which no
child terminates between two iterations of the loop**; a child that does is still printed and
accepted by the next command (`bglist_prints_terminated`), and by further ones as long
as the iterations end with `continue`.

`up_to_date_iff` is the same for one state: all lines act on running children just when
all children are running.
-/

namespace CSC360.PMan

open CSC360.Base

variable {as : List Action} {s : State} {a : Action} {l : List (Nat × Node)} {pid : Int} {cmd : Text}

/-- The child with the pid has not terminated. -/
def Running (s : State) (pid : Int) : Prop := ∃ c ∈ s.children, c.pid = pid ∧ c.cause = none

/-- The jobs that the command prints and the process that it accepts are running when its line is read. -/
structure UpToDate (s : State) (cmd : Text) : Prop where
  printed : ∀ node, .job node ∈ (command s cmd).2 → Running s node.pid
  accepted : ∀ pid, (command s cmd).1.target = some pid → Running s pid

/-- No child terminates between the end of one iteration of the loop (the last call of
`check_zombieProcess`, or a `continue`) and the reading of the next line. -/
def Attended (s : State) : Action → Prop
  | .terminate _ _ => s.loc ≠ .prompt
  | _ => True

instance (s : State) : DecidablePred (Attended s)
  | .terminate _ _ => inferInstanceAs (Decidable (_ ≠ _))
  | .readline _ | .fork _ | .kill _ | .openStat _ | .openStatus _ | .waitpid _ | .emptyList =>
    inferInstanceAs (Decidable True)

/-! ## The jobs that a line prints -/

theorem bgsigEntry_job {node : Node} : .job node ∉ (bgsigEntry s pid cmd).2 := by
  unfold bgsigEntry
  split
  · simp
  · simp
  · split <;> simp

theorem pstatEntry_job {node : Node} : .job node ∉ (pstatEntry s pid).2 := by
  unfold pstatEntry
  split <;> simp

theorem bglistEntry_output (seg : Seg s.heap s.head l none) :
    (bglistEntry s).2 = (l.map Prod.snd).map .job ++ [.total l.length] := by
  rw [bglistEntry, listNodes_eq seg seg.length_le_bound]
  simp

/-- Only nodes of the list are printed as jobs. -/
theorem job_listed (seg : Seg s.heap s.head l none) {node : Node} (printed : .job node ∈ (command s cmd).2) :
    node.pid ∈ pids l := by
  unfold command at printed
  split at printed
  · cases printed
  cases found : tokens cmd with
  | nil => simp [found] at printed
  | cons cmdType args =>
    rw [found] at printed
    dsimp only at printed
    split at printed
    · cases args <;> simp at printed
    split at printed
    · cases args with
      | nil =>
        rw [bglistEntry_output seg] at printed
        rcases List.mem_append.1 printed with job | total
        · obtain ⟨_, mem, same⟩ := List.mem_map.1 job
          obtain ⟨c, listed, rfl⟩ := List.mem_map.1 mem
          obtain rfl := Output.job.inj same
          exact List.mem_map.2 ⟨c, listed, rfl⟩
        · simp at total
      | cons _ _ => simp at printed
    split at printed
    · cases args with
      | nil => simp at printed
      | cons arg _ => exact absurd printed bgsigEntry_job
    split at printed
    · cases args with
      | nil => simp at printed
      | cons arg _ => exact absurd printed pstatEntry_job
    · simp at printed

/-- `bglist` prints all of them. -/
theorem bglist_prints (seg : Seg s.heap s.head l none) {c : Nat × Node} (listed : c ∈ l) :
    .job c.2 ∈ (command s cmdBglist).2 := by
  have parsed : command s cmdBglist = bglistEntry s := rfl
  rw [parsed, bglistEntry_output seg]
  exact List.mem_append_left _ (List.mem_map_of_mem (List.mem_map_of_mem listed))

/-! ## Running children -/

/-- A listed pid is that of a running child when all children are running. -/
theorem Tracks.running (tracks : Tracks as s) (all : ∀ c ∈ s.children, c.cause = none) (listed : pid ∈ unreaped as) :
    Running s pid := by
  rw [← tracks.children] at listed
  obtain ⟨c, mem, rfl⟩ := List.mem_map.1 listed
  exact ⟨c, mem, rfl, all c mem⟩

theorem Tracks.upToDate (tracks : Tracks as s) (all : ∀ c ∈ s.children, c.cause = none) (cmd : Text) :
    UpToDate s cmd := by
  obtain ⟨l, seg, same⟩ := tracks.list
  refine ⟨fun node printed => ?_, fun pid accepted => ?_⟩
  · exact tracks.running all (same ▸ job_listed seg printed)
  · exact tracks.running all (same ▸ (command_leads seg cmd).target accepted)

/-- Every child is printed by `bglist`, so it is running if only running ones are printed. -/
theorem Tracks.all_running (tracks : Tracks as s) (upToDate : UpToDate s cmdBglist) :
    ∀ c ∈ s.children, c.cause = none := by
  intro c mem
  obtain ⟨l, seg, same⟩ := tracks.list
  have listed : c.pid ∈ pids l := by
    rw [same, ← tracks.children]
    exact List.mem_map_of_mem mem
  obtain ⟨node, inList, samePid⟩ := List.mem_map.1 listed
  obtain ⟨d, mem', pid, running⟩ := upToDate.printed node.2 (bglist_prints seg inList)
  have distinct : (s.children.map Child.pid).Nodup := tracks.children ▸ tracks.distinct
  obtain rfl : d = c := List.inj_on_of_nodup_map distinct mem' mem (pid.trans samePid)
  exact running

/-- **One state**: every line acts on running children just when all children are running. -/
theorem up_to_date_iff (run : Reaches as s) : (∀ cmd, UpToDate s cmd) ↔ ∀ c ∈ s.children, c.cause = none :=
  ⟨fun upToDate => (tracks run).all_running (upToDate cmdBglist), fun all => (tracks run).upToDate all⟩

/-- At the prompt all children are running. -/
def PromptRunning (s : State) : Prop := s.loc = .prompt → ∀ c ∈ s.children, c.cause = none

theorem PromptRunning.step (running : PromptRunning s) (tracks : Tracks as s) (enabled : Enabled s a)
    (attended : Attended s a) : PromptRunning (next s a) := by
  intro prompt
  cases a with
  | readline cmd => cases cmd <;> exact running enabled
  | terminate pid cause => exact absurd prompt attended
  | waitpid ret | emptyList =>
    rcases tracks.checks rfl enabled with ⟨-, all⟩ | ⟨reaping, -⟩
    · exact all
    · rw [prompt] at reaping
      cases reaping
  | fork pid =>
    obtain ⟨forking, -⟩ := enabled
    cases found : s.loc with
    | forking program =>
      simp only [next, found] at prompt
      split at prompt <;> cases prompt
    | _ => simp [found] at forking
  | kill ret =>
    obtain ⟨signalling, -⟩ := enabled
    cases found : s.loc with
    | signalling pid sig =>
      simp only [next, found] at prompt
      cases prompt
    | _ => simp [found] at signalling
  | openStat opened =>
    cases found : s.loc with
    | openingStat pid =>
      simp only [next, found] at prompt
      cases prompt
    | _ => simp [Enabled, found] at enabled
  | openStatus opened => cases prompt

/-- **Commands act on an up-to-date list** in a run in which no child terminates between two
iterations of the loop: what a line prints or accepts had not terminated when it was read. -/
theorem commands_up_to_date (run : Run (fun s a => Enabled s a ∧ Attended s a) next start as s)
    (prompt : s.loc = .prompt) : ∀ cmd, UpToDate s cmd := by
  have reached : Reaches as s := run.mono fun _ _ can => can.1
  have running : PromptRunning s := by
    refine run.invariant (I := fun _ s => PromptRunning s) (fun _ c mem => by cases mem) ?_
    intro as s a run running can
    exact running.step (tracks (run.mono fun _ _ can => can.1)) can.1 can.2
  exact (tracks reached).upToDate (running prompt)

theorem commands_up_to_date_reaped : UpToDate (reapedRun.foldl next start) cmdBglist :=
  commands_up_to_date (Run.of_check (by decide) : Run _ next start reapedRun _) (by decide) cmdBglist

/-- The child terminates while PMan waits for the next line. -/
def unattendedRun : List Action :=
  [.readline (some "bg sleep 1".toList), .fork 41, .waitpid 0, .terminate 41 .exited]

/-- **`bglist` can print a program that has terminated.** -/
theorem bglist_prints_terminated :
    ¬ ∀ (as : List Action) (s : State), Reaches as s → s.loc = .prompt → ∀ cmd, UpToDate s cmd := by
  intro claim
  have run : Reaches unattendedRun (unattendedRun.foldl next start) := Run.of_check (by decide)
  have upToDate := claim _ _ run (by decide) cmdBglist
  obtain ⟨c, mem, -, running⟩ := upToDate.printed ⟨41, "sleep".toList⟩ (by decide)
  have children : (unattendedRun.foldl next start).children = [⟨41, some .exited⟩] := by decide
  rw [children] at mem
  obtain rfl := List.mem_singleton.1 mem
  cases running

end CSC360.PMan
