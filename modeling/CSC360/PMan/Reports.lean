import CSC360.PMan.JobTable

/-!
# What PMan reports, and when

**Every termination of a child is reported once, with its cause, or is still to be
reported**, and a pid that has been announced is reported or listed. **Every line is
answered**: PMan takes at most three more steps than it has jobs before it is back at its
prompt, whatever its children do meanwhile, and always has a step to take until then.

Both are proved of the job table, where the counting is about one list, and read off the heap
machine through what it shows.
-/

namespace CSC360.PMan

open CSC360.Base

variable {as bs : List Action} {s s' : State} {t : Session} {a : Action} {pid : Int} {cause : Cause}

/-! ## Launches and endings -/

/-- The pid that the line announces. -/
def Output.launched : Output → Option Int
  | .running pid => some pid
  | _ => none

/-- The termination that the line reports. -/
def Output.ending : Output → Option (Int × Cause)
  | .terminated pid => some (pid, .exited)
  | .killed pid => some (pid, .signaled)
  | _ => none

/-- The termination that the step is. -/
def Action.ending : Action → Option (Int × Cause)
  | .terminate pid cause => some (pid, cause)
  | _ => none

def Child.ending (c : Child) : Option (Int × Cause) := c.cause.map (c.pid, ·)

/-- The terminations and the reports of a run agree. -/
structure Balanced (as : List Action) (output : List Output) (children : List Child) : Prop where
  launches : (output.filterMap Output.launched).Perm
    ((output.filterMap Output.ending).map Prod.fst ++ children.map Child.pid)
  endings : (as.filterMap Action.ending).Perm (output.filterMap Output.ending ++ children.filterMap Child.ending)

/-- The line neither announces nor reports a process. -/
def Output.plain (o : Output) : Prop := o.launched = none ∧ o.ending = none

/-- Steps that neither launch a process nor end or report one. -/
theorem Balanced.kept {output new : List Output} {children : List Child} (balanced : Balanced as output children)
    (plain : ∀ o ∈ new, o.plain) (quiet : a.ending = none) : Balanced (as ++ [a]) (output ++ new) children := by
  have noLaunch : new.filterMap Output.launched = [] := List.filterMap_eq_nil_iff.2 fun o mem => (plain o mem).1
  have noEnding : new.filterMap Output.ending = [] := List.filterMap_eq_nil_iff.2 fun o mem => (plain o mem).2
  refine ⟨?_, ?_⟩
  · rw [List.filterMap_append, List.filterMap_append, noLaunch, noEnding, List.append_nil, List.append_nil]
    exact balanced.launches
  · rw [List.filterMap_append, List.filterMap_append, noEnding, List.append_nil]
    simpa [quiet] using balanced.endings

theorem answer_plain (t : JobTable) (r : Request) : ∀ o ∈ (t.answer r).2, o.plain := by
  cases r with
  | nothing | spaces | launch => exact fun _ mem => by cases mem
  | list =>
    intro o mem
    rcases List.mem_append.1 mem with job | total
    · obtain ⟨j, -, rfl⟩ := List.mem_map.1 job
      exact ⟨rfl, rfl⟩
    · rw [List.mem_singleton.1 total]
      exact ⟨rfl, rfl⟩
  | signal pid sig | inspect pid =>
    rw [JobTable.answer]
    split
    · exact fun _ mem => by cases mem
    · intro o mem
      rw [List.mem_singleton.1 mem]
      exact ⟨rfl, rfl⟩
  | missing | extra | unknown =>
    intro o mem
    rw [List.mem_singleton.1 mem]
    exact ⟨rfl, rfl⟩

theorem acknowledge_plain (sig : Signal) : ∀ o ∈ sig.acknowledge pid, o.plain := by
  cases sig with
  | sigterm => exact fun _ mem => by cases mem
  | sigstop | sigcont =>
    intro o mem
    rw [List.mem_singleton.1 mem]
    exact ⟨rfl, rfl⟩

theorem report_launched (j : Job) : j.report.filterMap Output.launched = [] := by
  unfold Job.report
  split <;> rfl

theorem report_ending (j : Job) : j.report.filterMap Output.ending = j.child.ending.toList := by
  unfold Job.report Child.ending Job.child
  split <;> simp_all [Output.ending]

/-- The job with the pid, and the others. -/
theorem JobTable.split {t : JobTable} {j : Job} (listed : j ∈ t.jobs) :
    ∃ before after, t.jobs = before ++ j :: after ∧ ∀ k ∈ before ++ after, k.pid ≠ j.pid := by
  obtain ⟨before, after, split⟩ := List.append_of_mem listed
  refine ⟨before, after, split, fun k mem same => ?_⟩
  have distinct := t.distinct
  rw [split, (List.perm_middle.map Job.pid).nodup_iff, List.map_cons, List.nodup_cons] at distinct
  exact distinct.1 (same ▸ List.mem_map_of_mem mem)

/-- Taking out a job takes out that one only. -/
theorem JobTable.split_reap {t : JobTable} {j : Job} (listed : j ∈ t.jobs) :
    ∃ before after, t.jobs = before ++ j :: after ∧ t.jobs.filter (·.pid = j.pid) = [j] ∧
      (t.reap j.pid).jobs = before ++ after := by
  obtain ⟨before, after, split, others⟩ := JobTable.split listed
  refine ⟨before, after, split, ?_, ?_⟩
  · have none : ∀ l : List Job, (∀ k ∈ l, k.pid ≠ j.pid) → l.filter (·.pid = j.pid) = [] := fun l other =>
      List.filter_eq_nil_iff.2 fun k mem same => other k mem (of_decide_eq_true same)
    rw [split, List.filter_append, List.filter_cons_of_pos (by exact decide_eq_true rfl),
      none before fun k mem => others k (List.mem_append_left _ mem),
      none after fun k mem => others k (List.mem_append_right _ mem), List.nil_append]
  · rw [JobTable.reap_jobs, split, List.filter_append, List.filter_cons_of_neg (by simp), ← List.filter_append]
    exact List.filter_eq_self.2 fun k mem => decide_eq_true (others k mem)

theorem Balanced.fork {new : 0 < pid ∧ pid ∉ t.table.pids}
    (balanced : Balanced as t.output (t.table.jobs.map Job.child)) (program : Text) :
    Balanced (as ++ [.fork pid]) (t.output ++ [.running pid])
      ((t.table.launch pid program new).jobs.map Job.child) := by
  have launched : (t.output ++ [Output.running pid]).filterMap Output.launched =
      t.output.filterMap Output.launched ++ [pid] :=
    List.filterMap_append
  have reported : (t.output ++ [Output.running pid]).filterMap Output.ending = t.output.filterMap Output.ending := by
    rw [List.filterMap_append]
    exact List.append_nil _
  have ended : (as ++ [Action.fork pid]).filterMap Action.ending = as.filterMap Action.ending := by
    rw [List.filterMap_append]
    exact List.append_nil _
  rw [JobTable.launch_jobs, List.map_append]
  refine ⟨?_, ?_⟩
  · rw [launched, reported, List.map_append, ← List.append_assoc]
    exact balanced.launches.append_right _
  · rw [ended, reported, List.filterMap_append, ← List.append_assoc]
    exact (List.append_nil _).symm ▸ balanced.endings

/-- A job that is running terminates. -/
theorem Balanced.terminate (balanced : Balanced as t.output (t.table.jobs.map Job.child))
    (enabled : t.Enabled (.terminate pid cause)) :
    Balanced (as ++ [.terminate pid cause]) t.output ((t.table.terminate pid cause).jobs.map Job.child) := by
  obtain ⟨j, listed, rfl, running⟩ := enabled
  obtain ⟨before, after, split, others⟩ := JobTable.split listed
  have kept : ∀ l : List Job, (∀ k ∈ l, k.pid ≠ j.pid) →
      (l.map fun k => if k.pid = j.pid then { k with cause := some cause } else k) = l := by
    intro l other
    refine (List.map_congr_left fun k mem => if_neg (other k mem)).trans (List.map_id l)
  have after' : (t.table.terminate j.pid cause).jobs = before ++ { j with cause := some cause } :: after := by
    rw [JobTable.terminate_jobs, split, List.map_append, List.map_cons, if_pos rfl,
      kept before fun k mem => others k (List.mem_append_left _ mem),
      kept after fun k mem => others k (List.mem_append_right _ mem)]
  have alive : j.child.ending = none := by rw [Child.ending, Job.child, running, Option.map_none]
  have dead : (Job.child { j with cause := some cause }).ending = some (j.pid, cause) := rfl
  have ended : (as ++ [Action.terminate j.pid cause]).filterMap Action.ending =
      as.filterMap Action.ending ++ [(j.pid, cause)] := List.filterMap_append
  have launches := balanced.launches
  have endings := balanced.endings
  rw [split, List.map_append, List.map_cons] at launches endings
  rw [after', List.map_append, List.map_cons]
  refine ⟨?_, ?_⟩
  · rwa [List.map_append, List.map_cons] at launches ⊢
  · rw [List.filterMap_append, List.filterMap_cons_none alive] at endings
    rw [ended, List.filterMap_append, List.filterMap_cons_some dead, ← List.append_assoc]
    refine (endings.append_right _).trans ?_
    rw [← List.append_assoc]
    exact (List.perm_append_singleton _ _).trans List.perm_middle.symm

/-- The job that is taken out is reported. -/
theorem Balanced.reap (balanced : Balanced as t.output (t.table.jobs.map Job.child)) {j : Job}
    (listed : j ∈ t.table.jobs) (dead : j.cause ≠ none) (quiet : a.ending = none) :
    Balanced (as ++ [a]) (t.output ++ (t.table.jobs.filter (·.pid = j.pid)).flatMap Job.report)
      ((t.table.reap j.pid).jobs.map Job.child) := by
  obtain ⟨before, after, split, alone, rest⟩ := JobTable.split_reap listed
  obtain ⟨cause, found⟩ := Option.ne_none_iff_exists'.1 dead
  have ended : (as ++ [a]).filterMap Action.ending = as.filterMap Action.ending := by
    rw [List.filterMap_append, List.filterMap_cons_none quiet]
    exact List.append_nil _
  have dying : j.child.ending = some (j.pid, cause) := by
    rw [Child.ending, Job.child, found]
    rfl
  have reported : j.report.filterMap Output.ending = [(j.pid, cause)] := by
    rw [report_ending, dying]
    rfl
  have launches := balanced.launches
  have endings := balanced.endings
  rw [split, List.map_append, List.map_cons] at launches endings
  rw [alone, List.flatMap_singleton, rest, List.map_append]
  refine ⟨?_, ?_⟩
  · rw [List.filterMap_append, List.filterMap_append, report_launched, reported, List.append_nil, List.map_append,
      List.append_assoc]
    rw [List.map_append, List.map_cons] at launches
    refine launches.trans (List.Perm.append_left _ ?_)
    rw [List.map_append]
    exact List.perm_middle
  · rw [ended, List.filterMap_append, reported, List.append_assoc]
    rw [List.filterMap_append, List.filterMap_cons_some dying] at endings
    refine endings.trans (List.Perm.append_left _ ?_)
    rw [List.filterMap_append]
    exact List.perm_middle

theorem Balanced.silent {output : List Output} {children : List Child} (balanced : Balanced as output children)
    (quiet : a.ending = none) : Balanced (as ++ [a]) output children := by
  have nothing : ∀ o ∈ ([] : List Output), o.plain := nofun
  exact List.append_nil output ▸ balanced.kept nothing quiet

theorem Balanced.step (balanced : Balanced as t.output (t.table.jobs.map Job.child)) (enabled : t.Enabled a) :
    Balanced (as ++ [a]) (t.next a).output ((t.next a).table.jobs.map Job.child) := by
  have notice : ∀ (found : Bool) {o : Output}, o.plain → ∀ o' ∈ (if found then [] else [o]), o'.plain := by
    intro found o plain o' mem
    cases found with
    | true => cases mem
    | false =>
      rw [List.mem_singleton.1 mem]
      exact plain
  cases a with
  | readline cmd =>
    cases cmd with
    | none => exact balanced.silent rfl
    | some cmd => exact balanced.kept (answer_plain _ _) rfl
  | fork pid =>
    obtain ⟨forking, new⟩ := enabled
    cases found : t.loc with
    | forking program =>
      simp only [Session.next, found, dif_pos new]
      exact balanced.fork program
    | _ =>
      rw [found] at forking
      cases forking
  | kill ret =>
    obtain ⟨signalling, -⟩ := enabled
    cases found : t.loc with
    | signalling pid sig =>
      simp only [Session.next, found]
      exact balanced.kept (acknowledge_plain sig) rfl
    | _ =>
      rw [found] at signalling
      cases signalling
  | openStat opened =>
    cases found : t.loc with
    | openingStat pid =>
      simp only [Session.next, found]
      exact balanced.kept (notice opened ⟨rfl, rfl⟩) rfl
    | _ => simp [Session.Enabled, found] at enabled
  | openStatus opened => exact balanced.kept (notice opened ⟨rfl, rfl⟩) rfl
  | waitpid ret =>
    obtain ⟨-, -, ⟨j, listed, rfl, dead⟩ | ⟨rfl, -⟩⟩ := enabled
    · simp only [Session.next, if_neg (Int.ne_of_gt (t.table.positive j listed))]
      exact balanced.reap listed dead rfl
    · exact balanced.silent rfl
  | emptyList => exact balanced.silent rfl
  | terminate pid cause => exact balanced.terminate enabled

theorem balanced (run : Reaches as s) : Balanced as s.output s.children := by
  obtain ⟨t, run', shows'⟩ := pman_refines run
  rw [shows'.output, shows'.children]
  exact run'.invariant (I := fun as t => Balanced as t.output (t.table.jobs.map Job.child))
    ⟨.refl _, .refl _⟩ fun _ _ _ _ balanced enabled => balanced.step enabled

/-- Nothing that has happened to a child goes unreported or is reported twice. -/
structure Reported (as : List Action) (s : State) : Prop where
  /-- a pid that has been announced has been reported or is in the list -/
  launches : ∃ l, Seg s.heap s.head l none ∧ (s.output.filterMap Output.launched).Perm
    ((s.output.filterMap Output.ending).map Prod.fst ++ pids l)
  /-- a termination has been reported, with its cause, or is still to be reported -/
  endings : (as.filterMap Action.ending).Perm (s.output.filterMap Output.ending ++ s.children.filterMap Child.ending)
  /-- nothing is left to be reported when `check_zombieProcess` returns -/
  settled : ∀ a, a.checks = true → Enabled s a → (next s a).loc = .prompt →
    (as.filterMap Action.ending).Perm ((next s a).output.filterMap Output.ending)

/-- **Every termination is reported exactly once**, by the end of the check that finds it. -/
theorem terminations_reported (run : Reaches as s) : Reported as s := by
  obtain ⟨l, seg, same⟩ := (tracks run).list
  have listed : pids l = s.children.map Child.pid := same.trans (tracks run).children.symm
  refine ⟨⟨l, seg, listed ▸ (balanced run).launches⟩, (balanced run).endings, fun a checks enabled returned => ?_⟩
  have alive : ∀ c ∈ (next s a).children, c.cause = none := by
    rcases (tracks run).checks checks enabled with ⟨-, running⟩ | ⟨again, -⟩
    · exact running
    · rw [again] at returned
      cases returned
  have nothing : (next s a).children.filterMap Child.ending = [] :=
    List.filterMap_eq_nil_iff.2 fun c mem => by rw [Child.ending, alive c mem, Option.map_none]
  have quiet : a.ending = none := by cases a <;> first | rfl | cases checks
  have endings := (balanced (.step run enabled)).endings
  rw [nothing, List.append_nil, List.filterMap_append, List.filterMap_cons_none quiet] at endings
  rwa [List.filterMap_nil, List.append_nil] at endings

theorem terminations_reported_reaped : Reported reapedRun (reapedRun.foldl next start) :=
  terminations_reported (Run.of_check (by decide))

/-! ## Every line is answered -/

/-- A step that PMan takes between two lines. -/
def Action.own : Action → Bool
  | .readline _ | .terminate _ _ => false
  | _ => true

/-- The steps that PMan takes at most before it is back at its prompt. -/
def Session.due (t : Session) : Nat :=
  match t.loc with
  | .prompt | .failed | .crashed => 0
  | .reaping => t.table.jobs.length + 1
  | .signalling _ _ | .openingStatus _ => t.table.jobs.length + 2
  | .openingStat _ | .forking _ => t.table.jobs.length + 3

theorem due_le (t : Session) : t.due ≤ t.table.jobs.length + 3 := by
  unfold Session.due
  split <;> omega

/-- A step of PMan brings it closer to its prompt. -/
theorem Session.due_own (enabled : t.Enabled a) (own : a.own = true) : (t.next a).due < t.due := by
  cases a with
  | readline | terminate => cases own
  | fork pid =>
    obtain ⟨forking, new⟩ := enabled
    cases found : t.loc with
    | forking program =>
      simp only [Session.next, Session.due, found, dif_pos new, JobTable.launch_jobs, List.length_append,
        List.length_singleton]
      omega
    | _ =>
      rw [found] at forking
      cases forking
  | kill ret =>
    obtain ⟨signalling, -⟩ := enabled
    cases found : t.loc with
    | signalling pid sig =>
      simp only [Session.next, Session.due, found]
      omega
    | _ =>
      rw [found] at signalling
      cases signalling
  | openStat opened =>
    cases found : t.loc with
    | openingStat pid =>
      simp only [Session.next, Session.due, found]
      omega
    | _ => simp [Session.Enabled, found] at enabled
  | openStatus opened =>
    cases found : t.loc with
    | openingStatus pid =>
      simp only [Session.next, Session.due, found]
      omega
    | _ => simp [Session.Enabled, found] at enabled
  | waitpid ret =>
    obtain ⟨reaping, -, ⟨j, listed, rfl, -⟩ | ⟨rfl, -⟩⟩ := enabled
    · obtain ⟨before, after, split, -, rest⟩ := JobTable.split_reap listed
      simp only [Session.next, if_neg (Int.ne_of_gt (t.table.positive j listed)), Session.due, reaping, rest, split,
        List.length_append, List.length_cons]
      omega
    · simp only [Session.next, if_true, Session.due, reaping]
      omega
  | emptyList =>
    obtain ⟨reaping, -⟩ := enabled
    simp only [Session.next, Session.due, reaping]
    omega

theorem Session.due_terminate (t : Session) : (t.next (.terminate pid cause)).due = t.due := by
  simp only [Session.due, Session.next, JobTable.terminate_jobs, List.length_map]

def Action.line : Action → Bool
  | .readline _ => true
  | _ => false

/-- PMan goes on. -/
def Loc.alive : Loc → Bool
  | .failed | .crashed => false
  | _ => true

theorem request_ne_spaces {cmd : Text} (words : cmd = [] ∨ tokens cmd ≠ []) : request cmd ≠ .spaces := by
  unfold request
  split
  · nofun
  rename_i some
  cases found : tokens cmd with
  | nil => exact absurd found (words.resolve_left some)
  | cons cmdType args =>
    dsimp only
    cases signalOf cmdType <;> cases args <;> dsimp only <;> repeat' split
    all_goals nofun

theorem answer_alive {t : JobTable} {r : Request} (words : r ≠ .spaces) : (t.answer r).1.alive = true := by
  cases r with
  | spaces => exact absurd rfl words
  | signal pid sig | inspect pid =>
    rw [JobTable.answer]
    split <;> rfl
  | _ => rfl

theorem Session.alive_step (enabled : t.Enabled a) (alive : t.loc.alive = true) (going : a.line = false) :
    (t.next a).loc.alive = true := by
  cases a with
  | readline => cases going
  | fork pid =>
    obtain ⟨forking, new⟩ := enabled
    cases found : t.loc with
    | forking program => simp only [Session.next, found, dif_pos new, Loc.alive]
    | _ =>
      rw [found] at forking
      cases forking
  | kill ret | openStat opened =>
    cases found : t.loc <;> rw [found] at alive <;> simp only [Session.next, found] <;> first | rfl | exact alive
  | waitpid ret =>
    simp only [Session.next]
    split <;> rfl
  | openStatus | emptyList => rfl
  | terminate pid cause => exact alive

theorem exists_unused (pids : List Int) : ∃ pid, 0 < pid ∧ pid ∉ pids := by
  obtain ⟨bound, above⟩ : ∃ bound : Int, 0 ≤ bound ∧ ∀ pid ∈ pids, pid ≤ bound := by
    induction pids with
    | nil => exact ⟨0, Int.le_refl 0, nofun⟩
    | cons pid pids ih =>
      obtain ⟨bound, positive, above⟩ := ih
      refine ⟨max pid bound, by omega, fun other mem => ?_⟩
      rcases List.mem_cons.1 mem with rfl | mem
      · exact Int.le_max_left _ _
      · exact Int.le_trans (above other mem) (Int.le_max_right _ _)
  exact ⟨bound + 1, by omega, fun mem => absurd (above.2 _ mem) (by omega)⟩

/-- Away from its prompt, PMan always has a step to take. -/
theorem Session.proceeds (alive : t.loc.alive = true) (busy : t.loc ≠ .prompt) :
    ∃ a, a.own = true ∧ t.Enabled a := by
  cases found : t.loc with
  | prompt => exact absurd found busy
  | forking program =>
    obtain ⟨pid, new⟩ := exists_unused t.table.pids
    exact ⟨.fork pid, rfl, by rw [found], new⟩
  | signalling pid sig => exact ⟨.kill 0, rfl, by rw [found], .inl rfl⟩
  | openingStat pid => exact ⟨.openStat true, rfl, by rw [Session.Enabled, found]⟩
  | openingStatus pid => exact ⟨.openStatus true, rfl, by rw [Session.Enabled, found]⟩
  | reaping =>
    by_cases empty : t.table.jobs = []
    · exact ⟨.emptyList, rfl, found, empty⟩
    by_cases running : ∀ j ∈ t.table.jobs, j.cause = none
    · exact ⟨.waitpid 0, rfl, found, empty, .inr ⟨rfl, running⟩⟩
    · simp only [not_forall] at running
      obtain ⟨j, listed, dead⟩ := running
      exact ⟨.waitpid j.pid, rfl, found, empty, .inl ⟨j, listed, rfl, dead⟩⟩
  | failed | crashed =>
    rw [found] at alive
    cases alive

/-- **Every line is answered.** After a line that is empty or has a word in it, PMan takes at most as
many steps as it has jobs, and three more, before it is back at its prompt, whatever the children
do meanwhile; until then it always has a step to take. -/
theorem lines_answered (run : Reaches as s) (waits : s.loc = .prompt) {cmd : Text} (words : cmd = [] ∨ tokens cmd ≠ [])
    (answer : Run (fun s a => Enabled s a ∧ a.line = false) next (next s (.readline (some cmd))) bs s') :
    bs.countP Action.own ≤ s.children.length + 3 ∧ (s'.loc = .prompt ∨ ∃ a, a.own = true ∧ Enabled s' a) := by
  obtain ⟨t, run', shows'⟩ := pman_refines run
  have enabled : Enabled s (.readline (some cmd)) := waits
  obtain ⟨t', answer', shows''⟩ : ∃ t', Run (fun t a => Session.Enabled t a ∧ a.line = false) Session.next
      (t.next (.readline (some cmd))) bs t' ∧ Shows s' t' :=
    answer.simulates (shows'.step enabled) fun _ _ a shows' can =>
      ⟨⟨(shows'.enabled_iff a).1 can.1, can.2⟩, shows'.step can.1⟩
  have alive : t'.loc.alive = true := by
    refine answer'.invariant (I := fun _ t => t.loc.alive = true) ?_ fun _ _ _ _ alive can =>
      Session.alive_step can.1 alive can.2
    exact answer_alive (request_ne_spaces words)
  refine ⟨?_, ?_⟩
  · have bound := answer'.bounded Session.due (fun a => !a.own) 0
      (fun _ _ _ _ can own => Session.due_own can.1 (by simpa using own))
      (fun _ t a _ can other => by
        cases a with
        | terminate pid cause => exact (Session.due_terminate t).le
        | readline => cases can.2
        | _ => cases other)
    have start := due_le (t.next (.readline (some cmd)))
    have jobs : (t.next (.readline (some cmd))).table.jobs.length = s.children.length := by
      rw [shows'.children, List.length_map]
      rfl
    simp only [Bool.not_not, Nat.zero_mul, Nat.add_zero] at bound
    replace bound : bs.countP Action.own + t'.due ≤ _ := bound
    omega
  · by_cases back : t'.loc = .prompt
    · exact .inl (shows''.loc.trans back)
    · obtain ⟨a, own, enabled⟩ := Session.proceeds alive back
      exact .inr ⟨a, own, (shows''.enabled_iff a).2 enabled⟩

theorem lines_answered_kill :
    [Action.kill 0, .terminate 42 .signaled, .waitpid 42].countP Action.own ≤
        (reapedRun.foldl next start).children.length + 3 ∧
      (([Action.kill 0, .terminate 42 .signaled, .waitpid 42].foldl next
          (next (reapedRun.foldl next start) (.readline (some "bgkill 42".toList)))).loc = .prompt ∨
        ∃ a, a.own = true ∧ Enabled ([Action.kill 0, .terminate 42 .signaled, .waitpid 42].foldl next
          (next (reapedRun.foldl next start) (.readline (some "bgkill 42".toList)))) a) :=
  lines_answered (Run.of_check (by decide)) (by decide) (.inr (by decide)) (Run.of_check (by decide))

end CSC360.PMan
