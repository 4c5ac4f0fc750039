import CSC360.PMan.Reaping

/-!
# PMan touches its own children only

A pid names the same process as long as its child has not been reaped, and only PMan
reaps. **Every `kill` and every `/proc/<pid>` file that PMan opens is about a child that
it has forked with `bg` and not reaped**, whatever the argument of the command was: a
pid has to be in the list at the call of `check_pid`, and no call of `waitpid` comes in
between.
-/

namespace CSC360.PMan

open CSC360.Base

variable {as : List Action} {s : State} {a : Action} {pid : Int}

/-- The process that the step signals, or whose files it opens. -/
def touched (s : State) : Action → Option Int
  | .kill _ | .openStat _ | .openStatus _ => s.loc.target
  | _ => none

/-- PMan has forked the child and not reaped it since. -/
def Owns (as : List Action) (pid : Int) : Prop :=
  ∃ before after, as = before ++ .fork pid :: after ∧ Action.waitpid pid ∉ after

theorem Owns.snoc (owns : Owns as pid) (other : a ≠ .waitpid pid) : Owns (as ++ [a]) pid := by
  obtain ⟨before, after, rfl, kept⟩ := owns
  refine ⟨before, after ++ [a], by simp, fun reaped => ?_⟩
  rcases List.mem_append.1 reaped with earlier | now
  · exact kept earlier
  · exact other (List.mem_singleton.1 now).symm

/-- An unreaped pid is that of a child forked and not reaped since. -/
theorem owns_of_unreaped (run : Reaches as s) : ∀ pid ∈ unreaped as, Owns as pid := by
  refine run.invariant (I := fun as _ => ∀ pid ∈ unreaped as, Owns as pid) (fun pid mem => by cases mem) ?_
  intro as s a run owns enabled pid mem
  rw [unreaped_snoc] at mem
  cases a with
  | fork pid' =>
    rcases List.mem_append.1 mem with old | new
    · exact (owns pid old).snoc (by simp)
    · obtain rfl := List.mem_singleton.1 new
      exact ⟨as, [], rfl, by simp⟩
  | waitpid ret =>
    rw [launchOrReap] at mem
    split at mem
    · -- the pids are distinct, so the reaped one is gone
      obtain ⟨ne, old⟩ := (tracks run).distinct.mem_erase_iff.1 mem
      exact (owns pid old).snoc (by simpa using Ne.symm ne)
    · rename_i nonpositive
      have positive := (tracks run).positive pid mem
      refine (owns pid mem).snoc fun same => nonpositive ?_
      rwa [Action.waitpid.inj same]
  | _ => exact (owns pid mem).snoc (by simp)

/-- **PMan signals and inspects only children that it has forked and not reaped.** -/
theorem touches_own_children (run : Reaches as s) (enabled : Enabled s a) (touches : touched s a = some pid) :
    Owns as pid ∧ ∃ c ∈ s.children, c.pid = pid := by
  have state := tracks run
  have target : s.loc.target = some pid := by
    cases a with
    | kill | openStat | openStatus => exact touches
    | _ => cases touches
  have listed := state.target pid target
  refine ⟨owns_of_unreaped run pid listed, ?_⟩
  rw [← state.children] at listed
  exact List.mem_map.1 listed

/-- A child terminates, and is signalled before it is reaped. -/
def killedRun : List Action :=
  [.readline (some "bg sleep 10".toList), .fork 41, .waitpid 0, .terminate 41 .signaled,
    .readline (some "bgkill  +41x".toList)]

theorem touches_own_children_sample :
    Owns killedRun 41 ∧ ∃ c ∈ (killedRun.foldl next start).children, c.pid = 41 :=
  touches_own_children (a := .kill 0) (Run.of_check (by decide)) (by decide) (by decide)

end CSC360.PMan
