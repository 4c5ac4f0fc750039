import CSC360.Base.Numerals
import CSC360.Base.Transition
import CSC360.PMan.ProcessList

/-!
# The command loop of `PMan`

`main` as a system that steps from one system call to the next: what PMan does in
between is its own affair, and its children may terminate at any moment. The kernel
side is the list of children that have been forked and not reaped, in the order of
their launch. `fork` succeeds, and its pid differs from those of all unreaped children;
`waitpid(-1, WNOHANG)` reaps some child that has terminated, or says that there is
none.

The buffers that hold the words of a line, and `argv`, are as long as needed here. What
`statData` and `statusData` read of the files they open and print of them is left out.
-/

namespace CSC360.PMan

open CSC360.Base

abbrev Text := List Char

def cmdBg : Text := "bg".toList
def cmdBglist : Text := "bglist".toList
def cmdBgkill : Text := "bgkill".toList
def cmdBgstop : Text := "bgstop".toList
def cmdBgcont : Text := "bgstart".toList
def cmdPstat : Text := "pstat".toList

/-- The words that `strtok(_, " ")` cuts out of a line. -/
def tokens (line : Text) : List Text := (line.splitOn ' ').filter (· ≠ [])

/-- The cast of a `long` to the 32-bit `pid_t`. -/
def toPid (value : Int) : Int := value.bmod 4294967296

inductive Signal
  | sigstop
  | sigcont
  | sigterm
  deriving DecidableEq

/-- How a child terminated. -/
inductive Cause
  | exited
  | signaled
  deriving DecidableEq

/-- A child that has not been reaped; without a cause it is still running. -/
structure Child where
  pid : Int
  cause : Option Cause
  deriving DecidableEq

/-- The calls of `printf`. -/
inductive Output
  | missingArgument (cmdType : Text)
  | tooManyArguments
  | running (pid : Int)
  | doesNotExist (pid : Int)
  | noProcess (pid : Int)
  | stopped (pid : Int)
  | errorStopping (pid : Int)
  | resumed (pid : Int)
  | errorContinuing (pid : Int)
  | errorKilling (pid : Int)
  | job (node : Node)
  | total (jobs : Nat)
  | notFound (cmdType : Text)
  | noStat
  | noStatus
  | terminated (pid : Int)
  | killed (pid : Int)
  deriving DecidableEq

def Output.text : Output → String
  | .missingArgument cmdType => s!"missing 1 argument with {String.ofList cmdType}\n\n"
  | .tooManyArguments => "too many arguments for bglist. Needs 0 arguments.\n\n"
  | .running pid => s!"Running process {pid}\n\n"
  | .doesNotExist pid => s!"Process {pid} does not exist\n\n"
  | .noProcess pid => s!"Error: Process {pid} does not exist\n\n"
  | .stopped pid => s!"Stopped process: {pid}\n\n"
  | .errorStopping pid => s!"Error stopping process: {pid}\n\n"
  | .resumed pid => s!"Resumed process: {pid}\n\n"
  | .errorContinuing pid => s!"Error continuing process {pid}\n\n"
  | .errorKilling pid => s!"Error killing process: {pid}\n\n"
  | .job node => s!"\n{node.pid}: {String.ofList node.command} \n"
  | .total jobs => s!"Total background jobs: {jobs}\n\n"
  | .notFound cmdType => s!"{String.ofList cmdType} : command not found\n\n"
  | .noStat => "no stat file found for this pid\n\n"
  | .noStatus => "no status file found for this pid\n\n"
  | .terminated pid => s!"Process {pid} was terminated\n\n"
  | .killed pid => s!"Process {pid} was killed\n\n"

/-- Which system call comes next. -/
inductive Loc
  /-- `readline`, between two iterations of the loop -/
  | prompt
  /-- `fork`, for this command -/
  | forking (command : Text)
  | signalling (pid : Int) (sig : Signal)
  /-- `fopen` of `/proc/<pid>/stat` -/
  | openingStat (pid : Int)
  /-- `fopen` of `/proc/<pid>/status` -/
  | openingStatus (pid : Int)
  /-- in the loop of `check_zombieProcess` -/
  | reaping
  /-- has left through `exit(EXIT_FAILURE)` -/
  | failed
  /-- has followed a null pointer -/
  | crashed
  deriving DecidableEq

structure State where
  loc : Loc
  heap : Heap Node
  head : Option Nat
  children : List Child
  output : List Output

def start : State := ⟨.prompt, Heap.empty, none, [], []⟩

def signalOf (cmd : Text) : Option Signal :=
  if cmd = cmdBgstop then some .sigstop
  else if cmd = cmdBgcont then some .sigcont
  else if cmd = cmdBgkill then some .sigterm
  else none

/-- Up to the call of `kill`. -/
def bgsigEntry (s : State) (pid : Int) (cmd : Text) : Loc × List Output :=
  match checkPid s.heap pid s.heap.bound s.head with
  | none => (.crashed, [])
  | some 1 => (.reaping, [.doesNotExist pid])
  | some _ => match signalOf cmd with
    | some sig => (.signalling pid sig, [])
    | none => (.reaping, [])

/-- Behind the call of `kill`. -/
def killOutput (pid : Int) (ret : Int) : Signal → List Output
  | .sigstop => if ret = 1 then [.errorStopping pid] else [.stopped pid]
  | .sigcont => if ret = 1 then [.errorContinuing pid] else [.resumed pid]
  | .sigterm => if ret = 1 then [.errorKilling pid] else []

def bglistEntry (s : State) : Loc × List Output :=
  match listNodes s.heap s.heap.bound s.head with
  | none => (.crashed, [])
  | some nodes => (.reaping, nodes.map .job ++ [.total nodes.length])

/-- Up to the first call of `fopen`. -/
def pstatEntry (s : State) (pid : Int) : Loc × List Output :=
  match checkPid s.heap pid s.heap.bound s.head with
  | none => (.crashed, [])
  | some 1 => (.reaping, [.noProcess pid])
  | some _ => (.openingStat pid, [])

/-- From `readline` to the next system call. -/
def command (s : State) (cmd : Text) : Loc × List Output :=
  if cmd = [] then (.prompt, [])
  else match tokens cmd with
    -- `strcmp` of `argv[0]`, which is null
    | [] => (.crashed, [])
    | cmdType :: args =>
      if cmdType = cmdBg then
        match args with
        | [] => (.prompt, [.missingArgument cmdType])
        | program :: _ => (.forking program, [])
      else if cmdType = cmdBglist then
        match args with
        | [] => bglistEntry s
        | _ :: _ => (.prompt, [.tooManyArguments])
      else if cmdType = cmdBgkill ∨ cmdType = cmdBgstop ∨ cmdType = cmdBgcont then
        match args with
        | [] => (.prompt, [.missingArgument cmdType])
        | arg :: _ => bgsigEntry s (toPid (strtol arg)) cmdType
      else if cmdType = cmdPstat then
        match args with
        | [] => (.prompt, [.missingArgument cmdType])
        | arg :: _ => pstatEntry s (toPid (strtol arg))
      else (.reaping, [.notFound cmdType])

inductive Action
  /-- `none` at the end of the input -/
  | readline (cmd : Option Text)
  | fork (pid : Int)
  | kill (ret : Int)
  | openStat (found : Bool)
  | openStatus (found : Bool)
  | waitpid (ret : Int)
  /-- `check_zombieProcess` finds the list empty and returns -/
  | emptyList
  /-- a child terminates -/
  | terminate (pid : Int) (cause : Cause)

/-- What `waitpid(-1, &status, WNOHANG)` may return. -/
def WaitReturns (children : List Child) (ret : Int) : Prop :=
  (0 < ret ∧ ∃ c ∈ children, c.pid = ret ∧ c.cause ≠ none) ∨
    (ret = 0 ∧ children ≠ [] ∧ ∀ c ∈ children, c.cause = none) ∨ (ret = -1 ∧ children = [])

instance (children : List Child) (ret : Int) : Decidable (WaitReturns children ret) :=
  inferInstanceAs (Decidable (_ ∨ _))

def Enabled (s : State) : Action → Prop
  | .readline _ => s.loc = .prompt
  | .fork pid => (s.loc matches .forking _) ∧ 0 < pid ∧ pid ∉ s.children.map Child.pid
  | .kill ret => (s.loc matches .signalling _ _) ∧ (ret = 0 ∨ ret = -1)
  | .openStat _ => (s.loc matches .openingStat _) = true
  | .openStatus _ => (s.loc matches .openingStatus _) = true
  | .waitpid ret => s.loc = .reaping ∧ s.head ≠ none ∧ WaitReturns s.children ret
  | .emptyList => s.loc = .reaping ∧ s.head = none
  | .terminate pid _ => ∃ c ∈ s.children, c.pid = pid ∧ c.cause = none

instance (s : State) : DecidablePred (Enabled s)
  | .readline _ | .openStat _ | .openStatus _ => inferInstanceAs (Decidable (_ = _))
  | .fork _ | .kill _ | .waitpid _ | .emptyList => inferInstanceAs (Decidable (_ ∧ _))
  | .terminate pid _ => inferInstanceAs (Decidable (∃ c ∈ s.children, c.pid = pid ∧ c.cause = none))

/-- What `check_zombieProcess` prints of a reaped child. -/
def reapOutput (children : List Child) (pid : Int) : List Output :=
  match (children.find? (·.pid = pid)).bind Child.cause with
  | some .exited => [.terminated pid]
  | some .signaled => [.killed pid]
  | none => []

def next (s : State) : Action → State
  | .readline none => { s with loc := .crashed }
  | .readline (some cmd) => { s with loc := (command s cmd).1, output := s.output ++ (command s cmd).2 }
  | .fork pid =>
    match s.loc with
    | .forking program =>
      match insertNode s.heap s.head ⟨pid, program⟩ with
      | none => { s with loc := .crashed }
      | some (heap, head) =>
        { loc := .reaping, heap, head
          children := s.children ++ [⟨pid, none⟩]
          output := s.output ++ [.running pid] }
    | _ => s
  | .kill ret =>
    match s.loc with
    | .signalling pid sig => { s with loc := .reaping, output := s.output ++ killOutput pid ret sig }
    | _ => s
  | .openStat found =>
    match s.loc with
    | .openingStat pid =>
      { s with loc := .openingStatus pid, output := s.output ++ if found then [] else [.noStat] }
    | _ => s
  | .openStatus found =>
    { s with loc := .reaping, output := s.output ++ if found then [] else [.noStatus] }
  | .waitpid ret =>
    if 0 < ret then
      match removeNode s.heap s.head ret with
      | none => { s with loc := .crashed }
      | some (heap, head) =>
        { loc := .reaping, heap, head
          children := s.children.eraseP (·.pid = ret)
          output := s.output ++ reapOutput s.children ret }
    else if ret = 0 then { s with loc := .prompt }
    else { s with loc := .failed }
  | .emptyList => { s with loc := .prompt }
  | .terminate pid cause =>
    { s with children := s.children.map fun c => if c.pid = pid then { c with cause := some cause } else c }

/-- The runs of PMan with its children, from its start. -/
abbrev Reaches (as : List Action) (s : State) : Prop := Run Enabled next start as s

end CSC360.PMan
