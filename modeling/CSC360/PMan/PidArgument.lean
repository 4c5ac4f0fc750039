import CSC360.PMan.Reaping

/-!
# The pid argument

`bgkill`, `bgstop`, `bgstart` and `pstat` make a pid of their argument with `strtol`, which
reads a numeral at its beginning, and the cast to `pid_t`. **They act on the process that
the argument names, or refuse, exactly if the argument is a numeral of the range of
`pid_t` or the pid made of it is not listed** (`pid_argument_iff`).
-/

namespace CSC360.PMan

open CSC360.Base

variable {s : State} {l : List (Nat × Node)} {line cmdType arg : Text} {rest : List Text} {pid : Int}

/-- The commands with a pid argument. -/
def pidCommands : List Text := [cmdBgkill, cmdBgstop, cmdBgcont, cmdPstat]

/-- No process is touched, and a message says that the process does not exist. -/
def Refused (result : Loc × List Output) : Prop :=
  result.1 = .reaping ∧ ∃ pid, result.2 = [.doesNotExist pid] ∨ result.2 = [.noProcess pid]

/-- The command acts on a process only if the argument is a numeral of its pid, and is refused if
the argument names no listed process. -/
structure Honoured (l : List (Nat × Node)) (arg : Text) (result : Loc × List Output) : Prop where
  acts : ∀ pid, result.1.target = some pid → Numeral arg pid
  refuses : (∀ pid ∈ pids l, ¬ Numeral arg pid) → Refused result

/-! ## The commands -/

theorem signalOf_pidCommand (named : cmdType ∈ pidCommands) (other : cmdType ≠ cmdPstat) :
    ∃ sig, signalOf cmdType = some sig := by
  simp only [pidCommands, List.mem_cons, List.not_mem_nil, or_false] at named
  rcases named with rfl | rfl | rfl | rfl
  · exact ⟨.sigterm, rfl⟩
  · exact ⟨.sigstop, rfl⟩
  · exact ⟨.sigcont, rfl⟩
  · exact absurd rfl other

theorem command_pid (named : cmdType ∈ pidCommands) (parsed : tokens line = cmdType :: arg :: rest) :
    command s line =
      if cmdType = cmdPstat then pstatEntry s (toPid (strtol arg)) else bgsigEntry s (toPid (strtol arg)) cmdType := by
  have some : line ≠ [] := by
    rintro rfl
    cases parsed
  rw [command, if_neg some, parsed]
  simp only [pidCommands, List.mem_cons, List.not_mem_nil, or_false] at named
  rcases named with rfl | rfl | rfl | rfl <;> rfl

theorem command_listed (seg : Seg s.heap s.head l none) (named : cmdType ∈ pidCommands)
    (parsed : tokens line = cmdType :: arg :: rest) (listed : toPid (strtol arg) ∈ pids l) :
    (command s line).1.target = some (toPid (strtol arg)) := by
  rw [command_pid named parsed]
  split
  · rw [pstatEntry, checkPid_eq seg seg.length_le_bound, if_pos listed]
    rfl
  · rename_i other
    obtain ⟨sig, signal⟩ := signalOf_pidCommand named other
    rw [bgsigEntry, checkPid_eq seg seg.length_le_bound, if_pos listed, signal]
    rfl

theorem command_unlisted (seg : Seg s.heap s.head l none) (named : cmdType ∈ pidCommands)
    (parsed : tokens line = cmdType :: arg :: rest) (unlisted : toPid (strtol arg) ∉ pids l) :
    Refused (command s line) := by
  rw [command_pid named parsed]
  split
  · rw [pstatEntry, checkPid_eq seg seg.length_le_bound, if_neg unlisted]
    exact ⟨rfl, _, .inr rfl⟩
  · rw [bgsigEntry, checkPid_eq seg seg.length_le_bound, if_neg unlisted]
    exact ⟨rfl, _, .inl rfl⟩

/-! ## Which arguments are honoured -/

/-- The argument is a numeral of a value that `pid_t` holds. -/
def PidNumeral (arg : Text) : Prop := ∃ value, Numeral arg value ∧ -2147483648 ≤ value ∧ value < 2147483648

/-- The pid that a number becomes as `long` and then as `pid_t`. -/
def narrowed (value : Int) : Int := toPid (max (-9223372036854775808) (min 9223372036854775807 value))

/-- The number that the argument begins with does not become a listed pid. -/
def HitsNothing (l : List (Nat × Node)) (arg : Text) : Prop :=
  ∀ value, LeadingNumber arg value → narrowed value ∉ pids l

theorem hitsNothing_iff : HitsNothing l arg ↔ toPid (strtol arg) ∉ pids l := by
  constructor
  · intro hits
    obtain ⟨value, leading⟩ := exists_leadingNumber arg
    rw [strtol_leadingNumber leading]
    exact hits value leading
  · intro unlisted value leading
    rw [strtol_leadingNumber leading] at unlisted
    exact unlisted

theorem toPid_numeral {value : Int} (numeral : Numeral arg value) (low : -2147483648 ≤ value)
    (high : value < 2147483648) : toPid (strtol arg) = value := by
  have clamped : max (-9223372036854775808) (min 9223372036854775807 value) = value := by omega
  rw [strtol_leadingNumber numeral.leadingNumber, clamped]
  exact toInt_eq low high

/-- **A pid argument means what it says exactly if it is a numeral in range or hits no listed process.** -/
theorem pid_argument_iff (seg : Seg s.heap s.head l none) (named : cmdType ∈ pidCommands)
    (parsed : tokens line = cmdType :: arg :: rest) :
    Honoured l arg (command s line) ↔ PidNumeral arg ∨ HitsNothing l arg := by
  rw [hitsNothing_iff]
  by_cases listed : toPid (strtol arg) ∈ pids l
  · have target := command_listed seg named parsed listed
    constructor
    · intro honoured
      exact .inl ⟨_, honoured.acts _ target, toInt_bounds (strtol arg)⟩
    · rintro (⟨value, numeral, low, high⟩ | unlisted)
      · have same := toPid_numeral numeral low high
        rw [same] at target listed
        refine ⟨fun pid acts => ?_, fun none => absurd numeral (none value listed)⟩
        rw [target] at acts
        exact Option.some.inj acts ▸ numeral
      · exact absurd listed unlisted
  · have refused := command_unlisted seg named parsed listed
    refine ⟨fun _ => .inr listed, fun _ => ⟨fun pid acts => ?_, fun _ => refused⟩⟩
    rw [refused.1] at acts
    cases acts

/-- One child in the list. -/
def oneChild : State := [.readline (some "bg sleep 10".toList), .fork 41, .waitpid 0].foldl next start

theorem oneChild_list : Seg oneChild.heap oneChild.head [(0, ⟨41, "sleep".toList⟩)] none :=
  ⟨rfl, none, rfl, rfl⟩

theorem pid_argument_iff_oneChild :
    Honoured [(0, ⟨41, "sleep".toList⟩)] "+41".toList (command oneChild "bgkill +41".toList) :=
  (pid_argument_iff oneChild_list (by decide : cmdBgkill ∈ pidCommands)
    (by decide : tokens "bgkill +41".toList = [cmdBgkill, "+41".toList])).2
    (.inl ⟨decimal "41".toList, .plus (digits_toDigits 41), by decide, by decide⟩)

/-- What follows the digits is ignored. -/
theorem trailing_ignored :
    ¬ ∀ (s : State) (l : List (Nat × Node)), Seg s.heap s.head l none → ∀ cmdType ∈ pidCommands,
      ∀ (line arg : Text) (rest : List Text), tokens line = cmdType :: arg :: rest →
        Honoured l arg (command s line) := by
  intro claim
  have honoured := claim oneChild _ oneChild_list cmdBgkill (by decide) "bgkill 41x".toList "41x".toList [] (by decide)
  have noNumeral : ∀ value, ¬ Numeral "41x".toList value := by
    intro value numeral
    cases numeral with
    | unsigned digits_ =>
      have digit := digits_.2 'x' (by decide)
      cases digit
  exact noNumeral 41 (honoured.acts 41 (by decide))

end CSC360.PMan
