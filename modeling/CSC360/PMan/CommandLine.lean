import CSC360.Base.Strings
import CSC360.PMan.Shell

/-!
# The command line

One iteration of the command loop as far as it touches the line: `main` counts the
tokens of a copy of the line, makes an array of as many elements, cuts the line itself
and copies each token. The accesses that can miss their object are recorded
(`Access`), and the computation goes on as if the memory behind the object were free.

**Both passes over the line see the same tokens, so the array holds them in order**
(`parse_eq`). But each buffer is a byte short for the null of its string, and the null
pointer at the end of the array is stored behind it: **the iteration is safe exactly
for the empty line** (`iteration_safe_iff`).
-/

namespace CSC360.PMan

open CSC360.Base

/-- An access to memory of the iteration. -/
inductive Access
  /-- the string that `strcmp` gets; `none` for a null pointer -/
  | strcmp (s : Option Text)
  /-- the bytes that `strcpy` writes, its null included, and the bytes of its target -/
  | strcpy (written allocated : Nat)
  /-- a store to `argv[i]`, which has `len` elements -/
  | store (i len : Nat)
  deriving DecidableEq

def Access.InBounds : Access → Prop
  | .strcmp s => s ≠ none
  | .strcpy written allocated => written ≤ allocated
  | .store i len => i < len

/-- The elements of `argv` stored so far, `none` for a null pointer, and the accesses so far. -/
structure Parse where
  argv : List (Option Text)
  accesses : List Access

/-- The body of the loop that copies the tokens: `malloc`, `strcpy` and `argv[i] = value`. -/
def keepToken (len : Nat) (st : Parse) (token : Text) : Parse where
  argv := st.argv ++ [some token]
  accesses := st.accesses ++ [.strcpy (token.length + 1) token.length, .store st.argv.length len]

/-- From the copy of the line to `argv[i] = NULL`. -/
def parse (cmd : Text) : Parse :=
  let temp := cstring cmd 0
  let copied := Access.strcpy (strlen cmd 0 + 1) (strlen cmd 0)
  let len := (Id.run (eachToken ' ' (fun len _ _ => pure (len + 1)) (strtok ' ' temp 0) 0)).1
  let st := (Id.run (eachToken ' ' (fun st _ token => pure (keepToken len st token)) (strtok ' ' cmd 0)
    ⟨[], [copied]⟩)).1
  ⟨st.argv ++ [none], st.accesses ++ [.store st.argv.length len]⟩

/-- The comparisons of `cmd_type` up to the first command that it equals. -/
def comparisons (cmdType : Option Text) : List Text → List Access
  | [] => []
  | cmd :: cmds => .strcmp cmdType :: if cmdType = none ∨ cmdType = some cmd then [] else comparisons cmdType cmds

/-- `bg_entry` copies the name of the program into the new node. -/
def bgEntry (argv : List (Option Text)) : List Access :=
  match argv with
  | some cmdType :: some program :: _ =>
    if cmdType = cmdBg then [.strcpy (program.length + 1) program.length] else []
  | _ => []

/-- The array that the iteration builds, if it comes to it, and the accesses. -/
structure Iteration where
  argv : Option (List (Option Text))
  accesses : List Access

/-- The iteration for a result of `readline`, `none` for a null pointer. -/
def iteration : Option Text → Iteration
  | none => ⟨none, [.strcmp none]⟩
  | some cmd =>
    let compared := Access.strcmp (some (cstring cmd 0))
    if cstring cmd 0 = [] then ⟨none, [compared]⟩
    else
      let st := parse cmd
      let dispatched := comparisons (st.argv.headD none) [cmdBg, cmdBglist, cmdBgkill, cmdBgstop, cmdBgcont, cmdPstat]
      ⟨some st.argv, compared :: st.accesses ++ dispatched ++ bgEntry st.argv⟩

/-! ## The two passes -/

/-- The accesses for the tokens, the first of them stored at `i`. -/
def tokenAccesses (len : Nat) : Nat → List Text → List Access
  | _, [] => []
  | i, token :: tokens => .strcpy (token.length + 1) token.length :: .store i len :: tokenAccesses len (i + 1) tokens

theorem foldl_keepToken (len : Nat) (words : List Text) (st : Parse) :
    words.foldl (keepToken len) st =
      ⟨st.argv ++ words.map some, st.accesses ++ tokenAccesses len st.argv.length words⟩ := by
  induction words generalizing st with
  | nil => rw [List.foldl_nil, List.map_nil, tokenAccesses, List.append_nil, List.append_nil]
  | cons word words ih =>
    rw [List.foldl_cons, ih, keepToken]
    simp [tokenAccesses]

/-- A loop whose body does not fail folds over the words of the line. -/
theorem eachToken_line {σ : Type} (body : σ → Text → σ) (cmd : Text) (st : σ) :
    (Id.run (eachToken ' ' (fun st _ token => pure (body st token)) (strtok ' ' cmd 0) st)).1 =
      (tokens (cstring cmd 0)).foldl body st := by
  have texts := (tokens_of_strtokAll ' ' (Nat.zero_le cmd.length)).texts
  have same : tokens (cstring cmd 0) = words ' ' (cstring cmd 0) := rfl
  rw [same, ← texts, List.foldl_map, eachToken_eq, List.foldlM_pure, map_pure]
  rfl

/-- **The array holds the tokens in order, and a null pointer**; both passes count the same. -/
theorem parse_eq (cmd : Text) :
    parse cmd = ⟨(tokens (cstring cmd 0)).map some ++ [none],
      .strcpy (strlen cmd 0 + 1) (strlen cmd 0) ::
        tokenAccesses (tokens (cstring cmd 0)).length 0 (tokens (cstring cmd 0)) ++
          [.store (tokens (cstring cmd 0)).length (tokens (cstring cmd 0)).length]⟩ := by
  have counted := eachToken_line (fun len _ => len + 1) (cstring cmd 0) 0
  have copied : cstring (cstring cmd 0) 0 = cstring cmd 0 := cstring_of_clean (nul_notMem_cstring cmd 0)
  have length : ∀ (words : List Text) (len : Nat), words.foldl (fun len _ => len + 1) len = len + words.length := by
    intro words
    induction words with
    | nil => exact fun _ => rfl
    | cons word words ih =>
      intro len
      rw [List.foldl_cons, ih, List.length_cons]
      omega
  rw [copied, length, Nat.zero_add] at counted
  rw [parse, counted]
  simp only [eachToken_line, foldl_keepToken, List.nil_append, List.length_nil, List.length_map, List.singleton_append]

/-- The tokens themselves are stored inside the array; only their copies are too long. -/
theorem token_faults {len i : Nat} {words : List Text} {access : Access} (room : i + words.length ≤ len)
    (mem : access ∈ tokenAccesses len i words) (fault : ¬ access.InBounds) : ∃ n, access = .strcpy (n + 1) n := by
  induction words generalizing i with
  | nil => cases mem
  | cons word words ih =>
    rw [List.length_cons] at room
    rcases List.mem_cons.1 mem with rfl | mem
    · exact ⟨word.length, rfl⟩
    rcases List.mem_cons.1 mem with rfl | later
    · exact absurd (by show i < len; omega) fault
    · exact ih (by omega) later

theorem mem_comparisons {cmdType : Option Text} {cmds : List Text} {access : Access}
    (mem : access ∈ comparisons cmdType cmds) : access = .strcmp cmdType := by
  induction cmds with
  | nil => cases mem
  | cons cmd cmds ih =>
    rcases List.mem_cons.1 mem with rfl | later
    · rfl
    · split at later
      · cases later
      · exact ih later

theorem mem_bgEntry {argv : List (Option Text)} {access : Access} (mem : access ∈ bgEntry argv) :
    ∃ n, access = .strcpy (n + 1) n := by
  unfold bgEntry at mem
  split at mem
  · rename_i program _
    split at mem
    · exact ⟨program.length, List.mem_singleton.1 mem⟩
    · cases mem
  · cases mem

/-! ## Which lines are safe -/

/-- The iteration tokenises exactly, and every access is inside its object. -/
structure Safe (cmd : Option Text) : Prop where
  tokenises : ∀ line argv, cmd = some line → (iteration cmd).argv = some argv →
    argv = (tokens (cstring line 0)).map some ++ [none]
  inBounds : ∀ access ∈ (iteration cmd).accesses, access.InBounds

theorem iteration_null : (iteration none).accesses = [.strcmp none] := rfl

theorem iteration_empty {line : Text} (empty : cstring line 0 = []) :
    iteration (some line) = ⟨none, [.strcmp (some [])]⟩ := by
  simp only [iteration, empty, if_pos]

theorem iteration_line {line : Text} (some : cstring line 0 ≠ []) :
    iteration (.some line) = ⟨.some (parse line).argv,
      .strcmp (.some (cstring line 0)) :: (parse line).accesses ++
        comparisons ((parse line).argv.headD none) [cmdBg, cmdBglist, cmdBgkill, cmdBgstop, cmdBgcont, cmdPstat] ++
        bgEntry (parse line).argv⟩ := by
  simp only [iteration, some, if_false]

/-- Whatever the line, the array is right. -/
theorem iteration_argv {line : Text} {argv : List (Option Text)} (built : (iteration (some line)).argv = some argv) :
    argv = (tokens (cstring line 0)).map some ++ [none] := by
  by_cases empty : cstring line 0 = []
  · rw [iteration_empty empty] at built
    cases built
  · rw [iteration_line empty, parse_eq] at built
    exact (Option.some.inj built).symm

/-- The copy of a line that is not empty is a byte longer than its buffer. -/
theorem Safe.empty {cmd : Option Text} (safe : Safe cmd) : ∃ line, cmd = some line ∧ cstring line 0 = [] := by
  cases cmd with
  | none => exact absurd rfl (safe.inBounds (.strcmp none) (by simp [iteration_null]))
  | some line =>
    refine ⟨line, rfl, ?_⟩
    by_contra some
    have mem : .strcpy (strlen line 0 + 1) (strlen line 0) ∈ (iteration (.some line)).accesses := by
      rw [iteration_line some, parse_eq]
      simp
    have copied : strlen line 0 + 1 ≤ strlen line 0 := safe.inBounds _ mem
    omega

/-- **An iteration is safe exactly for the empty line.** -/
theorem iteration_safe_iff (cmd : Option Text) : Safe cmd ↔ ∃ line, cmd = some line ∧ cstring line 0 = [] := by
  constructor
  · exact Safe.empty
  · rintro ⟨line, rfl, empty⟩
    refine ⟨fun line' argv same built => ?_, fun access mem => ?_⟩
    · obtain rfl := Option.some.inj same
      exact iteration_argv built
    · rw [iteration_empty empty] at mem
      obtain rfl := List.mem_singleton.1 mem
      exact Option.some_ne_none _

/-- What goes wrong on a line that is not empty: the copies are a byte too long, the null pointer
is stored behind the array, and without a token the null pointer is compared. -/
theorem line_faults {line : Text} {access : Access} (some : cstring line 0 ≠ [])
    (mem : access ∈ (iteration (.some line)).accesses) (fault : ¬ access.InBounds) :
    (∃ n, access = .strcpy (n + 1) n) ∨
      access = .store (tokens (cstring line 0)).length (tokens (cstring line 0)).length ∨
      access = .strcmp none ∧ tokens (cstring line 0) = [] := by
  rw [iteration_line some, parse_eq] at mem
  rcases List.mem_append.1 mem with mem | copied
  · rcases List.mem_append.1 mem with mem | compared
    · rcases List.mem_cons.1 mem with rfl | mem
      · exact absurd (Option.some_ne_none _) fault
      rcases List.mem_cons.1 mem with rfl | mem
      · exact .inl ⟨strlen line 0, rfl⟩
      rcases List.mem_append.1 mem with token | null
      · exact .inl (token_faults (Nat.le_of_eq (Nat.zero_add _)) token fault)
      · exact .inr (.inl (List.mem_singleton.1 null))
    · obtain rfl := mem_comparisons compared
      cases found : tokens (cstring line 0) with
      | nil => exact .inr (.inr ⟨rfl, rfl⟩)
      | cons word words =>
        rw [found] at fault
        exact absurd (Option.some_ne_none _) fault
  · exact .inl (mem_bgEntry copied)

/-- A line of spaces only: the shell then follows the null pointer. -/
theorem spaces_crash {line : Text} (clean : nul ∉ line) (some : line ≠ []) (spaces : tokens line = []) (s : State) :
    .strcmp none ∈ (iteration (.some line)).accesses ∧ (command s line).1 = .crashed := by
  have whole := cstring_of_clean clean
  constructor
  · rw [iteration_line (by rwa [whole]), parse_eq, whole, spaces]
    simp [comparisons]
  · rw [command, if_neg some, spaces]

theorem bglist_overruns : ¬ ∀ cmd, Safe cmd := by
  intro claim
  obtain ⟨line, same, empty⟩ := (claim (some cmdBglist)).empty
  obtain rfl := Option.some.inj same
  revert empty
  decide

end CSC360.PMan
