import CSC360.Base.TokenArrays
import CSC360.PMan.StatFile

/-!
# The status file

`statusData` reads `/proc/<pid>/status` line by line into a buffer of 800 characters, which
`fgets` is told has 4096. It copies a line, cuts off what stands before the colon and then
what stands between spaces, and prints the copy for each piece that is the name of one of two
counters.

**The lines of the two counters are printed, in their order and each once, exactly if every
line fits into the buffer and no line has one of the names behind its colon**
(`statusData_reports_iff`); a line that does not fit is written past the buffer.
-/

namespace CSC360.PMan

open CSC360.Base

def voluntary : Text := "voluntary_ctxt_switches".toList

def nonvoluntary : Text := "nonvoluntary_ctxt_switches".toList

/-- What is printed of a line for one of its tokens. -/
def printCounter (line token : Text) : Text :=
  if token = voluntary then line
  else if token = nonvoluntary then line ++ ['\n']
  else []

/-- The loop `while(fgets(str, 4096, fp) != NULL)`: `str` has 800 characters, and what has been
printed so far is `out`. -/
def readStatus (fp str out : Text) : Except Fault Text :=
  match _ : fgets 4096 fp with
  | none => .ok out
  | some (chunk, fp) =>
    if 800 < chunk.length + 1 then .error .storeOutside
    else do
      let str := overwrite str chunk
      let line := cstring str 0
      let (out, str) ← eachToken ' ' (fun out _ token => .ok (out ++ printCounter line token)) (strtok ':' str 0) out
      readStatus fp str out
termination_by fp.length
decreasing_by exact fgets_shorter (show 2 ≤ 4096 by decide) ‹_›

/-- What is printed of the file, `none` if there is no such file. -/
def statusData : Option Text → Except Fault (Option Text)
  | none => .ok none
  | some fp => do
    let out ← readStatus fp [] []
    return some out

/-! ## Lines of the file -/

/-- A line in the layout of the kernel: a name, a colon, a tab and a value. -/
structure StatusLine where
  key : Text
  value : Text
  keySome : key ≠ []
  keyPlain : ':' ∉ key ∧ '\n' ∉ key ∧ nul ∉ key
  valueLine : '\n' ∉ value ∧ nul ∉ value

namespace StatusLine

variable (line : StatusLine)

/-- What stands behind the colon. -/
def behind : Text := '\t' :: line.value ++ ['\n']

def text : Text := line.key ++ ':' :: line.behind

/-- What the name of the line calls for. -/
def counter : Text := printCounter line.text line.key

/-- A line shorter than the buffer, whose value has no counter's name as a word. -/
structure Harmless : Prop where
  fits : line.text.length < 800
  words : ∀ word ∈ words ' ' line.behind, word ≠ voluntary ∧ word ≠ nonvoluntary

end StatusLine

/-- The file with the lines. -/
def statusFile (lines : List StatusLine) : Text := lines.flatMap StatusLine.text

/-! ## One line -/

section Lines

variable (line : StatusLine)

theorem StatusLine.text_clean : nul ∉ line.text := by
  have key := line.keyPlain.2.2
  have value := line.valueLine.2
  simp only [text, behind, List.mem_append, List.mem_cons, List.not_mem_nil, or_false, not_or]
  exact ⟨key, by decide, ⟨by decide, value⟩, by decide⟩

/-- The tokens of a line are its name and the words behind the colon. -/
theorem StatusLine.tokens (rest : Text) (ends : rest.getD 0 nul = nul) :
    (strtokAll ' ' (strtok ':' (line.text ++ rest) 0)).1.map Prod.snd = line.key :: words ' ' line.behind := by
  have clean : nul ∉ [] ++ line.key ++ ':' :: line.behind := line.text_clean
  have none : ∀ c ∈ ([] : Text), c = ':' := nofun
  have first := strtok_more [] clean ends none line.keySome line.keyPlain.1
  simp only [List.nil_append, List.length_nil] at first
  have behindClean : nul ∉ line.behind := fun mem => clean (List.mem_append_right _ (List.mem_cons_of_mem _ mem))
  have key : cstring (line.key ++ nul :: line.behind ++ rest) 0 = line.key := by
    rw [List.append_assoc]
    exact cstring_append [] line.keyPlain.2.2 rfl
  have shape : line.key ++ nul :: line.behind ++ rest = line.key ++ [nul] ++ line.behind ++ rest := by simp
  have place : line.key.length + 1 = (line.key ++ [nul]).length := by simp
  have later := (strtokAll_spec ' ' behindClean (line.key ++ [nul]) ends rfl).1
  rw [StatusLine.text, first, strtokAll_some rfl, List.map_cons, key]
  simp only [shape, place, later]

theorem foldlM_print {line : Text} (tokens : List (Nat × Text)) (out : Text) :
    tokens.foldlM (fun out token => (.ok (out ++ printCounter line token.2) : Except Fault Text)) out =
      .ok (out ++ (tokens.map Prod.snd).flatMap (printCounter line)) := by
  induction tokens generalizing out with
  | nil => rw [List.foldlM_nil, List.map_nil, List.flatMap_nil, List.append_nil]; rfl
  | cons token tokens ih => rw [List.foldlM_cons, ok_bind, ih, List.map_cons, List.flatMap_cons, List.append_assoc]

/-- What is printed of a line. -/
theorem StatusLine.printed (rest out : Text) (ends : rest.getD 0 nul = nul) :
    ∃ str, eachToken ' ' (fun out _ token => (.ok (out ++ printCounter line.text token) : Except Fault Text))
        (strtok ':' (line.text ++ rest) 0) out =
      .ok (out ++ (line.counter ++ (words ' ' line.behind).flatMap (printCounter line.text)), str) := by
  refine ⟨(strtokAll ' ' (strtok ':' (line.text ++ rest) 0)).2, ?_⟩
  rw [eachToken_eq, foldlM_print, line.tokens rest ends, List.flatMap_cons]
  rfl

end Lines

/-! ## The file -/

theorem readStatus_nil (str out : Text) : readStatus [] str out = .ok out := by
  rw [readStatus]
  rfl

theorem readStatus_some {fp rest chunk : Text} (str out : Text) (read : fgets 4096 fp = some (chunk, rest)) :
    readStatus fp str out =
      if 800 < chunk.length + 1 then .error .storeOutside
      else (do
        let (out, str) ← eachToken ' ' (fun out _ token => .ok (out ++ printCounter (cstring (overwrite str chunk) 0) token))
          (strtok ':' (overwrite str chunk) 0) out
        readStatus rest str out) := by
  rw [readStatus]
  split <;> simp_all

theorem StatusLine.text_line (line : StatusLine) :
    ∃ front, line.text = front ++ ['\n'] ∧ '\n' ∉ front ∧ front ≠ [] := by
  refine ⟨line.key ++ ':' :: '\t' :: line.value, by simp [text, behind], ?_, by simp⟩
  have key := line.keyPlain.2.1
  have value := line.valueLine.1
  simp only [List.mem_append, List.mem_cons, not_or]
  exact ⟨key, by decide, by decide, value⟩

/-- A line that fits into the buffer. -/
theorem readStatus_fits (line : StatusLine) (fits : line.text.length < 800) (rest str out : Text) :
    ∃ str', readStatus (line.text ++ rest) str out =
      readStatus rest str' (out ++ (line.counter ++ (words ' ' line.behind).flatMap (printCounter line.text))) := by
  obtain ⟨front, shape, oneLine, -⟩ := line.text_line
  have length := congrArg List.length shape
  rw [List.length_append, List.length_singleton] at length
  have read : fgets 4096 (line.text ++ rest) = some (line.text, rest) := by
    rw [shape, List.append_assoc]
    exact fgets_line oneLine (by omega) rest
  have copy : cstring (overwrite str line.text) 0 = line.text := cstring_overwrite line.text_clean
  obtain ⟨str', printed⟩ := line.printed (nul :: str.drop (line.text.length + 1)) out rfl
  refine ⟨str', ?_⟩
  rw [readStatus_some str out read, if_neg (by omega), copy, overwrite, printed, ok_bind]

/-- A line that does not is written past it. -/
theorem readStatus_long (line : StatusLine) (long : 800 ≤ line.text.length) (rest str out : Text) :
    readStatus (line.text ++ rest) str out = .error .storeOutside := by
  obtain ⟨front, shape, oneLine, some⟩ := line.text_line
  have length := congrArg List.length shape
  rw [List.length_append, List.length_singleton] at length
  rcases Nat.lt_or_ge front.length 4095 with short | whole
  · have read : fgets 4096 (line.text ++ rest) = .some (line.text, rest) := by
      rw [shape, List.append_assoc]
      exact fgets_line oneLine (by omega) rest
    rw [readStatus_some str out read, if_pos (by omega)]
  · have read := fgets_long some oneLine (show 4096 ≤ front.length + 1 by omega) ('\n' :: rest)
    have again : line.text ++ rest = front ++ '\n' :: rest := by rw [shape]; simp
    rw [again, readStatus_some str out read, if_pos]
    rw [List.length_take]
    omega

/-- **What is printed of the file.** -/
theorem readStatus_eq (lines : List StatusLine) (str out : Text) :
    readStatus (statusFile lines) str out =
      if ∀ line ∈ lines, line.text.length < 800 then
        .ok (out ++ lines.flatMap fun line => line.counter ++ (words ' ' line.behind).flatMap (printCounter line.text))
      else .error .storeOutside := by
  induction lines generalizing str out with
  | nil =>
    rw [statusFile, List.flatMap_nil, readStatus_nil, if_pos (by simp), List.flatMap_nil, List.append_nil]
  | cons line lines ih =>
    rw [statusFile, List.flatMap_cons, ← statusFile]
    rcases Nat.lt_or_ge line.text.length 800 with fits | long
    · obtain ⟨str', rest⟩ := readStatus_fits line fits (statusFile lines) str out
      rw [rest, ih, List.flatMap_cons, List.append_assoc]
      simp only [List.forall_mem_cons, fits, true_and]
    · rw [readStatus_long line long, if_neg]
      exact fun all => absurd (all line List.mem_cons_self) (Nat.not_lt.2 long)

/-- Nothing is printed beside the counters' lines. -/
theorem flatMap_append_eq_iff {α β : Type} {f g : α → List β} {l : List α} :
    (l.flatMap fun a => f a ++ g a) = l.flatMap f ↔ ∀ a ∈ l, g a = [] := by
  have longer : ∀ l : List α, (l.flatMap f).length ≤ (l.flatMap fun a => f a ++ g a).length := by
    intro l
    induction l with
    | nil => exact Nat.le_refl 0
    | cons a l ih =>
      simp only [List.flatMap_cons, List.length_append]
      omega
  induction l with
  | nil => simp
  | cons a l ih =>
    rw [List.forall_mem_cons]
    refine Iff.trans ?_ (and_congr_right fun _ => ih)
    rw [List.flatMap_cons, List.flatMap_cons]
    constructor
    · intro same
      have length := congrArg List.length same
      simp only [List.length_append] at length
      have none : g a = [] := List.length_eq_zero_iff.1 (by have := longer l; omega)
      rw [none, List.append_nil] at same
      exact ⟨none, List.append_cancel_left same⟩
    · rintro ⟨none, same⟩
      rw [none, List.append_nil, same]

theorem printCounter_eq_nil {line token : Text} (some : line ≠ []) :
    printCounter line token = [] ↔ token ≠ voluntary ∧ token ≠ nonvoluntary := by
  unfold printCounter
  split
  · rename_i same
    exact ⟨fun none => absurd none some, fun other => absurd same other.1⟩
  · rename_i other
    split
    · rename_i same
      exact ⟨fun none => absurd (List.append_eq_nil_iff.1 none).1 some, fun other => absurd same other.2⟩
    · rename_i other'
      exact ⟨fun _ => ⟨other, other'⟩, fun _ => rfl⟩

/-- **The lines of the two counters are printed** exactly if all lines are harmless. -/
theorem statusData_reports_iff (lines : List StatusLine) :
    statusData (some (statusFile lines)) = .ok (some (lines.flatMap StatusLine.counter)) ↔
      ∀ line ∈ lines, line.Harmless := by
  have some : ∀ line : StatusLine, line.text ≠ [] :=
    fun line => List.append_ne_nil_of_right_ne_nil _ (List.cons_ne_nil _ _)
  rw [statusData, readStatus_eq, List.nil_append]
  by_cases fits : ∀ line ∈ lines, line.text.length < 800
  · have printed :
        (lines.flatMap fun line => line.counter ++ (words ' ' line.behind).flatMap (printCounter line.text)) =
        lines.flatMap StatusLine.counter ↔ ∀ line ∈ lines, line.Harmless := by
      rw [flatMap_append_eq_iff]
      refine forall₂_congr fun line mem => ?_
      rw [List.flatMap_eq_nil_iff]
      constructor
      · exact fun none => ⟨fits line mem, fun word inLine => (printCounter_eq_nil (some line)).1 (none word inLine)⟩
      · exact fun harmless word inLine => (printCounter_eq_nil (some line)).2 (harmless.words word inLine)
    rw [if_pos fits, ok_bind, ← printed]
    exact ⟨fun same => Option.some.inj (Except.ok.inj same), fun same => congrArg (Except.ok ∘ Option.some) same⟩
  · rw [if_neg fits, error_bind]
    constructor
    · intro same
      cases same
    · intro harmless
      exact absurd (fun line mem => (harmless line mem).fits) fits

end CSC360.PMan
