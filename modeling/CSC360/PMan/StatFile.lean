import CSC360.Base.Printf
import CSC360.Base.TokenArrays
import CSC360.PMan.Shell

/-!
# The stat file

`statData` reads `/proc/<pid>/stat` by chunks into `str`, cuts what `data[0]` points to at
its spaces, and prints five of the tokens. All elements of `data` point to `str`, so
`data[0]` is the last chunk.

**The fields of a line are printed under their names exactly if the line fits into a chunk,
the name of the program has no space, the resident set is as large as its limit, and
both times are whole seconds that a `float` holds** (`statData_reports_iff`): the
token with index 24 is field 25, the limit, and the times are divided as integers.
-/

namespace CSC360.PMan

open CSC360.Base

/-- What `fgets` writes to the buffer. -/
def overwrite (str chunk : Text) : Text := chunk ++ nul :: str.drop (chunk.length + 1)

/-- The loop `while(fgets(str, 1024, fp) != NULL)`; a pointer to `str` is its offset there, 0. -/
def readStat (fp str : Text) (data : List Nat) : Except Fault (Text × List Nat) :=
  match _ : fgets 1024 fp with
  | none => .ok (str, data)
  | some (chunk, fp) => do
    let data ← storeToken 512 data 0
    readStat fp (overwrite str chunk) data
termination_by fp.length
decreasing_by exact fgets_shorter (show 2 ≤ 1024 by decide) ‹_›

/-- `(float)(atoi(s)/sysconf(_SC_CLK_TCK))`, as `%.6f` prints it. -/
def printTime (clkTck : Nat) (s : Text) : Text :=
  (single.round ((toInt (strtol s)).tdiv clkTck : Int)).print 6

/-- The arguments of the `printf`. -/
structure StatOutput where
  comm : Text
  state : Text
  utime : Text
  stime : Text
  rss : Text
  deriving DecidableEq

def StatOutput.text (out : StatOutput) : String :=
  s!"\ncomm:\t\t{String.ofList out.comm} \nstate:\t\t{String.ofList out.state} " ++
    s!"\nutime:\t\t{String.ofList out.utime} \nstime:\t\t{String.ofList out.stime} \nrss:\t\t{String.ofList out.rss} \n"

/-- What is printed of the file, `none` if there is no such file. -/
def statData (clkTck : Nat) : Option Text → Except Fault (Option StatOutput)
  | none => .ok none
  | some fp => do
    let (str, data) ← readStat fp [] []
    let first ← element data 0
    let (statData, str) ← storeTokens 800 ' ' (strtok ' ' str first)
    let comm ← element statData 1
    let state ← element statData 2
    let utime ← element statData 13
    let stime ← element statData 14
    let rss ← element statData 24
    return some {
      comm := cstring str comm
      state := cstring str state
      utime := printTime clkTck (cstring str utime)
      stime := printTime clkTck (cstring str stime)
      rss := cstring str rss }

/-! ## Lines of the file -/

/-- The time is a whole number of seconds that a `float` holds, up to half a microsecond. -/
def WholeSeconds (ticks clkTck : Nat) : Prop :=
  2 * 10 ^ 6 * ticks ≤ clkTck ∨
    ticks < 2 ^ 31 ∧ 2 * 10 ^ 6 * (ticks % clkTck) ≤ clkTck ∧
      single.round ((ticks / clkTck : Nat) : Rat) = .finite ((ticks / clkTck : Nat) : Rat)

/-- A line in the layout of the kernel, of 52 fields. -/
structure StatLine where
  pid : Nat
  comm : Text
  state : Char
  /-- fields 4 to 13 -/
  beforeTimes : List Int
  utime : Nat
  stime : Nat
  /-- fields 16 to 23 -/
  beforeRss : List Int
  rss : Int
  rsslim : Nat
  /-- fields 26 to 52 -/
  behindRss : List Int
  pidSmall : pid < 2 ^ 31
  commLine : '\n' ∉ comm ∧ nul ∉ comm
  stateLetter : state.isAlpha = true
  tenBeforeTimes : beforeTimes.length = 10
  eightBeforeRss : beforeRss.length = 8
  behindRssLength : behindRss.length = 27

namespace StatLine

variable (line : StatLine)

def name : Text := '(' :: line.comm ++ [')']

def numeric : List Int :=
  line.beforeTimes ++ [(line.utime : Int), (line.stime : Int)] ++ line.beforeRss ++ [line.rss, (line.rsslim : Int)] ++
    line.behindRss

def fields : List Text := Nat.toDigits 10 line.pid :: line.name :: [line.state] :: line.numeric.map printInt

def text : Text := [' '].intercalate line.fields ++ ['\n']

/-- Fields 2, 3 and 24, and the quotients of fields 14 and 15 to six places. -/
def report (clkTck : Nat) : StatOutput where
  comm := line.name
  state := [line.state]
  utime := fixed 6 (line.utime / clkTck)
  stime := fixed 6 (line.stime / clkTck)
  rss := printInt line.rss

structure Reportable (clkTck : Nat) : Prop where
  fits : line.text.length ≤ 1023
  oneWord : ' ' ∉ line.comm
  rss : line.rss = line.rsslim
  utime : WholeSeconds line.utime clkTck
  stime : WholeSeconds line.stime clkTck

end StatLine

/-! ## The chunks -/

section Chunks

variable {fp chunk rest str str' line : Text} {data data' : List Nat}

theorem readStat_nil (str : Text) (data : List Nat) : readStat [] str data = .ok (str, data) := by
  rw [readStat]
  rfl

theorem readStat_some (read : fgets 1024 fp = some (chunk, rest)) :
    readStat fp str data = (do
      let data ← storeToken 512 data 0
      readStat rest (overwrite str chunk) data) := by
  rw [readStat]
  split <;> simp_all

theorem cstring_overwrite (clean : nul ∉ chunk) : cstring (overwrite str chunk) 0 = chunk :=
  cstring_append [] clean rfl

/-- A line that fits is read whole. -/
theorem readStat_fits (oneLine : '\n' ∉ line) (fits : line.length ≤ 1022) :
    readStat (line ++ ['\n']) [] [] = .ok (overwrite [] (line ++ ['\n']), [0]) := by
  rw [readStat_some (fgets_line oneLine (by omega) [])]
  exact readStat_nil _ _

/-- What `data[0]` points to is an end of the line, and all pointers are to the buffer. -/
theorem readStat_end (oneLine : '\n' ∉ line) (clean : nul ∉ line) (pointers : ∀ p ∈ data, p = 0)
    (read : readStat (line ++ ['\n']) str data = .ok (str', data')) :
    (∃ k, cstring str' 0 = (line ++ ['\n']).drop k) ∧ ∀ p ∈ data', p = 0 := by
  induction length : line.length using Nat.strong_induction_on generalizing line str data with
  | _ n ih =>
    have whole : nul ∉ line ++ ['\n'] := by
      simp only [List.mem_append, List.mem_singleton, not_or]
      exact ⟨clean, by decide⟩
    have stored : ∀ data', storeToken 512 data 0 = .ok data' → ∀ p ∈ data', p = 0 := by
      intro data' stored p mem
      unfold storeToken at stored
      split at stored
      · obtain rfl := Except.ok.inj stored
        rcases List.mem_append.1 mem with before | new
        · exact pointers p before
        · exact List.mem_singleton.1 new
      · cases stored
    rcases Nat.lt_or_ge line.length 1023 with fits | long
    · rw [readStat_some (fgets_line oneLine (by omega) [])] at read
      obtain ⟨data, store, read⟩ := bind_eq_ok.1 read
      rw [readStat_nil] at read
      obtain ⟨rfl, rfl⟩ := Prod.mk.inj (Except.ok.inj read)
      exact ⟨⟨0, cstring_overwrite whole⟩, stored _ store⟩
    · have some : line ≠ [] := List.length_pos_iff.1 (by omega)
      rw [readStat_some (fgets_long some oneLine (by omega) ['\n'])] at read
      obtain ⟨data, store, read⟩ := bind_eq_ok.1 read
      have shape : (line ++ ['\n']).drop 1023 = line.drop 1023 ++ ['\n'] := List.drop_append_of_le_length long
      have shorter : (line.drop 1023).length < n := by
        rw [List.length_drop]
        omega
      rw [shape] at read
      obtain ⟨⟨k, last⟩, pointers'⟩ := ih _ shorter (fun mem => oneLine (List.mem_of_mem_drop mem))
        (fun mem => clean (List.mem_of_mem_drop mem)) (stored _ store) read rfl
      refine ⟨⟨1023 + k, ?_⟩, pointers'⟩
      rw [last, ← shape, List.drop_drop]

/-- Behind a line that does not fit, the buffer has lost its beginning. -/
theorem readStat_long (oneLine : '\n' ∉ line) (clean : nul ∉ line) (long : 1023 ≤ line.length)
    (read : readStat (line ++ ['\n']) [] [] = .ok (str, data)) :
    ∃ k, cstring str 0 = ((line ++ ['\n']).drop 1023).drop k := by
  have some : line ≠ [] := List.length_pos_iff.1 (by omega)
  rw [readStat_some (fgets_long some oneLine (by omega) ['\n'])] at read
  obtain ⟨data, store, read⟩ := bind_eq_ok.1 read
  obtain rfl := Except.ok.inj store
  have shape : (line ++ ['\n']).drop 1023 = line.drop 1023 ++ ['\n'] := List.drop_append_of_le_length long
  rw [shape] at read
  obtain ⟨⟨k, last⟩, -⟩ := readStat_end (fun mem => oneLine (List.mem_of_mem_drop mem))
    (fun mem => clean (List.mem_of_mem_drop mem)) (fun p mem => List.mem_singleton.1 mem) read
  exact ⟨k, by rw [last, shape]⟩

end Chunks

/-! ## The times -/

section Times

variable {ticks clkTck : Nat} {a F : Int}

/-- What `atoi` makes of the time. -/
theorem toInt_ticks (ticks : Nat) :
    toInt (min 9223372036854775807 (ticks : Int)) = ticks ∧ ticks < 2 ^ 31 ∨
      toInt (min 9223372036854775807 (ticks : Int)) ≤ ticks - 2 ^ 32 ∧ 2 ^ 31 ≤ ticks := by
  rcases Nat.lt_or_ge ticks (2 ^ 31) with small | large
  · left
    rw [toInt_eq (by omega) (by omega)]
    omega
  · right
    rw [toInt, Int.bmod_def]
    split <;> omega

/-- A clock that is faster than `int` counts no second. -/
theorem wholeSeconds_fast (fast : 2 ^ 31 < clkTck) : WholeSeconds ticks clkTck ↔ 2 * 10 ^ 6 * ticks ≤ clkTck := by
  constructor
  · rintro (short | ⟨small, short, -⟩)
    · exact short
    · rwa [Nat.mod_eq_of_lt (by omega)] at short
  · exact .inl

/-- A time that `int` does not hold is not printed. -/
theorem not_wholeSeconds (slow : clkTck ≤ 2 ^ 31) (large : 2 ^ 31 ≤ ticks) : ¬ WholeSeconds ticks clkTck := by
  rintro (short | ⟨small, -⟩)
  · omega
  · omega

/-- The time that is printed for one that `int` does not hold is far from it. -/
theorem far_of_large (slow : clkTck ≤ 2 ^ 31) (large : 2 ^ 31 ≤ ticks) (high : a < 2 ^ 31)
    (wrapped : a ≤ ticks - 2 ^ 32) (near : 2 * |F - a.tdiv clkTck| ≤ |a.tdiv clkTck|) (nonneg : 0 ≤ F) :
    (clkTck : Int) < 2 * 10 ^ 6 * |ticks - F * clkTck| := by
  have whole := Int.mul_tdiv_add_tmod a clkTck
  rw [Int.abs_eq_natAbs, Int.abs_eq_natAbs] at near
  rw [Int.abs_eq_natAbs]
  rcases lt_or_ge a 0 with negative | nonneg'
  · have sign : 0 ≤ (-a).tdiv clkTck := Int.tdiv_nonneg (by omega) (by omega)
    rw [Int.neg_tdiv] at sign
    obtain rfl : F = 0 := by omega
    rw [zero_mul]
    omega
  · have rest := Int.tmod_nonneg (clkTck : Int) nonneg'
    have sign : 0 ≤ a.tdiv clkTck := Int.tdiv_nonneg nonneg' (by omega)
    have atMost : 2 * F ≤ 3 * a.tdiv clkTck := by omega
    have product : 2 * F * clkTck ≤ 3 * a.tdiv clkTck * clkTck := mul_le_mul_of_nonneg_right atMost (by omega)
    rw [mul_assoc, mul_assoc, mul_comm (a.tdiv clkTck)] at product
    omega

/-- A quotient that is printed like an integer leaves no remainder, or it is next to the integer
above it. -/
theorem eq_or_eq_succ (positive : 0 < clkTck) {q : Nat} (close : 2 * 10 ^ 6 * |(ticks : Int) - q * clkTck| ≤ clkTck) :
    q = ticks / clkTck ∨ q = ticks / clkTck + 1 ∧ 2 * 10 ^ 6 ≤ clkTck := by
  have whole := Nat.div_add_mod ticks clkTck
  have rest := Nat.mod_lt ticks positive
  rw [Int.abs_eq_natAbs] at close
  rcases Nat.lt_trichotomy q (ticks / clkTck) with below | rfl | above
  · have product : (q + 1) * clkTck ≤ ticks / clkTck * clkTck := Nat.mul_le_mul_right _ below
    rw [Nat.add_mul, Nat.mul_comm (ticks / clkTck)] at product
    omega
  · exact .inl rfl
  · rcases Nat.eq_or_lt_of_le above with rfl | above
    · have product : (ticks / clkTck + 1) * clkTck = clkTck * (ticks / clkTck) + clkTck := by
        rw [Nat.add_mul, Nat.mul_comm (ticks / clkTck), Nat.one_mul]
      have product' : ((ticks / clkTck + 1 : Nat) : Int) * clkTck =
          ((clkTck * (ticks / clkTck) + clkTck : Nat) : Int) := by
        rw [← product, Nat.cast_mul]
      rw [product'] at close
      refine .inr ⟨rfl, ?_⟩
      omega
    · have product : (ticks / clkTck + 2) * clkTck ≤ q * clkTck := Nat.mul_le_mul_right _ above
      rw [Nat.add_mul, Nat.mul_comm (ticks / clkTck)] at product
      omega

/-- The quotient of a time that `int` holds. -/
theorem printed_iff (positive : 0 < clkTck) (small : ticks < 2 ^ 31)
    (round : single.round ((ticks / clkTck : Nat) : Rat) = .finite F) :
    0 ≤ F ∧ 2 * 10 ^ 6 * |(ticks : Int) - F * clkTck| ≤ clkTck ↔ WholeSeconds ticks clkTck := by
  have unique : single.round ((ticks / clkTck : Nat) : Rat) = .finite ((ticks / clkTck : Nat) : Rat) →
      F = (ticks / clkTck : Nat) := by
    intro held
    rw [round, ← Int.cast_natCast (R := Rat)] at held
    exact Int.cast_injective (FloatVal.finite.inj held)
  have exact : ticks / clkTck < 2 ^ 24 → F = (ticks / clkTck : Nat) := by
    intro below
    have magnitude : |((ticks / clkTck : Nat) : Int)| < 2 ^ single.precision := by
      rw [Nat.abs_cast]
      exact_mod_cast below
    have same := Format.round_intCast (f := single) (by decide) (by decide) magnitude
    rw [Int.cast_natCast] at same
    exact unique same
  have whole := Nat.div_add_mod ticks clkTck
  have remainder : (ticks : Int) - (ticks / clkTck : Nat) * clkTck = (ticks % clkTck : Nat) := by
    rw [← Nat.cast_mul, Nat.mul_comm]
    omega
  constructor
  · rintro ⟨nonneg, close⟩
    obtain ⟨q, rfl⟩ := Int.eq_ofNat_of_zero_le nonneg
    rcases eq_or_eq_succ positive close with rfl | ⟨rfl, fine⟩
    · refine .inr ⟨small, ?_, round⟩
      rw [remainder, Nat.abs_cast] at close
      exact_mod_cast close
    · have below : ticks / clkTck < 2 ^ 24 := by
        apply Nat.div_lt_of_lt_mul
        omega
      have same := exact below
      omega
  · rintro (short | ⟨-, short, held⟩)
    · have zero : ticks / clkTck = 0 := Nat.div_eq_of_lt (by omega)
      obtain rfl : F = 0 := by rw [exact (by omega), zero, Nat.cast_zero]
      rw [zero_mul, sub_zero, Nat.abs_cast]
      exact ⟨le_refl _, by exact_mod_cast short⟩
    · obtain rfl := unique held
      rw [remainder, Nat.abs_cast]
      exact ⟨Int.natCast_nonneg _, by exact_mod_cast short⟩

/-- **A time is printed as the exact quotient exactly if it is a whole number of seconds**. -/
theorem printTime_eq_iff (positive : 0 < clkTck) :
    printTime clkTck (Nat.toDigits 10 ticks) = fixed 6 (ticks / clkTck) ↔ WholeSeconds ticks clkTck := by
  have bounds := toInt_bounds (min 9223372036854775807 ticks)
  have cases := toInt_ticks ticks
  rw [printTime, strtol_toDigits]
  generalize toInt (min 9223372036854775807 ticks) = a at bounds cases
  have atMost : (a.tdiv clkTck).natAbs ≤ a.natAbs := Int.natAbs_tdiv_le_natAbs a clkTck
  obtain ⟨F, round, near⟩ : ∃ F : Int, single.round (a.tdiv clkTck : Int) = .finite F ∧
      2 * |F - a.tdiv clkTck| ≤ |a.tdiv clkTck| := by
    apply Format.round_integer (by decide) (by decide) (by decide)
    rw [Int.abs_eq_natAbs]
    have range : (2 : Int) ^ 33 ≤ 2 ^ single.maxExp := by decide
    omega
  rw [round, FloatVal.print, fixed_quotient_iff (by decide) positive]
  rcases Nat.lt_or_ge (2 ^ 31) clkTck with fast | slow
  · have zero : a.tdiv clkTck = 0 := by
      rw [← Int.natAbs_eq_zero, Int.natAbs_tdiv]
      exact Nat.div_eq_of_lt (by omega)
    rw [zero, sub_zero, abs_zero] at near
    obtain rfl : F = 0 := by
      rw [Int.abs_eq_natAbs] at near
      omega
    rw [wholeSeconds_fast fast, zero_mul, sub_zero, Nat.abs_cast]
    exact ⟨fun close => by exact_mod_cast close.2, fun short => ⟨le_refl _, by exact_mod_cast short⟩⟩
  rcases cases with ⟨rfl, small⟩ | ⟨wrapped, large⟩
  · exact printed_iff positive small (by exact_mod_cast round)
  · constructor
    · rintro ⟨nonneg, close⟩
      have far := far_of_large slow large (by omega) wrapped near nonneg
      omega
    · intro printed
      exact absurd printed (not_wholeSeconds slow large)

end Times

/-! ## The fields -/

namespace StatLine

variable (line : StatLine)

theorem length_fields : line.fields.length = 52 := by
  simp [fields, numeric, line.tenBeforeTimes, line.eightBeforeRss, line.behindRssLength]

theorem fields_utime : line.fields[13]? = some (Nat.toDigits 10 line.utime) := by
  simp [fields, numeric, line.tenBeforeTimes, printInt]

theorem fields_stime : line.fields[14]? = some (Nat.toDigits 10 line.stime) := by
  simp [fields, numeric, List.getElem?_append, line.tenBeforeTimes, printInt]

theorem fields_rsslim : line.fields[24]? = some (Nat.toDigits 10 line.rsslim) := by
  simp [fields, numeric, List.getElem?_append, line.tenBeforeTimes, line.eightBeforeRss, printInt]

/-- Behind the name there are letters, digits and signs only. -/
theorem plain {field : Text} (mem : field ∈ [line.state] :: line.numeric.map printInt) {c : Char} (inside : c ∈ field) :
    c = '-' ∨ c.isAlphanum = true := by
  rcases List.mem_cons.1 mem with rfl | mem
  · obtain rfl := List.mem_singleton.1 inside
    exact .inr (by rw [Char.isAlphanum, line.stateLetter, Bool.true_or])
  · obtain ⟨a, -, rfl⟩ := List.mem_map.1 mem
    rcases mem_printInt inside with minus | digit
    · exact .inl minus
    · exact .inr (by rw [Char.isAlphanum, digit, Bool.or_true])

theorem field_cases {field : Text} (mem : field ∈ line.fields) {c : Char} (inside : c ∈ field) :
    c ∈ line.name ∨ c = '-' ∨ c.isAlphanum = true := by
  rcases List.mem_cons.1 mem with rfl | mem
  · exact .inr (.inr (by rw [Char.isAlphanum, (digits_toDigits line.pid).2 c inside, Bool.or_true]))
  rcases List.mem_cons.1 mem with rfl | mem
  · exact .inl inside
  · exact .inr (line.plain mem inside)

theorem field_ne_nil {field : Text} (mem : field ∈ line.fields) : field ≠ [] := by
  rcases List.mem_cons.1 mem with rfl | mem
  · exact Nat.toDigits_ne_nil
  rcases List.mem_cons.1 mem with rfl | mem
  · exact List.cons_ne_nil _ _
  rcases List.mem_cons.1 mem with rfl | mem
  · exact List.cons_ne_nil _ _
  · obtain ⟨a, -, rfl⟩ := List.mem_map.1 mem
    exact printInt_ne_nil a

/-- A character that is in no field but the name, and not in the name, is in none. -/
theorem notMem_field {c : Char} (other : c ≠ '-' ∧ c.isAlphanum = false) (notName : c ∉ line.name) {field : Text}
    (mem : field ∈ line.fields) : c ∉ field := by
  intro inside
  rcases line.field_cases mem inside with name | minus | alphanum
  · exact notName name
  · exact other.1 minus
  · rw [other.2] at alphanum
    cases alphanum

theorem notMem_body {c : Char} (other : c ≠ ' ' ∧ c ≠ '-' ∧ c.isAlphanum = false) (notName : c ∉ line.name) :
    c ∉ [' '].intercalate line.fields := by
  intro inside
  rcases mem_intercalate inside with space | ⟨field, mem, inField⟩
  · exact other.1 space
  · exact line.notMem_field other.2 notName mem inField

theorem notMem_name {c : Char} (parentheses : c ≠ '(' ∧ c ≠ ')') (notComm : c ∉ line.comm) : c ∉ line.name := by
  simp [name, parentheses, notComm]

theorem oneLine : '\n' ∉ [' '].intercalate line.fields :=
  line.notMem_body (by decide) (line.notMem_name (by decide) line.commLine.1)

theorem clean : nul ∉ [' '].intercalate line.fields :=
  line.notMem_body (by decide) (line.notMem_name (by decide) line.commLine.2)

theorem text_clean : nul ∉ line.text := by
  simp only [text, List.mem_append, List.mem_singleton, not_or]
  exact ⟨line.clean, by decide⟩

/-- The tokens of the line, when the name is one. -/
theorem words_text (oneWord : ' ' ∉ line.comm) {i : Nat} (before : i < 51) :
    (words ' ' line.text)[i]? = line.fields[i]? := by
  apply words_intercalate (fun field mem => line.field_ne_nil mem)
  · intro field mem
    exact line.notMem_field (by decide) (line.notMem_name (by decide) oneWord) mem
  · rw [length_fields]
    omega

/-- Without its beginning, the line has no name among its further tokens. -/
theorem name_notMem_end (oneWord : ' ' ∉ line.comm) (k : Nat) :
    line.name ∉ (words ' ' ((line.text.drop 1023).drop k)).tail := by
  have digits := (Nat.length_toDigits_le_iff (k := 10) (by decide : 1 < 10) (by decide)).2
    (Nat.lt_trans line.pidSmall (by decide))
  have shape : line.text = (Nat.toDigits 10 line.pid ++ [' ']) ++ ([] ++ line.name ++
      ' ' :: ([' '].intercalate ([line.state] :: line.numeric.map printInt) ++ ['\n'])) := by
    simp [text, fields, List.intercalate_cons_cons]
  have behind : 1023 = (Nat.toDigits 10 line.pid ++ [' ']).length + (1022 - (Nat.toDigits 10 line.pid).length) := by
    rw [List.length_append, List.length_singleton]
    omega
  intro mem
  rw [List.drop_drop, shape, behind, Nat.add_assoc, List.drop_append, List.drop_eq_nil_of_le (Nat.le_add_right _ _),
    List.nil_append, Nat.add_sub_cancel_left] at mem
  have inRest := words_tail_drop mem
  have ne : line.name ≠ [] := List.cons_ne_nil _ _
  rw [words_more (by simp) ne (line.notMem_name (by decide) oneWord), List.tail_cons] at inRest
  have parenthesis := (subset_of_mem_words inRest).1 (List.mem_cons_self : '(' ∈ line.name)
  rcases List.mem_append.1 parenthesis with inside | newline
  · rcases mem_intercalate inside with space | ⟨field, mem, inField⟩
    · cases space
    · have plain := line.plain mem inField
      revert plain
      decide
  · cases List.mem_singleton.1 newline

end StatLine

/-! ## What is printed -/

section Output

variable {clkTck : Nat} {line : StatLine} {fp : Text} {out : StatOutput}

/-- **The output for a line that fits.** -/
theorem statData_fits (fits : line.text.length ≤ 1023) (oneWord : ' ' ∉ line.comm) :
    statData clkTck (some line.text) = .ok (some {
      comm := line.name
      state := [line.state]
      utime := printTime clkTck (Nat.toDigits 10 line.utime)
      stime := printTime clkTck (Nat.toDigits 10 line.stime)
      rss := Nat.toDigits 10 line.rsslim }) := by
  have short : ([' '].intercalate line.fields).length ≤ 1022 := by
    rw [StatLine.text, List.length_append, List.length_singleton] at fits
    omega
  have read : readStat line.text [] [] = .ok (overwrite [] line.text, [0]) := readStat_fits line.oneLine short
  have string : cstring (overwrite [] line.text) 0 = line.text := cstring_overwrite line.text_clean
  obtain ⟨tokens, buf, cut, stored⟩ := storeTokens_eq 800 ' ' (Nat.zero_le (overwrite [] line.text).length)
  have room : tokens.length ≤ 800 := by
    have count : tokens.length = (words ' ' line.text).length := by rw [← string, ← cut.texts, List.length_map]
    have few := length_words_le ' ' line.text
    omega
  rw [if_pos room] at stored
  have field : ∀ {i : Nat} {word : Text}, i < 51 → line.fields[i]? = some word →
      ∃ a, element (tokens.map Prod.fst) i = .ok a ∧ cstring buf a = word := by
    intro i word before found
    apply element_token cut
    rw [string, line.words_text oneWord before, found]
  obtain ⟨comm, readComm, commText⟩ := field (i := 1) (by decide) rfl
  obtain ⟨state, readState, stateText⟩ := field (i := 2) (by decide) rfl
  obtain ⟨utime, readUtime, utimeText⟩ := field (by decide) line.fields_utime
  obtain ⟨stime, readStime, stimeText⟩ := field (by decide) line.fields_stime
  obtain ⟨rss, readRss, rssText⟩ := field (by decide) line.fields_rsslim
  have first : element [0] 0 = .ok 0 := rfl
  simp only [statData, read, ok_bind, first, stored, readComm, readState, readUtime, readStime, readRss, commText,
    stateText, utimeText, stimeText, rssText]
  rfl

/-- What is printed as the name is the second token of the chunk. -/
theorem comm_of_ok {body : Text} (oneLine : '\n' ∉ body) (clean : nul ∉ body)
    (printed : statData clkTck (some (body ++ ['\n'])) = .ok (some out)) :
    ∃ str data, readStat (body ++ ['\n']) [] [] = .ok (str, data) ∧
      (words ' ' (cstring str 0))[1]? = some out.comm := by
  obtain ⟨⟨str, data⟩, read, printed⟩ := bind_eq_ok.1 printed
  obtain ⟨first, element0, printed⟩ := bind_eq_ok.1 printed
  obtain ⟨⟨statData, buf⟩, stored, printed⟩ := bind_eq_ok.1 printed
  obtain ⟨comm, element1, printed⟩ := bind_eq_ok.1 printed
  obtain ⟨state, -, printed⟩ := bind_eq_ok.1 printed
  obtain ⟨utime, -, printed⟩ := bind_eq_ok.1 printed
  obtain ⟨stime, -, printed⟩ := bind_eq_ok.1 printed
  obtain ⟨rss, -, printed⟩ := bind_eq_ok.1 printed
  obtain rfl := Option.some.inj (Except.ok.inj printed)
  have pointer : first = 0 :=
    (readStat_end oneLine clean (fun p mem => by cases mem) read).2 first (List.mem_of_getElem? (element_eq.1 element0))
  subst pointer
  obtain ⟨tokens, texts, -, rfl, strings⟩ := storeTokens_ok (Nat.zero_le str.length) stored
  refine ⟨str, data, read, ?_⟩
  have found := element_eq.1 element1
  rw [List.getElem?_map] at found
  obtain ⟨token, inside, rfl⟩ := Option.map_eq_some_iff.1 found
  rw [← texts, List.getElem?_map, inside, Option.map_some, strings token (List.mem_of_getElem? inside)]

/-- If the name is printed, the line fits and the name is one token. -/
theorem fits_of_name (printed : statData clkTck (some line.text) = .ok (some out)) (name : out.comm = line.name) :
    line.text.length ≤ 1023 ∧ ' ' ∉ line.comm := by
  obtain ⟨str, data, read, second⟩ := comm_of_ok line.oneLine line.clean printed
  rw [name] at second
  have oneWord : ' ' ∉ line.comm := by
    have noSpace := (subset_of_mem_words (List.mem_of_getElem? second)).2
    exact fun mem => noSpace (List.mem_cons_of_mem _ (List.mem_append_left _ mem))
  refine ⟨?_, oneWord⟩
  by_contra long
  have long' : 1023 ≤ ([' '].intercalate line.fields).length := by
    rw [StatLine.text, List.length_append, List.length_singleton] at long
    omega
  obtain ⟨k, last⟩ := readStat_long line.oneLine line.clean long' read
  apply line.name_notMem_end oneWord k
  rw [StatLine.text, ← last]
  apply List.mem_of_getElem? (i := 0)
  rw [List.getElem?_tail, second]

/-- **The fields are printed under their names exactly for the reportable lines**. -/
theorem statData_reports_iff (line : StatLine) (positive : 0 < clkTck) :
    statData clkTck (some line.text) = .ok (some (line.report clkTck)) ↔ line.Reportable clkTck := by
  have spec : line.text.length ≤ 1023 → ' ' ∉ line.comm →
      (statData clkTck (some line.text) = .ok (some (line.report clkTck)) ↔
        line.rss = line.rsslim ∧ WholeSeconds line.utime clkTck ∧ WholeSeconds line.stime clkTck) := by
    intro fits oneWord
    rw [statData_fits fits oneWord, ← printTime_eq_iff positive, ← printTime_eq_iff positive]
    simp only [StatLine.report, Except.ok.injEq, Option.some.injEq, StatOutput.mk.injEq, true_and]
    constructor
    · rintro ⟨utime, stime, rss⟩
      exact ⟨(printInt_injective (a := (line.rsslim : Int)) rss).symm, utime, stime⟩
    · rintro ⟨rss, utime, stime⟩
      rw [rss]
      exact ⟨utime, stime, rfl⟩
  constructor
  · intro printed
    obtain ⟨fits, oneWord⟩ := fits_of_name printed rfl
    obtain ⟨rss, utime, stime⟩ := (spec fits oneWord).1 printed
    exact ⟨fits, oneWord, rss, utime, stime⟩
  · rintro ⟨fits, oneWord, rss, utime, stime⟩
    exact (spec fits oneWord).2 ⟨rss, utime, stime⟩

/-- The line of a process that has just been started. -/
def started (comm : Text) (oneLine : '\n' ∉ comm ∧ nul ∉ comm) (rss : Int) (rsslim : Nat) : StatLine where
  pid := 41
  comm := comm
  state := 'S'
  beforeTimes := [1, 41, 1, 34816, 41, 4194304, 95, 0, 0, 0]
  utime := 0
  stime := 0
  beforeRss := [0, 0, 20, 0, 1, 0, 76421, 5595136]
  rss := rss
  rsslim := rsslim
  behindRss := List.replicate 27 0
  pidSmall := by decide
  commLine := oneLine
  stateLetter := by decide
  tenBeforeTimes := rfl
  eightBeforeRss := rfl
  behindRssLength := rfl

theorem statData_reports_started :
    statData 100 (some (started "sleep".toList (by decide) 0 0).text) =
      .ok (some ((started "sleep".toList (by decide) 0 0).report 100)) :=
  (statData_reports_iff _ (by decide)).2 ⟨by decide +kernel, by decide, rfl, .inl (by decide), .inl (by decide)⟩

/-- The limit of the resident set is printed for its size. -/
theorem limit_printed :
    ¬ ∀ (line : StatLine) (clkTck : Nat), 0 < clkTck →
      statData clkTck (some line.text) = .ok (some (line.report clkTck)) := by
  intro claim
  have printed := claim (started "sleep".toList (by decide) 173 4096) 100 (by decide)
  rw [statData_fits (by decide +kernel) (by decide)] at printed
  have rss := congrArg StatOutput.rss (Option.some.inj (Except.ok.inj printed))
  revert rss
  decide

end Output

end CSC360.PMan
