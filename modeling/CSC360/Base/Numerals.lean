import Mathlib.Algebra.Group.Int.Defs
import Mathlib.Algebra.Group.Nat.Defs
import Mathlib.Data.List.TakeWhile

/-!
# Decimal numerals in C

`strtol` with base 10, for a 64-bit `long`, and the conversion of its result to a
32-bit `int`. A numeral is the list of its digits, as `Nat.toDigits 10` gives it;
`strtol` undoes this up to the bounds of `long`, whatever follows the numeral
(`strtol_digits`); of any text it reads the number it begins with
(`strtol_leadingNumber`).
-/

namespace CSC360.Base

/-- `isspace` of the C locale. -/
def isSpace (c : Char) : Bool := c.toNat = 32 || (9 ≤ c.toNat && c.toNat ≤ 13)

/-- The value of a run of digits. -/
def decimal (digits : List Char) : Int := digits.foldl (fun n c => 10 * n + (c.toNat - 48)) 0

/-- `strtol(s, NULL, 10)` for a 64-bit `long`, which saturates. -/
def strtol (s : List Char) : Int :=
  let value := match s.dropWhile isSpace with
    | '-' :: rest => - decimal (rest.takeWhile Char.isDigit)
    | '+' :: rest => decimal (rest.takeWhile Char.isDigit)
    | rest => decimal (rest.takeWhile Char.isDigit)
  max (-9223372036854775808) (min 9223372036854775807 value)

/-- The conversion of a `long` to `int`. -/
def toInt (value : Int) : Int := value.bmod 4294967296

theorem toInt_eq {value : Int} (low : -2147483648 ≤ value) (high : value < 2147483648) : toInt value = value :=
  Int.bmod_eq_of_le low high

theorem toInt_bounds (value : Int) : -2147483648 ≤ toInt value ∧ toInt value < 2147483648 :=
  ⟨Int.le_bmod (by decide), Int.bmod_lt (by decide)⟩

variable {digits rest : List Char} {c : Char}

/-- The characters of a decimal numeral. -/
def Digits (digits : List Char) : Prop := digits ≠ [] ∧ ∀ c ∈ digits, c.isDigit = true

theorem digits_toDigits (n : Nat) : Digits (Nat.toDigits 10 n) :=
  ⟨Nat.toDigits_ne_nil, fun _ mem => Nat.isDigit_of_mem_toDigits (by decide) (by decide) mem⟩

theorem isDigit_toNat (digit : c.isDigit = true) : 48 ≤ c.toNat ∧ c.toNat ≤ 57 := by
  rw [Char.isDigit, Bool.and_eq_true, decide_eq_true_eq, decide_eq_true_eq] at digit
  exact digit

theorem not_isSpace_of_isDigit (digit : c.isDigit = true) : isSpace c = false := by
  have bounds := isDigit_toNat digit
  simp only [isSpace, Bool.or_eq_false_iff, Bool.and_eq_false_iff, decide_eq_false_iff_not]
  omega

theorem decimal_eq_ofDigitChars (digit : ∀ c ∈ digits, c.isDigit = true) :
    decimal digits = Nat.ofDigitChars 10 digits 0 := by
  have general : ∀ init : Nat, digits.foldl (fun (n : Int) c => 10 * n + (c.toNat - 48)) init =
      Nat.ofDigitChars 10 digits init := by
    induction digits with
    | nil => exact fun init => rfl
    | cons c digits ih =>
      intro init
      have bounds := isDigit_toNat (digit c List.mem_cons_self)
      have step : (10 * (init : Int) + ((c.toNat : Int) - 48)) = ((10 * init + (c.toNat - 48) : Nat) : Int) := by omega
      rw [List.foldl_cons, Nat.ofDigitChars_cons, step]
      exact ih (fun d mem => digit d (List.mem_cons_of_mem c mem)) _
  exact general 0

theorem decimal_nonneg (digit : ∀ c ∈ digits, c.isDigit = true) : 0 ≤ decimal digits := by
  rw [decimal_eq_ofDigitChars digit]
  exact Int.natCast_nonneg _

@[simp] theorem decimal_toDigits (n : Nat) : decimal (Nat.toDigits 10 n) = n := by
  rw [decimal_eq_ofDigitChars (digits_toDigits n).2, Nat.ofDigitChars_ten_toDigits]

theorem takeWhile_digits (digit : ∀ c ∈ digits, c.isDigit = true) (stop : ∀ c ∈ rest.head?, c.isDigit = false) :
    (digits ++ rest).takeWhile Char.isDigit = digits := by
  rw [List.takeWhile_append_of_pos digit]
  cases rest with
  | nil => rw [List.takeWhile_nil, List.append_nil]
  | cons c rest => rw [List.takeWhile_cons_of_neg (by simp [stop c rfl]), List.append_nil]

/-- A text that does not begin with a sign is not taken for one that does. -/
theorem match_unsigned (α : Type) {s : List Char} :
    (∀ c ∈ s.head?, c ≠ '-' ∧ c ≠ '+') → ∀ minus plus unsigned : List Char → α,
      (match s with
        | '-' :: rest => minus rest
        | '+' :: rest => plus rest
        | rest => unsigned rest) = unsigned s := by
  intro start minus plus unsigned
  split
  · exact absurd rfl (start '-' rfl).1
  · exact absurd rfl (start '+' rfl).2
  · rfl

/-- What a text begins with: white space, a sign or none, and digits, if there are any. -/
inductive LeadingNumber : List Char → Int → Prop
  | unsigned {spaces digits rest : List Char} (space : ∀ c ∈ spaces, isSpace c = true)
      (digit : ∀ c ∈ digits, c.isDigit = true) (stop : ∀ c ∈ rest.head?, c.isDigit = false)
      (start : ∀ c ∈ (digits ++ rest).head?, isSpace c = false ∧ c ≠ '-' ∧ c ≠ '+') :
      LeadingNumber (spaces ++ (digits ++ rest)) (decimal digits)
  | minus {spaces digits rest : List Char} (space : ∀ c ∈ spaces, isSpace c = true)
      (digit : ∀ c ∈ digits, c.isDigit = true) (stop : ∀ c ∈ rest.head?, c.isDigit = false) :
      LeadingNumber (spaces ++ '-' :: (digits ++ rest)) (- decimal digits)
  | plus {spaces digits rest : List Char} (space : ∀ c ∈ spaces, isSpace c = true)
      (digit : ∀ c ∈ digits, c.isDigit = true) (stop : ∀ c ∈ rest.head?, c.isDigit = false) :
      LeadingNumber (spaces ++ '+' :: (digits ++ rest)) (decimal digits)

/-- Every text begins with a number in this sense. -/
theorem exists_leadingNumber (s : List Char) : ∃ value, LeadingNumber s value := by
  have skip := List.takeWhile_append_dropWhile (p := isSpace) (l := s)
  have space : ∀ c ∈ s.takeWhile isSpace, isSpace c = true := fun c mem => List.mem_takeWhile_imp mem
  have start := List.head?_dropWhile_not isSpace s
  generalize s.takeWhile isSpace = spaces at skip space
  generalize s.dropWhile isSpace = text at skip start
  obtain rfl := skip
  have digits : ∀ t : List Char, ∃ digits rest, t = digits ++ rest ∧ (∀ c ∈ digits, c.isDigit = true) ∧
      ∀ c ∈ rest.head?, c.isDigit = false := by
    intro t
    refine ⟨_, _, (List.takeWhile_append_dropWhile (p := Char.isDigit)).symm,
      fun c mem => List.mem_takeWhile_imp mem, ?_⟩
    intro c head
    have stop := List.head?_dropWhile_not Char.isDigit t
    rw [Option.mem_def.1 head] at stop
    simpa using stop
  by_cases minus : ∃ t, text = '-' :: t
  · obtain ⟨t, rfl⟩ := minus
    obtain ⟨_, _, rfl, digit, stop⟩ := digits t
    exact ⟨_, .minus space digit stop⟩
  by_cases plus : ∃ t, text = '+' :: t
  · obtain ⟨t, rfl⟩ := plus
    obtain ⟨_, _, rfl, digit, stop⟩ := digits t
    exact ⟨_, .plus space digit stop⟩
  obtain ⟨_, _, rfl, digit, stop⟩ := digits text
  refine ⟨_, .unsigned space digit stop fun c head => ⟨?_, ?_, ?_⟩⟩
  · rw [Option.mem_def.1 head] at start
    simpa using start
  · rintro rfl
    exact minus (List.head?_eq_some_iff.1 head)
  · rintro rfl
    exact plus (List.head?_eq_some_iff.1 head)

/-- **`strtol` reads the number a text begins with**, up to the bounds of `long`. -/
theorem strtol_leadingNumber {s : List Char} {value : Int} (leading : LeadingNumber s value) :
    strtol s = max (-9223372036854775808) (min 9223372036854775807 value) := by
  cases leading with
  | @unsigned spaces digits rest space digit stop start =>
    have skip : (spaces ++ (digits ++ rest)).dropWhile isSpace = digits ++ rest := by
      rw [List.dropWhile_append_of_pos space]
      cases found : digits ++ rest with
      | nil => rfl
      | cons c t =>
        rw [found] at start
        rw [List.dropWhile_cons_of_neg (by simp [(start c rfl).1])]
    have unsigned := match_unsigned Int fun c head => (start c head).2
    simp only [strtol, skip, unsigned, takeWhile_digits digit stop]
  | @minus spaces digits rest space digit stop =>
    have skip : (spaces ++ '-' :: (digits ++ rest)).dropWhile isSpace = '-' :: (digits ++ rest) := by
      rw [List.dropWhile_append_of_pos space, List.dropWhile_cons_of_neg (by decide)]
    simp only [strtol, skip, takeWhile_digits digit stop]
  | @plus spaces digits rest space digit stop =>
    have skip : (spaces ++ '+' :: (digits ++ rest)).dropWhile isSpace = '+' :: (digits ++ rest) := by
      rw [List.dropWhile_append_of_pos space, List.dropWhile_cons_of_neg (by decide)]
    simp only [strtol, skip, takeWhile_digits digit stop]

theorem Digits.leadingNumber (digits_ : Digits digits) (stop : ∀ c ∈ rest.head?, c.isDigit = false) :
    LeadingNumber (digits ++ rest) (decimal digits) := by
  have leading : LeadingNumber ([] ++ (digits ++ rest)) (decimal digits) := by
    refine .unsigned (by simp) digits_.2 stop fun c head => ?_
    have digit : c.isDigit = true := by
      obtain ⟨ne, digit⟩ := digits_
      cases digits with
      | nil => exact absurd rfl ne
      | cons d digits =>
        obtain rfl := Option.some.inj head
        exact digit d List.mem_cons_self
    refine ⟨not_isSpace_of_isDigit digit, ?_, ?_⟩
    · rintro rfl
      cases digit
    · rintro rfl
      cases digit
  exact leading

/-- **`strtol` reads a numeral back**, whatever comes behind its last digit. -/
theorem strtol_digits (digits_ : Digits digits) (stop : ∀ c ∈ rest.head?, c.isDigit = false) :
    strtol (digits ++ rest) = min 9223372036854775807 (decimal digits) := by
  have nonneg := decimal_nonneg digits_.2
  rw [strtol_leadingNumber (digits_.leadingNumber stop)]
  omega

theorem strtol_toDigits (n : Nat) : strtol (Nat.toDigits 10 n) = min 9223372036854775807 (n : Int) := by
  have read : strtol (Nat.toDigits 10 n ++ []) = _ := strtol_digits (digits_toDigits n) (by simp)
  rw [List.append_nil, decimal_toDigits] at read
  exact read

/-- The text is a decimal numeral of the value, with a sign or without. -/
inductive Numeral : List Char → Int → Prop
  | unsigned {digits : List Char} (digits_ : Digits digits) : Numeral digits (decimal digits)
  | plus {digits : List Char} (digits_ : Digits digits) : Numeral ('+' :: digits) (decimal digits)
  | minus {digits : List Char} (digits_ : Digits digits) : Numeral ('-' :: digits) (- decimal digits)

theorem Numeral.leadingNumber {s : List Char} {value : Int} (numeral : Numeral s value) : LeadingNumber s value := by
  cases numeral with
  | unsigned digits_ =>
    have leading : LeadingNumber (s ++ []) (decimal s) := digits_.leadingNumber (by simp)
    rwa [List.append_nil] at leading
  | @plus digits digits_ =>
    have leading : LeadingNumber ([] ++ '+' :: (digits ++ [])) (decimal digits) :=
      .plus (by simp) digits_.2 (by simp)
    rwa [List.append_nil] at leading
  | @minus digits digits_ =>
    have leading : LeadingNumber ([] ++ '-' :: (digits ++ [])) (- decimal digits) :=
      .minus (by simp) digits_.2 (by simp)
    rwa [List.append_nil] at leading

theorem notMem_toDigits (other : c.isDigit = false) (n : Nat) : c ∉ Nat.toDigits 10 n := fun mem => by
  rw [(digits_toDigits n).2 c mem] at other
  cases other

theorem ofDigitChars_lt (digit : ∀ c ∈ digits, c.isDigit = true) :
    Nat.ofDigitChars 10 digits 0 < 10 ^ digits.length := by
  induction digits with
  | nil => simp
  | cons c digits ih =>
    have bounds := isDigit_toNat (digit c List.mem_cons_self)
    have rest := ih fun d mem => digit d (List.mem_cons_of_mem c mem)
    have value : Nat.ofDigitChars 10 (c :: digits) 0 =
        10 ^ digits.length * (c.toNat - 48) + Nat.ofDigitChars 10 digits 0 := by
      rw [Nat.ofDigitChars_cons, Nat.ofDigitChars_eq_ofDigitChars_zero]
      simp
    have most : 10 ^ digits.length * (c.toNat - 48) ≤ 10 ^ digits.length * 9 := Nat.mul_le_mul_left _ (by omega)
    rw [value, List.length_cons, Nat.pow_succ]
    omega

/-- The first digits of a longer numeral: its first one is not 0. -/
theorem pow_le_decimal_take {n k : Nat} (positive : 0 < k) (long : k + 1 ≤ (Nat.toDigits 10 n).length) :
    10 ^ k ≤ Nat.ofDigitChars 10 ((Nat.toDigits 10 n).take (k + 1)) 0 := by
  obtain ⟨d, length⟩ := Nat.exists_eq_add_of_le long
  have whole := Nat.ofDigitChars_append (b := 10) (l := (Nat.toDigits 10 n).take (k + 1))
    (m := (Nat.toDigits 10 n).drop (k + 1)) 0
  rw [List.take_append_drop, Nat.ofDigitChars_ten_toDigits, Nat.ofDigitChars_eq_ofDigitChars_zero,
    List.length_drop, length, Nat.add_sub_cancel_left] at whole
  have tail := ofDigitChars_lt fun c mem => (digits_toDigits n).2 c (List.mem_of_mem_drop (i := k + 1) mem)
  rw [List.length_drop, length, Nat.add_sub_cancel_left] at tail
  have large : 10 ^ (d + k) ≤ n := by
    apply Nat.le_of_not_lt
    rw [← Nat.length_toDigits_le_iff (by decide) (by omega)]
    omega
  generalize Nat.ofDigitChars 10 ((Nat.toDigits 10 n).take (k + 1)) 0 = v at whole ⊢
  have split : 10 ^ d * 10 ^ k < 10 ^ d * (v + 1) := by
    rw [← Nat.pow_add, Nat.mul_succ]
    omega
  exact Nat.le_of_lt_succ (Nat.lt_of_mul_lt_mul_left split)

end CSC360.Base
