import CSC360.Base.Numerals
import Mathlib.Data.Int.Log
import Mathlib.Data.Rat.Floor
import Mathlib.Algebra.Order.Field.Power

/-!
# Binary floating-point numbers

Values of the C types `float` and `double` as exact rationals, rounded to the nearest value
of the format, ties to even; `atof` of the C library with that rounding. **An integer
below 2 to the precision is a value of the format**, so reading a numeral of such an
integer and converting it to `float` is exact.
-/

namespace CSC360.Base

/-- A value of a floating-point type; the two zeros are not told apart. -/
inductive FloatVal
  | finite (value : Rat)
  | infinite (negative : Bool)
  | nan
  deriving DecidableEq

/-- The bits of a significand, the exponent of the least positive value, and the exponent at
which the finite values end. -/
structure Format where
  precision : Nat
  minExp : Int
  maxExp : Nat

/-- `float` -/
def single : Format := ⟨24, -149, 128⟩

/-- `double` -/
def double : Format := ⟨53, -1074, 1024⟩

/-- The nearest integer, of two the even one. -/
def roundEven (x : Rat) : Int :=
  let below := ⌊x⌋
  if x - below < 1 / 2 then below
  else if 1 / 2 < x - below then below + 1
  else if below % 2 = 0 then below
  else below + 1

/-- The weight of the last bit of a significand for the number. -/
def Format.unit (f : Format) (x : Rat) : Rat := 2 ^ max f.minExp (Int.log 2 |x| - (f.precision - 1))

/-- The value of the format that is nearest to the number. -/
def Format.round (f : Format) (x : Rat) : FloatVal :=
  let value := roundEven (x / f.unit x) * f.unit x
  if |value| < 2 ^ f.maxExp then .finite value else .infinite (x < 0)

/-- The conversion of a `double` to `float`. -/
def FloatVal.toFloat : FloatVal → FloatVal
  | .finite value => single.round value
  | other => other

theorem roundEven_intCast (k : Int) : roundEven k = k := by
  have half : (0 : Rat) < 1 / 2 := by norm_num
  simp only [roundEven, Int.floor_intCast, sub_self, half, if_pos]

theorem roundEven_near (x : Rat) : |roundEven x - x| ≤ 1 / 2 := by
  have below := Int.floor_le x
  have above := Int.lt_floor_add_one x
  unfold roundEven
  dsimp only
  split
  · rw [abs_le]
    constructor <;> linarith
  split
  · rw [abs_le]
    push_cast
    constructor <;> linarith
  · have tie : x - ⌊x⌋ = 1 / 2 := by linarith
    split
    · rw [abs_le]
      constructor <;> linarith
    · rw [abs_le]
      push_cast
      constructor <;> linarith

/-- An even integer is the nearest one of all numbers up to a half away. -/
theorem roundEven_eq_iff {m : Int} (even : m % 2 = 0) {x : Rat} : roundEven x = m ↔ |x - m| ≤ 1 / 2 := by
  constructor
  · rintro rfl
    rw [abs_sub_comm]
    exact roundEven_near x
  · intro near
    obtain ⟨low, high⟩ := abs_le.1 near
    rcases lt_or_ge x m with below | above
    · have floor : ⌊x⌋ = m - 1 := by
        rw [Int.floor_eq_iff]
        push_cast
        constructor <;> linarith
      have odd : ¬ (m - 1) % 2 = 0 := by omega
      have half : ¬ x - ((m - 1 : Int) : Rat) < 1 / 2 := by
        push_cast
        linarith
      simp only [roundEven, floor, half, if_false, odd, Int.sub_add_cancel, ite_self]
    · have floor : ⌊x⌋ = m := by
        rw [Int.floor_eq_iff]
        constructor <;> linarith
      have half : ¬ 1 / 2 < x - m := by linarith
      simp only [roundEven, floor, half, if_false, even, if_true, ite_self]

theorem Format.unit_eq (f : Format) (k : Int) :
    f.unit k = 2 ^ max f.minExp ((Nat.log 2 k.natAbs : Int) - (f.precision - 1)) := by
  rw [Format.unit, ← Int.cast_abs, ← Nat.cast_natAbs, Int.log_natCast]

/-- The last bit of an integer of the precision weighs 1 or less. -/
theorem Format.unit_intCast {f : Format} (fractions : f.minExp ≤ 0) {k : Int} (ne : k ≠ 0)
    (small : |k| < 2 ^ f.precision) : ∃ n : Nat, f.unit k = (2 ^ n : Rat)⁻¹ := by
  have below : Nat.log 2 k.natAbs < f.precision := by
    apply Nat.log_lt_of_lt_pow (Int.natAbs_ne_zero.2 ne)
    rw [Int.abs_eq_natAbs] at small
    exact_mod_cast small
  obtain ⟨n, exponent⟩ : ∃ n : Nat, max f.minExp ((Nat.log 2 k.natAbs : Int) - (f.precision - 1)) = -n :=
    ⟨(-max f.minExp ((Nat.log 2 k.natAbs : Int) - (f.precision - 1))).toNat, by omega⟩
  exact ⟨n, by rw [Format.unit_eq, exponent, zpow_neg, zpow_natCast]⟩

/-- **Integers of the precision are values of the format.** -/
theorem Format.round_intCast {f : Format} (fractions : f.minExp ≤ 0) (range : f.precision ≤ f.maxExp) {k : Int}
    (small : |k| < 2 ^ f.precision) : f.round k = .finite k := by
  have exact : roundEven (k / f.unit k) * f.unit k = (k : Rat) := by
    rcases eq_or_ne k 0 with rfl | ne
    · have zero := roundEven_intCast 0
      rw [Int.cast_zero] at zero
      rw [Int.cast_zero, zero_div, zero, Int.cast_zero, zero_mul]
    · obtain ⟨n, unit⟩ := Format.unit_intCast fractions ne small
      have scaled : (k : Rat) / (2 ^ n)⁻¹ = ((k * 2 ^ n : Int) : Rat) := by push_cast; exact div_inv_eq_mul _ _
      rw [unit, scaled, roundEven_intCast, ← scaled, div_mul_cancel₀]
      positivity
  have inRange : |(k : Rat)| < 2 ^ f.maxExp := by
    calc |(k : Rat)| = ((|k| : Int) : Rat) := (Int.cast_abs).symm
      _ < ((2 ^ f.precision : Int) : Rat) := Int.cast_lt.2 small
      _ = 2 ^ f.precision := by push_cast; rfl
      _ ≤ 2 ^ f.maxExp := pow_le_pow_right₀ (by norm_num) range
  simp only [Format.round, exact, inRange, if_pos]

/-- The last bit of a larger integer weighs a power of two that is at most as large. -/
theorem Format.unit_large {f : Format} (fractions : f.minExp ≤ 0) (bits : 1 ≤ f.precision) {k : Int}
    (large : 2 ^ f.precision ≤ |k|) : ∃ n : Nat, f.unit k = 2 ^ n ∧ (2 ^ n : Int) ≤ |k| := by
  rw [Int.abs_eq_natAbs] at large ⊢
  have large' : 2 ^ f.precision ≤ k.natAbs := by exact_mod_cast large
  have ne : k.natAbs ≠ 0 := by
    have positive := Nat.two_pow_pos f.precision
    omega
  have above : f.precision ≤ Nat.log 2 k.natAbs := Nat.le_log_of_pow_le (by decide) large'
  have exponent : max f.minExp ((Nat.log 2 k.natAbs : Int) - (f.precision - 1)) =
      ((Nat.log 2 k.natAbs - (f.precision - 1) : Nat) : Int) := by omega
  refine ⟨Nat.log 2 k.natAbs - (f.precision - 1), ?_, ?_⟩
  · rw [Format.unit_eq, exponent, zpow_natCast]
  · have below : 2 ^ (Nat.log 2 k.natAbs - (f.precision - 1)) ≤ k.natAbs :=
      Nat.le_trans (Nat.pow_le_pow_right (by decide) (Nat.sub_le _ _)) (Nat.pow_log_le_self 2 ne)
    exact_mod_cast below

/-- **An integer is rounded to an integer**, by at most half of its own magnitude. -/
theorem Format.round_integer {f : Format} (fractions : f.minExp ≤ 0) (bits : 1 ≤ f.precision)
    (range : f.precision ≤ f.maxExp) {k : Int} (inRange : 2 * |k| < 2 ^ f.maxExp) :
    ∃ F : Int, f.round k = .finite F ∧ 2 * |F - k| ≤ |k| := by
  rcases lt_or_ge |k| (2 ^ f.precision) with small | large
  · refine ⟨k, Format.round_intCast fractions range small, ?_⟩
    rw [sub_self, abs_zero, mul_zero]
    exact abs_nonneg k
  · obtain ⟨n, unit, below⟩ := Format.unit_large fractions bits large
    have near := roundEven_near (k / 2 ^ n)
    have positive : (0 : Rat) < 2 ^ n := by positivity
    generalize q_eq : roundEven ((k : Rat) / 2 ^ n) = q at near
    have close : 2 * |q * 2 ^ n - k| ≤ (2 ^ n : Int) := by
      have scaled : |(q : Rat) * 2 ^ n - k| = |(q : Rat) - k / 2 ^ n| * 2 ^ n := by
        rw [← abs_of_pos positive, ← abs_mul, abs_of_pos positive, sub_mul, div_mul_cancel₀ _ positive.ne']
      have rational : 2 * |(q : Rat) * 2 ^ n - k| ≤ 2 ^ n := by
        rw [scaled]
        linarith [mul_le_mul_of_nonneg_right near positive.le]
      exact_mod_cast rational
    have close' := close.trans below
    refine ⟨q * 2 ^ n, ?_, close'⟩
    have bounded : |q * 2 ^ n| < 2 ^ f.maxExp := by
      have triangle := abs_add_le (q * 2 ^ n - k) k
      have nonneg := abs_nonneg k
      rw [sub_add_cancel] at triangle
      omega
    have bounded' : |(q : Rat) * 2 ^ n| < 2 ^ f.maxExp := by exact_mod_cast bounded
    rw [Format.round, unit, q_eq, if_pos bounded']
    push_cast
    rfl

/-! ## `atof` -/

def isHexDigit (c : Char) : Bool := c.isDigit || ('a' ≤ c.toLower && c.toLower ≤ 'f')

def digitVal (c : Char) : Nat := if c.isDigit then c.toNat - 48 else c.toLower.toNat - 87

/-- The value of the digits with a point among them or without, and what follows. -/
def significand (base : Nat) (digit : Char → Bool) (s : List Char) : Rat × List Char :=
  let whole := s.takeWhile digit
  let behind := match s.dropWhile digit with
    | '.' :: s => (s.takeWhile digit, s.dropWhile digit)
    | s => ([], s)
  let value := (whole ++ behind.1).foldl (fun n c => base * n + digitVal c) 0
  (value / base ^ behind.1.length, behind.2)

/-- The exponent behind its mark. -/
def exponent (mark : Char) : List Char → Int
  | [] => 0
  | c :: s =>
    if c.toLower = mark then
      match s with
      | '-' :: s => - decimal (s.takeWhile Char.isDigit)
      | '+' :: s => decimal (s.takeWhile Char.isDigit)
      | s => decimal (s.takeWhile Char.isDigit)
    else 0

/-- A number without its sign: an infinity, not a number, hexadecimal or decimal. -/
def magnitude (s : List Char) : FloatVal :=
  let lower := s.map Char.toLower
  if ['i', 'n', 'f'].isPrefixOf lower then .infinite false
  else if ['n', 'a', 'n'].isPrefixOf lower then .nan
  else if ['0', 'x'].isPrefixOf lower then
    let number := significand 16 isHexDigit (s.drop 2)
    .finite (number.1 * 2 ^ exponent 'p' number.2)
  else
    let number := significand 10 Char.isDigit s
    .finite (number.1 * 10 ^ exponent 'e' number.2)

def FloatVal.neg : FloatVal → FloatVal
  | .finite value => .finite (-value)
  | .infinite negative => .infinite (!negative)
  | .nan => .nan

/-- `atof(s)` -/
def atof (s : List Char) : FloatVal :=
  let exact := match s.dropWhile isSpace with
    | '-' :: s => (magnitude s).neg
    | '+' :: s => magnitude s
    | s => magnitude s
  match exact with
  | .finite value => double.round value
  | other => other

section Digits

variable {digits rest : List Char} {c : Char}

theorem digitVal_foldl (digit : ∀ c ∈ digits, c.isDigit = true) :
    digits.foldl (fun n c => 10 * n + digitVal c) 0 = Nat.ofDigitChars 10 digits 0 := by
  rw [Nat.ofDigitChars]
  apply List.foldl_ext
  intro n c mem
  rw [digitVal, if_pos (digit c mem)]
  rfl

theorem not_isDigit_of_isSpace (space : isSpace c = true) : c.isDigit = false := by
  rw [← Bool.not_eq_true]
  intro digit
  rw [not_isSpace_of_isDigit digit] at space
  cases space

theorem lt_of_isSpace (space : isSpace c = true) : c.toNat < 65 := by
  simp only [isSpace, Bool.or_eq_true, Bool.and_eq_true, decide_eq_true_eq] at space
  omega

/-- Digits and spaces come before all letters. -/
theorem toLower_ne (low : c.toNat < 65) {l : Char} (high : 65 ≤ l.toNat) : c.toLower ≠ l := by
  have same : c.toLower = c := by
    apply dif_neg
    rintro ⟨upper, -⟩
    exact absurd (UInt32.le_iff_toNat_le.1 upper) (Nat.not_le.2 low)
  rw [same]
  rintro rfl
  omega

/-- A numeral before a space or the end has no point and no exponent. -/
theorem significand_digits (digit : ∀ c ∈ digits, c.isDigit = true) (stop : ∀ c ∈ rest.head?, isSpace c = true) :
    significand 10 Char.isDigit (digits ++ rest) = ((decimal digits : Rat), rest) := by
  have ends : ∀ c ∈ rest.head?, c.isDigit = false := fun c head => not_isDigit_of_isSpace (stop c head)
  have behind : (digits ++ rest).dropWhile Char.isDigit = rest := by
    rw [List.dropWhile_append_of_pos digit]
    cases rest with
    | nil => rfl
    | cons c rest => rw [List.dropWhile_cons_of_neg (by simp [ends c rfl])]
  have noPoint : (match rest with
      | '.' :: s => (s.takeWhile Char.isDigit, s.dropWhile Char.isDigit)
      | s => ([], s)) = ([], rest) := by
    split
    · have point := stop '.' rfl
      cases point
    · rfl
  simp only [significand, takeWhile_digits digit ends, behind, noPoint, List.append_nil, List.length_nil, pow_zero,
    div_one, digitVal_foldl digit, decimal_eq_ofDigitChars digit, Int.cast_natCast]

theorem magnitude_digits (digits_ : Digits digits) (stop : ∀ c ∈ rest.head?, isSpace c = true) :
    magnitude (digits ++ rest) = .finite (decimal digits) := by
  obtain ⟨ne, digit⟩ := digits_
  have noExponent : exponent 'e' rest = 0 := by
    cases rest with
    | nil => rfl
    | cons c rest =>
      unfold exponent
      exact if_neg (toLower_ne (lt_of_isSpace (stop c rfl)) (by decide))
  have number := significand_digits digit stop
  cases digits with
  | nil => exact absurd rfl ne
  | cons c digits =>
    have low : ∀ d : Char, d.isDigit = true → d.toNat < 65 := fun d digit => by
      have bounds := isDigit_toNat digit
      omega
    have first := low c (digit c List.mem_cons_self)
    have noInf : ['i', 'n', 'f'].isPrefixOf ((c :: digits ++ rest).map Char.toLower) = false := by
      simp [List.isPrefixOf, (toLower_ne first (l := 'i') (by decide)).symm]
    have noNan : ['n', 'a', 'n'].isPrefixOf ((c :: digits ++ rest).map Char.toLower) = false := by
      simp [List.isPrefixOf, (toLower_ne first (l := 'n') (by decide)).symm]
    have noHex : ['0', 'x'].isPrefixOf ((c :: digits ++ rest).map Char.toLower) = false := by
      have second : ∀ d ∈ (digits ++ rest).head?, d.toLower ≠ 'x' := by
        intro d head
        apply toLower_ne _ (by decide)
        cases digits with
        | nil => exact lt_of_isSpace (stop d head)
        | cons e digits =>
          obtain rfl : e = d := by simpa using head
          exact low e (digit e (by simp))
      cases found : digits ++ rest with
      | nil => simp [found, List.isPrefixOf]
      | cons d tail =>
        rw [found] at second
        simp [found, List.isPrefixOf, (second d rfl).symm]
    simp only [magnitude, noInf, noNan, noHex, number, noExponent, zpow_zero, mul_one, Bool.false_eq_true, if_false]

/-- **`atof` reads a numeral below 2 ^ 53 back**, before a space or the end. -/
theorem atof_digits (digits_ : Digits digits) (stop : ∀ c ∈ rest.head?, isSpace c = true)
    (small : decimal digits < 2 ^ 53) : atof (digits ++ rest) = .finite (decimal digits) := by
  have number := magnitude_digits digits_ stop
  have nonneg := decimal_nonneg digits_.2
  have exact : double.round (decimal digits : Int) = .finite (decimal digits) := by
    apply Format.round_intCast (by decide) (by decide)
    rwa [abs_of_nonneg nonneg]
  obtain ⟨ne, digit⟩ := digits_
  cases digits with
  | nil => exact absurd rfl ne
  | cons c digits =>
    have isDigit := digit c List.mem_cons_self
    have bounds := isDigit_toNat isDigit
    have skip : (c :: digits ++ rest).dropWhile isSpace = c :: (digits ++ rest) := by
      rw [List.cons_append, List.dropWhile_cons_of_neg]
      simp [not_isSpace_of_isDigit isDigit]
    have noSign : ∀ d ∈ (c :: (digits ++ rest)).head?, d ≠ '-' ∧ d ≠ '+' := by
      rintro d ⟨⟩
      constructor <;> rintro rfl <;> simp at bounds
    have unsigned : (match c :: (digits ++ rest) with
        | '-' :: s => (magnitude s).neg
        | '+' :: s => magnitude s
        | s => magnitude s) = magnitude (c :: (digits ++ rest)) :=
      match_unsigned FloatVal noSign (fun s => (magnitude s).neg) magnitude magnitude
    rw [List.cons_append] at number
    simp only [atof, skip, unsigned, number, exact]

end Digits

end CSC360.Base
