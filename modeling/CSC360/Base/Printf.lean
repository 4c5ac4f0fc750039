import CSC360.Base.Floats

/-!
# Numbers as `printf` prints them

`%d` of an integer and `%.6f` of a number, the six being a parameter. **Numbers that are
printed alike have the same sign and the same number of units of the last place**
(`fixed_eq_iff`); an integer and a number next to it are printed alike if they are at
most half a unit apart (`scaled_eq_iff`).
-/

namespace CSC360.Base

/-- `%d` -/
def printInt : Int → List Char
  | .ofNat n => Nat.toDigits 10 n
  | .negSucc n => '-' :: Nat.toDigits 10 (n + 1)

/-- The magnitude of the number in units of its last place, rounded. -/
def scaled (places : Nat) (x : Rat) : Nat := (roundEven (|x| * 10 ^ places)).toNat

/-- `%.nf` for a number `n` of places that is not 0. -/
def fixed (places : Nat) (x : Rat) : List Char :=
  let units := scaled places x
  (if x < 0 then ['-'] else []) ++ Nat.toDigits 10 (units / 10 ^ places) ++
    '.' :: (Nat.toDigits 10 (units % 10 ^ places)).leftpad places '0'

def FloatVal.print (places : Nat) : FloatVal → List Char
  | .finite value => fixed places value
  | .infinite negative => (if negative then ['-'] else []) ++ ['i', 'n', 'f']
  | .nan => ['n', 'a', 'n']

theorem toDigits_injective {m n : Nat} (same : Nat.toDigits 10 m = Nat.toDigits 10 n) : m = n := by
  have value := congrArg decimal same
  rw [decimal_toDigits, decimal_toDigits] at value
  exact Int.ofNat.inj value

theorem minus_notMem_toDigits (n : Nat) : '-' ∉ Nat.toDigits 10 n := notMem_toDigits rfl n

theorem printInt_injective {a b : Int} (same : printInt a = printInt b) : a = b := by
  match a, b with
  | .ofNat m, .ofNat n => exact congrArg Int.ofNat (toDigits_injective same)
  | .negSucc m, .negSucc n =>
    have digits := toDigits_injective (List.cons.inj same).2
    exact congrArg Int.negSucc (Nat.succ.inj digits)
  | .ofNat m, .negSucc n =>
    have minus : '-' ∈ printInt (.negSucc n) := List.mem_cons_self
    rw [← same] at minus
    exact absurd minus (minus_notMem_toDigits m)
  | .negSucc m, .ofNat n =>
    have minus : '-' ∈ printInt (.negSucc m) := List.mem_cons_self
    rw [same] at minus
    exact absurd minus (minus_notMem_toDigits n)

theorem mem_printInt {a : Int} {c : Char} (mem : c ∈ printInt a) : c = '-' ∨ c.isDigit = true := by
  match a with
  | .ofNat n => exact .inr ((digits_toDigits n).2 c mem)
  | .negSucc n =>
    rcases List.mem_cons.1 mem with minus | digit
    · exact .inl minus
    · exact .inr ((digits_toDigits (n + 1)).2 c digit)

theorem printInt_ne_nil (a : Int) : printInt a ≠ [] := by
  match a with
  | .ofNat n => exact Nat.toDigits_ne_nil
  | .negSucc n => exact List.cons_ne_nil _ _

section Fixed

variable {places : Nat} {x y : Rat}

theorem ofDigitChars_leftpad (n k : Nat) :
    Nat.ofDigitChars 10 ((Nat.toDigits 10 n).leftpad k '0') 0 = n := by
  have zeros : ∀ j, Nat.ofDigitChars 10 (List.replicate j '0') 0 = 0 := by
    intro j
    induction j with
    | zero => rfl
    | succ j ih =>
      rw [List.replicate_succ, Nat.ofDigitChars_cons]
      exact ih
  rw [List.leftpad, Nat.ofDigitChars_append, zeros, Nat.ofDigitChars_ten_toDigits]

theorem digits_leftpad (n k : Nat) : ∀ c ∈ (Nat.toDigits 10 n).leftpad k '0', c.isDigit = true := by
  rw [List.leftpad, List.forall_mem_append]
  exact ⟨fun c mem => (List.eq_of_mem_replicate mem) ▸ by decide, (digits_toDigits n).2⟩

theorem minus_notMem_fixed (nonneg : 0 ≤ x) : '-' ∉ fixed places x := by
  simp [fixed, List.leftpad, not_lt.2 nonneg, minus_notMem_toDigits]

theorem fixed_eq_iff (nonneg : 0 ≤ y) :
    fixed places x = fixed places y ↔ 0 ≤ x ∧ scaled places x = scaled places y := by
  constructor
  · intro same
    have nonneg' : 0 ≤ x := by
      by_contra negative
      have noMinus : '-' ∉ fixed places y := minus_notMem_fixed nonneg
      rw [← same, fixed, if_pos (not_le.1 negative)] at noMinus
      exact noMinus List.mem_cons_self
    refine ⟨nonneg', ?_⟩
    rw [fixed, fixed, if_neg (not_lt.2 nonneg), if_neg (not_lt.2 nonneg')] at same
    simp only [List.nil_append] at same
    have point : ∀ tail : List Char, ∀ c ∈ ('.' :: tail).head?, c.isDigit = false := by
      rintro tail c ⟨⟩
      rfl
    have whole := congrArg (List.takeWhile Char.isDigit) same
    rw [takeWhile_digits (digits_toDigits _).2 (point _), takeWhile_digits (digits_toDigits _).2 (point _)] at whole
    rw [whole] at same
    have behind := congrArg (Nat.ofDigitChars 10 · 0) (List.cons.inj (List.append_cancel_left same)).2
    simp only [ofDigitChars_leftpad] at behind
    rw [← Nat.div_add_mod (scaled places x) (10 ^ places), toDigits_injective whole, behind, Nat.div_add_mod]
  · rintro ⟨nonneg', same⟩
    rw [fixed, fixed, same, if_neg (not_lt.2 nonneg), if_neg (not_lt.2 nonneg')]

/-- A number is printed like an integer if it is at most half a unit of the last place away. -/
theorem scaled_eq_iff (some : places ≠ 0) (nonneg : 0 ≤ y) (n : Nat) :
    scaled places (n : Rat) = scaled places y ↔ 2 * 10 ^ places * |y - n| ≤ 1 := by
  have integer : roundEven (|(n : Rat)| * 10 ^ places) = (n * 10 ^ places : Nat) := by
    have exact := roundEven_intCast (n * 10 ^ places : Nat)
    push_cast at exact ⊢
    rw [Nat.abs_cast]
    exact exact
  have even : ((n * 10 ^ places : Nat) : Int) % 2 = 0 := by
    obtain ⟨k, rfl⟩ := Nat.exists_eq_succ_of_ne_zero some
    rw [Nat.pow_succ, ← Nat.mul_assoc]
    omega
  have positive : (0 : Rat) < 10 ^ places := by positivity
  have below : 0 ≤ roundEven (|y| * 10 ^ places) := by
    have near := abs_le.1 (roundEven_near (|y| * 10 ^ places))
    have large : 0 ≤ |y| * 10 ^ places := by positivity
    have above : (-1 : Rat) < roundEven (|y| * 10 ^ places) := by linarith
    have above' : -1 < roundEven (|y| * 10 ^ places) := by exact_mod_cast above
    omega
  have apart : |y * 10 ^ places - ((n * 10 ^ places : Nat) : Int)| = |y - n| * 10 ^ places := by
    push_cast
    rw [← sub_mul, abs_mul, abs_of_pos positive]
  calc scaled places (n : Rat) = scaled places y
      ↔ roundEven (|y| * 10 ^ places) = ((n * 10 ^ places : Nat) : Int) := by
        rw [scaled, scaled, integer]
        omega
    _ ↔ |y * 10 ^ places - ((n * 10 ^ places : Nat) : Int)| ≤ 1 / 2 := by
        rw [roundEven_eq_iff even, abs_of_nonneg nonneg]
    _ ↔ 2 * 10 ^ places * |y - n| ≤ 1 := by
        rw [apart]
        constructor <;> intro near <;> linarith

/-- An integer is printed like a quotient if the remainder is small or close to the divisor. -/
theorem fixed_quotient_iff (some : places ≠ 0) {m n : Nat} (positive : 0 < n) (k : Int) :
    fixed places (k : Rat) = fixed places (m / n : Rat) ↔ 0 ≤ k ∧ 2 * 10 ^ places * |m - k * n| ≤ n := by
  have positive' : (0 : Rat) < n := Nat.cast_pos.2 positive
  have nonneg : (0 : Rat) ≤ m / n := by positivity
  rw [fixed_eq_iff nonneg, Int.cast_nonneg_iff]
  apply and_congr_right
  intro nonneg'
  obtain ⟨j, rfl⟩ := Int.eq_ofNat_of_zero_le nonneg'
  have apart : |(m / n : Rat) - j| * n = |(m : Rat) - j * n| := by
    rw [← abs_of_pos positive', ← abs_mul, abs_of_pos positive', sub_mul, div_mul_cancel₀ _ positive'.ne']
  rw [Int.cast_natCast, scaled_eq_iff some nonneg]
  calc 2 * 10 ^ places * |(m / n : Rat) - j| ≤ 1
      ↔ 2 * 10 ^ places * |(m / n : Rat) - j| * n ≤ 1 * n := (mul_le_mul_iff_left₀ positive').symm
    _ ↔ 2 * 10 ^ places * |(m : Rat) - j * n| ≤ n := by rw [mul_assoc, apart, one_mul]
    _ ↔ 2 * 10 ^ places * |(m : Int) - j * n| ≤ n := by exact_mod_cast Iff.rfl

end Fixed

end CSC360.Base
