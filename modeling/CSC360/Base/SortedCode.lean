import CSC360.Base.Printf
import Mathlib.Data.Set.Defs
import Mathlib.Tactic.Tauto

/-!
# Texts that sort like numbers

A code writes numbers in one width. It is sorted if the texts compare, symbol by symbol from the
left, like the numbers. **Two parts of a number, one after the other, are a sorted code if each is
one** (`SortedCode.pair`); the decimal numerals of a width are one (`sortedCode_digits`), and
those that are padded with zeros (`sortedCode_padded`).
-/

namespace CSC360.Base

universe u

variable {β : Type u} [LT β] {x y v w : List β}

/-- Of texts with beginnings of one width the beginnings are compared first. -/
theorem append_lt_append_iff (width : x.length = y.length) : x ++ v < y ++ w ↔ x < y ∨ x = y ∧ v < w := by
  induction x generalizing y with
  | nil =>
    obtain rfl := List.length_eq_zero_iff.1 width.symm
    simp
  | cons a x ih =>
    cases y with
    | nil => cases width
    | cons b y =>
      rw [List.cons_append, List.cons_append, List.cons_lt_cons_iff, List.cons_lt_cons_iff,
        ih (Nat.succ.inj width), List.cons.injEq]
      tauto

/-- A strictly monotone map of the symbols keeps the order. -/
theorem map_lt_map_iff {γ : Type u} [LT γ] {f : β → γ} (mono : ∀ a ∈ x, ∀ b ∈ y, (f a < f b ↔ a < b))
    (inj : ∀ a ∈ x, ∀ b ∈ y, f a = f b → a = b) : x.map f < y.map f ↔ x < y := by
  induction x generalizing y with
  | nil => cases y <;> simp
  | cons a x ih =>
    cases y with
    | nil => simp
    | cons b y =>
      have head := mono a List.mem_cons_self b List.mem_cons_self
      have same : f a = f b ↔ a = b := ⟨inj a List.mem_cons_self b List.mem_cons_self, congrArg f⟩
      rw [List.map_cons, List.map_cons, List.cons_lt_cons_iff, List.cons_lt_cons_iff, head, same,
        ih (fun c mem d mem' => mono c (List.mem_cons_of_mem a mem) d (List.mem_cons_of_mem b mem'))
          fun c mem d mem' => inj c (List.mem_cons_of_mem a mem) d (List.mem_cons_of_mem b mem')]

/-- Quotients are compared first, and then remainders. -/
theorem div_mod_lt_iff (m n k : Nat) : m / k < n / k ∨ m / k = n / k ∧ m % k < n % k ↔ m < n := by
  have left := Nat.div_add_mod m k
  have right := Nat.div_add_mod n k
  constructor
  · rintro (less | ⟨equal, less⟩)
    · exact Nat.lt_of_div_lt_div less
    · rw [equal] at left
      omega
  · intro less
    rcases Nat.lt_or_eq_of_le (Nat.div_le_div_right (c := k) less.le) with less' | equal
    · exact .inl less'
    · rw [equal] at left
      exact .inr ⟨equal, by omega⟩

/-- The code writes the numbers of `S` in the width, in their order. -/
structure SortedCode (code : Nat → List β) (S : Set Nat) (width : Nat) : Prop where
  length : ∀ n ∈ S, (code n).length = width
  lt_iff : ∀ m ∈ S, ∀ n ∈ S, (code m < code n ↔ m < n)

namespace SortedCode

variable {code code' : Nat → List β} {S T : Set Nat} {width width' m n : Nat}

theorem eq_iff [Std.Irrefl (α := β) (· < ·)] (sorted : SortedCode code S width) (mem : m ∈ S) (mem' : n ∈ S) :
    code m = code n ↔ m = n := by
  refine ⟨fun same => ?_, congrArg code⟩
  rcases Nat.lt_trichotomy m n with less | equal | more
  · exact absurd ((sorted.lt_iff m mem n mem').2 less) (same ▸ List.lt_irrefl _)
  · exact equal
  · exact absurd ((sorted.lt_iff n mem' m mem).2 more) (same ▸ List.lt_irrefl _)

/-- Numbers in their order, written by the code. -/
theorem comp (sorted : SortedCode code S width) {g : Nat → Nat} (maps : ∀ n ∈ T, g n ∈ S)
    (mono : ∀ m ∈ T, ∀ n ∈ T, (g m < g n ↔ m < n)) : SortedCode (fun n => code (g n)) T width where
  length n mem := sorted.length _ (maps n mem)
  lt_iff m mem n mem' := (sorted.lt_iff _ (maps m mem) _ (maps n mem')).trans (mono m mem n mem')

/-- **The quotient and the remainder of a number**, with a separator between them. -/
theorem pair [Std.Irrefl (α := β) (· < ·)] (sorted : SortedCode code S width) {k : Nat}
    (sorted' : SortedCode code' {n | n < k} width') (separator : List β) :
    SortedCode (fun n => code (n / k) ++ (separator ++ code' (n % k))) {n | n / k ∈ S ∧ 0 < k}
      (width + (separator.length + width')) where
  length n mem := by
    rw [List.length_append, List.length_append, sorted.length _ mem.1, sorted'.length _ (Nat.mod_lt n mem.2)]
  lt_iff m mem n mem' := by
    have width : (code (m / k)).length = (code (n / k)).length := by
      rw [sorted.length _ mem.1, sorted.length _ mem'.1]
    have left := sorted.lt_iff _ mem.1 _ mem'.1
    have right := sorted'.lt_iff _ (Nat.mod_lt m mem.2) _ (Nat.mod_lt n mem'.2)
    rw [append_lt_append_iff width, append_lt_append_iff rfl, left, sorted.eq_iff mem.1 mem'.1, right]
    simp only [List.lt_irrefl, true_and, false_or]
    exact div_mod_lt_iff m n k

end SortedCode

/-! ## Decimal numerals -/

theorem ofDigitChars_cons_zero (c : Char) (digits : List Char) :
    Nat.ofDigitChars 10 (c :: digits) 0 = 10 ^ digits.length * (c.toNat - 48) + Nat.ofDigitChars 10 digits 0 := by
  rw [Nat.ofDigitChars_cons, Nat.ofDigitChars_eq_ofDigitChars_zero]
  simp

theorem toNat_lt_iff {c d : Char} : c < d ↔ c.toNat < d.toNat := UInt32.lt_iff_toNat_lt

/-- Numerals of one width compare like the numbers. -/
theorem digits_lt_iff {cs ds : List Char} (digit : ∀ c ∈ cs, c.isDigit = true) (digit' : ∀ d ∈ ds, d.isDigit = true)
    (width : cs.length = ds.length) :
    cs < ds ↔ Nat.ofDigitChars 10 cs 0 < Nat.ofDigitChars 10 ds 0 := by
  induction cs generalizing ds with
  | nil =>
    obtain rfl := List.length_eq_zero_iff.1 width.symm
    simp
  | cons c cs ih =>
    cases ds with
    | nil => cases width
    | cons d ds =>
      have tail : ∀ e ∈ cs, e.isDigit = true := fun e mem => digit e (List.mem_cons_of_mem c mem)
      have tail' : ∀ e ∈ ds, e.isDigit = true := fun e mem => digit' e (List.mem_cons_of_mem d mem)
      have same := Nat.succ.inj width
      have small := ofDigitChars_lt tail
      have small' := ofDigitChars_lt tail'
      have low := isDigit_toNat (digit c List.mem_cons_self)
      have low' := isDigit_toNat (digit' d List.mem_cons_self)
      have equal : c = d ↔ c.toNat = d.toNat :=
        ⟨congrArg Char.toNat, fun same => Char.ext (UInt32.toNat_inj.1 same)⟩
      rw [List.cons_lt_cons_iff, ih tail tail' same, ofDigitChars_cons_zero, ofDigitChars_cons_zero, toNat_lt_iff, equal]
      rw [same] at small ⊢
      generalize Nat.ofDigitChars 10 cs 0 = a at small ⊢
      generalize Nat.ofDigitChars 10 ds 0 = b at small' ⊢
      have positive : 0 < 10 ^ ds.length := Nat.pow_pos (by decide)
      have compare := div_mod_lt_iff (10 ^ ds.length * (c.toNat - 48) + a) (10 ^ ds.length * (d.toNat - 48) + b)
        (10 ^ ds.length)
      simp only [Nat.mul_add_div positive, Nat.div_eq_of_lt small, Nat.div_eq_of_lt small', Nat.mul_add_mod,
        Nat.mod_eq_of_lt small, Nat.mod_eq_of_lt small', Nat.add_zero] at compare
      rw [← compare]
      omega

/-- The numerals with `k + 1` digits. -/
theorem sortedCode_digits (k : Nat) : SortedCode (Nat.toDigits 10) {n | 10 ^ k ≤ n ∧ n < 10 ^ (k + 1)} (k + 1) := by
  have width : ∀ n ∈ {n | 10 ^ k ≤ n ∧ n < 10 ^ (k + 1)}, (Nat.toDigits 10 n).length = k + 1 := by
    rintro n ⟨large, small⟩
    have most := (Nat.length_toDigits_le_iff (by decide) (Nat.succ_pos k)).2 small
    rcases Nat.eq_zero_or_pos k with rfl | positive
    · have some := List.length_pos_iff.2 (Nat.toDigits_ne_nil (b := 10) (n := n))
      omega
    · have least := mt (Nat.length_toDigits_le_iff (by decide) positive).1 (Nat.not_lt.2 large)
      omega
  refine ⟨width, fun m mem n mem' => ?_⟩
  rw [digits_lt_iff (digits_toDigits m).2 (digits_toDigits n).2 ((width m mem).trans (width n mem').symm),
    Nat.ofDigitChars_ten_toDigits, Nat.ofDigitChars_ten_toDigits]

/-- The numerals padded with zeros to `k` digits. -/
theorem sortedCode_padded {k : Nat} (positive : 0 < k) :
    SortedCode (fun n => (Nat.toDigits 10 n).leftpad k '0') {n | n < 10 ^ k} k := by
  have width : ∀ n ∈ {n | n < 10 ^ k}, ((Nat.toDigits 10 n).leftpad k '0').length = k := by
    intro n small
    have short := (Nat.length_toDigits_le_iff (by decide) positive).2 small
    rw [List.length_leftpad]
    omega
  refine ⟨width, fun m mem n mem' => ?_⟩
  rw [digits_lt_iff (digits_leftpad m k) (digits_leftpad n k) ((width m mem).trans (width n mem').symm),
    ofDigitChars_leftpad, ofDigitChars_leftpad]

end CSC360.Base
