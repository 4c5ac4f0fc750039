import CSC360.Base.SortedCode
import CSC360.Disk.ListText

/-!
# Time stamps

An entry stores a date, with the year in the highest bits and the day in the lowest, and a time of
day, with the hours in the highest bits; `print_datetime` leaves out the bits of the seconds. **The
printed time stamps sort, as texts, like the minutes stored, and are equal just when these are**
(`stamps_chronological`).
-/

namespace CSC360.Disk.DiskList
open CSC360.Base

/-- The date and the minute of the day that the entry stores, as one number. -/
def moment (p : Image) (s : Slot) : Nat := p.word (s.addr + 16) * 2048 + p.word (s.addr + 14) / 32

/-! ## The bit fields -/

theorem field_eq (word width shift : Nat) :
    (word &&& (2 ^ width - 1) <<< shift) >>> shift = word / 2 ^ shift % 2 ^ width := by
  rw [Nat.shiftRight_and_distrib, Nat.shiftLeft_shiftRight, Nat.and_two_pow_sub_one_eq_mod,
    Nat.shiftRight_eq_div_pow]

/-- The stamp of an entry, from its moment. -/
def stampOf (moment : Nat) : Stamp where
  year := moment / 64 / 32 / 32 / 16 + 1980
  month := moment / 64 / 32 / 32 % 16
  day := moment / 64 / 32 % 32
  hours := moment / 64 % 32
  minutes := moment % 64

theorem printDatetime_eq (p : Image) (s : Slot) : printDatetime p s = stampOf (moment p s) := by
  have date := p.word_lt (a := s.addr + 16)
  have time := p.word_lt (a := s.addr + 14)
  rw [printDatetime, moment, stampOf]
  generalize p.word (s.addr + 16) = d at date ⊢
  generalize p.word (s.addr + 14) = t at time ⊢
  have year : (d &&& 0xFE00) >>> 9 = d / 2 ^ 9 % 2 ^ 7 := field_eq d 7 9
  have month : (d &&& 0x1E0) >>> 5 = d / 2 ^ 5 % 2 ^ 4 := field_eq d 4 5
  have day : d &&& 0x1F = d % 2 ^ 5 := Nat.and_two_pow_sub_one_eq_mod d 5
  have hours : (t &&& 0xF800) >>> 11 = t / 2 ^ 11 % 2 ^ 5 := field_eq t 5 11
  have minutes : (t &&& 0x7E0) >>> 5 = t / 2 ^ 5 % 2 ^ 6 := field_eq t 6 5
  simp only [year, month, day, hours, minutes, Stamp.mk.injEq]
  omega

theorem moment_lt (p : Image) (s : Slot) : moment p s < 128 * 16 * 32 * 32 * 64 := by
  have date := p.word_lt (a := s.addr + 16)
  have time := p.word_lt (a := s.addr + 14)
  rw [moment]
  omega

/-! ## The text -/

theorem ascii_lt_iff {cs ds : List Char} (digit : ∀ c ∈ cs, c.isDigit = true) (digit' : ∀ c ∈ ds, c.isDigit = true) :
    ascii cs < ascii ds ↔ cs < ds := by
  have small : ∀ c : Char, c.isDigit = true → c.toNat.toUInt8.toNat = c.toNat := by
    intro c digit
    have bounds := isDigit_toNat digit
    exact Nat.mod_eq_of_lt (by omega)
  refine map_lt_map_iff (fun c mem d mem' => ?_) fun c mem d mem' same => ?_
  · rw [UInt8.lt_iff_toNat_lt, small c (digit c mem), small d (digit' d mem'), toNat_lt_iff]
  · have sameNat := congrArg UInt8.toNat same
    rw [small c (digit c mem), small d (digit' d mem')] at sameNat
    exact Char.ext (UInt32.toNat_inj.1 sameNat)

theorem sortedCode_year : SortedCode (fun n => ascii (Nat.toDigits 10 (n + 1980))) {n | n < 128} 4 := by
  have digits := sortedCode_digits 3
  have years : ∀ n ∈ {n | n < 128}, n + 1980 ∈ {n | 10 ^ 3 ≤ n ∧ n < 10 ^ 4} := by
    intro n small
    have small : n < 128 := small
    exact ⟨by omega, by omega⟩
  refine ⟨fun n mem => ?_, fun m mem n mem' => ?_⟩
  · rw [ascii, List.length_map, digits.length _ (years n mem)]
  · rw [ascii_lt_iff (digits_toDigits _).2 (digits_toDigits _).2, digits.lt_iff _ (years m mem) _ (years n mem')]
    omega

theorem sortedCode_printf02d {k : Nat} (small : k ≤ 100) : SortedCode printf02d {n | n < k} 2 := by
  have padded := sortedCode_padded (k := 2) (by decide)
  have two : ∀ n ∈ {n | n < k}, n ∈ {n | n < 10 ^ 2} := fun n less => Nat.lt_of_lt_of_le less small
  refine ⟨fun n mem => ?_, fun m mem n mem' => ?_⟩
  · rw [printf02d, ascii, List.length_map, padded.length n (two n mem)]
  · rw [printf02d, printf02d, ascii_lt_iff (digits_leftpad m 2) (digits_leftpad n 2),
      padded.lt_iff m (two m mem) n (two n mem')]

/-- The numbers of a stamp with the separators between them, the year first. -/
def stampCode (moment : Nat) : List UInt8 :=
  (((ascii (Nat.toDigits 10 (moment / 64 / 32 / 32 / 16 + 1980)) ++ ([0x2D] ++ printf02d (moment / 64 / 32 / 32 % 16))) ++
    ([0x2D] ++ printf02d (moment / 64 / 32 % 32))) ++ ([0x20] ++ printf02d (moment / 64 % 32))) ++
    ([0x3A] ++ printf02d (moment % 64))

theorem stampOf_text (moment : Nat) : (stampOf moment).text = 0x20 :: stampCode moment := by
  simp only [Stamp.text, stampOf, stampCode, List.append_assoc, List.cons_append, List.nil_append]

/-- **The code sorts like the moments**: year and month, then the day, the hours and the minutes. -/
theorem sortedCode_stampCode : SortedCode stampCode {n | n < 128 * 16 * 32 * 32 * 64} 16 := by
  have months := sortedCode_year.pair (sortedCode_printf02d (k := 16) (by decide)) [0x2D]
  have days := months.pair (sortedCode_printf02d (k := 32) (by decide)) [0x2D]
  have hours := days.pair (sortedCode_printf02d (k := 32) (by decide)) [0x20]
  have minutes := hours.pair (sortedCode_printf02d (k := 64) (by decide)) [0x3A]
  have inside : ∀ n ∈ {n | n < 128 * 16 * 32 * 32 * 64}, n / 64 / 32 / 32 / 16 < 128 := by
    intro n small
    have small : n < 128 * 16 * 32 * 32 * 64 := small
    omega
  have mem : ∀ n ∈ {n | n < 128 * 16 * 32 * 32 * 64},
      n ∈ {n | n / 64 ∈ {n | n / 32 ∈ {n | n / 32 ∈ {n | n / 16 ∈ {n | n < 128} ∧ 0 < 16} ∧ 0 < 32} ∧ 0 < 32} ∧ 0 < 64} :=
    fun n small => ⟨⟨⟨⟨inside n small, by decide⟩, by decide⟩, by decide⟩, by decide⟩
  exact minutes.comp mem fun _ _ _ _ => Iff.rfl

/-- **The time stamps sort as texts like the minutes stored.** -/
theorem stamps_chronological (p q : Image) (s t : Slot) :
    ((printDatetime p s).text < (printDatetime q t).text ↔ moment p s < moment q t) ∧
      ((printDatetime p s).text = (printDatetime q t).text ↔ moment p s = moment q t) := by
  have inside : moment p s ∈ {n | n < 128 * 16 * 32 * 32 * 64} := moment_lt p s
  have inside' : moment q t ∈ {n | n < 128 * 16 * 32 * 32 * 64} := moment_lt q t
  rw [printDatetime_eq, printDatetime_eq, stampOf_text, stampOf_text, List.cons_lt_cons_iff, List.cons.injEq,
    sortedCode_stampCode.lt_iff _ inside _ inside', sortedCode_stampCode.eq_iff inside inside']
  refine ⟨⟨fun less => ?_, fun less => .inr ⟨rfl, less⟩⟩, and_iff_right rfl⟩
  rcases less with less | ⟨-, less⟩
  · exact absurd less (by decide)
  · exact less

end CSC360.Disk.DiskList
