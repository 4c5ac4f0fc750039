import Mathlib.Logic.Function.Basic
import Mathlib.Data.List.GetD

/-!
# Packed 12-bit entries

A table of 12-bit entries, two in three bytes: entry `n` begins at byte `3 * n / 2`,
an even entry with its low eight bits, an odd one with its low four bits in the high
half of a byte that its neighbour uses as well. `entry` reads an entry, `setEntry`
writes one in place, and `pack` lays a list out. What has been laid out is read back
(`entry_pack`), and a write changes the entry written and no other
(`entry_setEntry`). Nothing here depends on a particular program.
-/

namespace CSC360.Base.Packed12

open Function

variable {b b' : Nat → UInt8} {m n : Nat} {v : BitVec 12}

/-- Entry `n` of the table that the bytes hold. -/
def entry (b : Nat → UInt8) (n : Nat) : Nat :=
  if n % 2 = 0 then (b (3 * n / 2)).toNat + (b (3 * n / 2 + 1)).toNat % 16 * 256
  else (b (3 * n / 2)).toNat / 16 + (b (3 * n / 2 + 1)).toNat * 16

/-- The bytes after entry `m` has been replaced. -/
def setEntry (b : Nat → UInt8) (m : Nat) (v : BitVec 12) : Nat → UInt8 :=
  let o := 3 * m / 2
  if m % 2 = 0 then
    update (update b o (.ofNat (v.toNat % 256))) (o + 1) (.ofNat ((b (o + 1)).toNat / 16 * 16 + v.toNat / 256))
  else
    update (update b o (.ofNat ((b o).toNat % 16 + v.toNat % 16 * 16))) (o + 1) (.ofNat (v.toNat / 16))

/-- An entry is read from its two bytes. -/
theorem entry_congr (low : b (3 * n / 2) = b' (3 * n / 2)) (high : b (3 * n / 2 + 1) = b' (3 * n / 2 + 1)) :
    entry b n = entry b' n := by
  unfold entry
  rw [low, high]

/-- A write touches the entry's two bytes only. -/
theorem setEntry_of_ne {a : Nat} (low : a ≠ 3 * m / 2) (high : a ≠ 3 * m / 2 + 1) : setEntry b m v a = b a := by
  unfold setEntry
  split
  · rw [update_of_ne high, update_of_ne low]
  · rw [update_of_ne high, update_of_ne low]

theorem setEntry_low : (setEntry b m v (3 * m / 2)).toNat =
    if m % 2 = 0 then v.toNat % 256 else (b (3 * m / 2)).toNat % 16 + v.toNat % 16 * 16 := by
  unfold setEntry
  split
  · rw [update_of_ne (by omega), update_self, UInt8.toNat_ofNat']
    omega
  · rw [update_of_ne (by omega), update_self, UInt8.toNat_ofNat']
    omega

theorem setEntry_high : (setEntry b m v (3 * m / 2 + 1)).toNat =
    if m % 2 = 0 then (b (3 * m / 2 + 1)).toNat / 16 * 16 + v.toNat / 256 else v.toNat / 16 := by
  have byte := (b (3 * m / 2 + 1)).toNat_lt
  have value := v.isLt
  unfold setEntry
  split
  · rw [update_self, UInt8.toNat_ofNat']
    omega
  · rw [update_self, UInt8.toNat_ofNat']
    omega

theorem entry_setEntry_self : entry (setEntry b m v) m = v.toNat := by
  have value := v.isLt
  unfold entry
  simp only [setEntry_low, setEntry_high]
  split <;> omega

/-- The neighbour that shares a byte keeps its half of it. -/
theorem entry_setEntry_of_ne (other : n ≠ m) : entry (setEntry b m v) n = entry b n := by
  have value := v.isLt
  rcases Nat.lt_or_ge (3 * n / 2 + 1) (3 * m / 2) with before | notBefore
  · apply entry_congr
    · exact setEntry_of_ne (by omega) (by omega)
    · exact setEntry_of_ne (by omega) (by omega)
  rcases Nat.lt_or_ge (3 * m / 2 + 1) (3 * n / 2) with after | notAfter
  · apply entry_congr
    · exact setEntry_of_ne (by omega) (by omega)
    · exact setEntry_of_ne (by omega) (by omega)
  rcases Nat.lt_or_gt_of_ne other with below | above
  · -- `n` is even and `m` the odd entry behind it
    have shared : 3 * n / 2 + 1 = 3 * m / 2 := by omega
    have byte := (b (3 * m / 2)).toNat_lt
    unfold entry
    rw [if_pos (by omega), if_pos (by omega), setEntry_of_ne (by omega) (by omega), shared, setEntry_low,
      if_neg (by omega)]
    omega
  · have shared : 3 * n / 2 = 3 * m / 2 + 1 := by omega
    unfold entry
    rw [if_neg (by omega), if_neg (by omega), setEntry_of_ne (a := 3 * n / 2 + 1) (by omega) (by omega), shared,
      setEntry_high, if_pos (by omega)]
    omega

theorem entry_setEntry : entry (setEntry b m v) n = if n = m then v.toNat else entry b n := by
  split
  · rename_i same
    rw [same, entry_setEntry_self]
  · rename_i other
    exact entry_setEntry_of_ne other

/-! ## Lists of bytes -/

/-- The bytes of a list, 0 behind its end. -/
def bytesOf (bytes : List UInt8) (a : Nat) : UInt8 := bytes.getD a 0

@[simp] theorem bytesOf_cons_zero (byte : UInt8) (bytes : List UInt8) : bytesOf (byte :: bytes) 0 = byte := rfl

@[simp] theorem bytesOf_cons_succ (byte : UInt8) (bytes : List UInt8) (a : Nat) :
    bytesOf (byte :: bytes) (a + 1) = bytesOf bytes a := rfl

/-- The entries laid out one after the other. -/
def pack : List (BitVec 12) → List UInt8
  | [] => []
  | [x] => [.ofNat (x.toNat % 256), .ofNat (x.toNat / 256)]
  | x :: y :: rest =>
    .ofNat (x.toNat % 256) :: .ofNat (x.toNat / 256 + y.toNat % 16 * 16) :: .ofNat (y.toNat / 16) :: pack rest

/-- The list after entry `m` of its table has been replaced. -/
def replace (bytes : List UInt8) (m : Nat) (v : BitVec 12) : List UInt8 :=
  let o := 3 * m / 2
  (bytes.set o (setEntry (bytesOf bytes) m v o)).set (o + 1) (setEntry (bytesOf bytes) m v (o + 1))

variable {bytes : List UInt8} {E : List (BitVec 12)}

theorem length_pack : (pack E).length = (3 * E.length + 1) / 2 := by
  induction E using pack.induct with
  | case1 => rfl
  | case2 x => simp [pack]
  | case3 x y rest ih =>
    simp only [pack, List.length_cons, ih]
    omega

@[simp] theorem length_replace : (replace bytes m v).length = bytes.length := by
  simp [replace]

/-- The two bytes of an entry lie in the table. -/
theorem inside_pack (lt : n < E.length) : 3 * n / 2 + 1 < (pack E).length := by
  rw [length_pack]
  omega

/-- **What was packed is read back.** -/
theorem entry_pack (lt : n < E.length) : entry (bytesOf (pack E)) n = E[n].toNat := by
  induction E using pack.induct generalizing n with
  | case1 => cases lt
  | case2 x =>
    have value := x.isLt
    obtain rfl : n = 0 := by simpa using lt
    simp [entry, pack]
    omega
  | case3 x y rest ih =>
    have left := x.isLt
    have right := y.isLt
    rcases n with _ | _ | n
    · simp [entry, pack]
      omega
    · simp [entry, pack]
      omega
    · have skip : 3 * (n + 2) / 2 = 3 * n / 2 + 3 := by omega
      have even : (n + 2) % 2 = n % 2 := by omega
      have behind := ih (n := n) (by simpa using lt)
      unfold entry at behind ⊢
      simp only [skip, even]
      exact behind

/-- Replacing in the list is writing in place. -/
theorem bytesOf_replace (inside : 3 * m / 2 + 1 < bytes.length) :
    bytesOf (replace bytes m v) = setEntry (bytesOf bytes) m v := by
  funext a
  unfold replace bytesOf
  simp only [List.getD_eq_getElem?_getD, List.getElem?_set]
  by_cases high : 3 * m / 2 + 1 = a
  · subst high
    simp [inside]
  by_cases low : 3 * m / 2 = a
  · subst low
    simp [show 3 * m / 2 < bytes.length by omega]
  · rw [if_neg high, if_neg low, setEntry_of_ne (Ne.symm low) (Ne.symm high)]

/-- **Replacing an entry of a packed list** changes what is read at its index only. -/
theorem entry_replace_pack (lt : m < E.length) (inside : n < E.length) :
    entry (bytesOf (replace (pack E) m v)) n = if n = m then v.toNat else E[n].toNat := by
  rw [bytesOf_replace (inside_pack lt), entry_setEntry, entry_pack inside]

end CSC360.Base.Packed12
