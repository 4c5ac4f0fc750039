import CSC360.Disk.DiskList
import CSC360.Disk.FreeSpace

/-!
# Sizes in 32-bit arithmetic

Both programs compute sizes in `int`: the total size and the offset of the FAT as
products of two 16-bit header fields, a file's size from four bytes. The results are
the exact values exactly when these stay below `2^31` (`sizes_exact_iff`); the free
size then lies between 0 and the total size.
-/

namespace CSC360.Disk
open CSC360.Base

/-- The little-endian number in the bytes 28 to 31 of a slot. -/
def sizeField (p : Image) (s : Slot) : Nat :=
  (p.byteAt (s.addr + 28)).toNat + 256 * (p.byteAt (s.addr + 29)).toNat +
    65536 * (p.byteAt (s.addr + 30)).toNat + 16777216 * (p.byteAt (s.addr + 31)).toNat

/-- The sizes are the exact values, and the free size is one of a part of the disk. -/
structure SizesExact (p : Image) (s : Slot) : Prop where
  total : DiskInfo.totalDiskSize p = (p.word 11 * p.word 19 : Nat)
  reserved : p.fatTableLocation = (p.word 11 * p.word 14 : Nat)
  file : DiskList.filesize p s = (sizeField p s : Nat)
  free : ∀ r, DiskInfo.countEmptyFATentries p = .ok r → 0 ≤ r ∧ r ≤ DiskInfo.totalDiskSize p

/-- The header's products are below `2^31`, and the top bit of the file size is not set. -/
structure SmallSizes (p : Image) (s : Slot) : Prop where
  total : p.word 11 * p.word 19 < 2147483648
  reserved : p.word 11 * p.word 14 < 2147483648
  file : (p.byteAt (s.addr + 31)).toNat < 128

variable {p : Image} {s : Slot}

theorem totalDiskSize_eq_iff :
    DiskInfo.totalDiskSize p = (p.word 11 * p.word 19 : Nat) ↔ p.word 11 * p.word 19 < 2147483648 := by
  unfold DiskInfo.totalDiskSize
  rw [← Int.natCast_mul]
  exact Image.toInt32_eq_iff _

theorem fatTableLocation_eq_iff :
    p.fatTableLocation = (p.word 11 * p.word 14 : Nat) ↔ p.word 11 * p.word 14 < 2147483648 := by
  unfold Image.fatTableLocation
  rw [← Int.natCast_mul]
  exact Image.toInt32_eq_iff _

theorem filesize_eq_iff :
    DiskList.filesize p s = (sizeField p s : Nat) ↔ (p.byteAt (s.addr + 31)).toNat < 128 := by
  have b28 := (p.byteAt (s.addr + 28)).toNat_lt
  have b29 := (p.byteAt (s.addr + 29)).toNat_lt
  have b30 := (p.byteAt (s.addr + 30)).toNat_lt
  have sum : (p.byteAt (s.addr + 28)).toNat + (p.byteAt (s.addr + 29)).toNat <<< 8 +
      (p.byteAt (s.addr + 30)).toNat <<< 16 + (p.byteAt (s.addr + 31)).toNat <<< 24 = sizeField p s := by
    simp only [Nat.shiftLeft_eq, sizeField]
    omega
  unfold DiskList.filesize
  dsimp only
  rw [sum, Image.toInt32_eq_iff, sizeField]
  omega

/-- The loop counts at most one free cluster for each round. -/
theorem count_le {read : Nat → Except Fault Nat} : ∀ {l : List Nat} {free r : Nat},
    l.foldlM (fun (free : Nat) k => do
      let entry ← read k
      pure (if entry = 0x00 then free + 1 else free)) free = .ok r → r ≤ free + l.length := by
  intro l
  induction l with
  | nil =>
    intro free r done
    cases done
    exact Nat.le_refl _
  | cons k l ih =>
    intro free r done
    rw [List.foldlM_cons, bind_eq_ok] at done
    obtain ⟨free', first, rest⟩ := done
    obtain ⟨entry, -, counted⟩ := bind_eq_ok.1 first
    have step : free' ≤ free + 1 := by
      rw [← Except.ok.inj counted]
      split <;> omega
    have bound := ih rest
    rw [List.length_cons]
    omega

/-- The free size does not wrap when the total size does not. -/
theorem free_le_total (small : p.word 11 * p.word 19 < 2147483648) {r : Int}
    (counted : DiskInfo.countEmptyFATentries p = .ok r) : 0 ≤ r ∧ r ≤ DiskInfo.totalDiskSize p := by
  have total := totalDiskSize_eq_iff.2 small
  unfold DiskInfo.countEmptyFATentries at counted
  dsimp only at counted
  rw [total, SECTOR_SIZE] at counted
  obtain ⟨free, loop, result⟩ := bind_eq_ok.1 counted
  have bound := count_le loop
  rw [List.length_range, ← Int.ofNat_tdiv] at bound
  obtain rfl := Except.ok.inj result
  rw [total]
  generalize p.word 11 * p.word 19 = size at small bound
  have exact : Image.toInt32 (free * 512 : Nat) = (free * 512 : Nat) := (Image.toInt32_eq_iff _).2 (by omega)
  rw [Int.natCast_mul] at exact
  show 0 ≤ Image.toInt32 (free * (512 : Nat)) ∧ Image.toInt32 (free * (512 : Nat)) ≤ _
  rw [exact]
  omega

/-- **Sizes are exact** when the header's products are below `2^31` and the file size is,
and only then. -/
theorem sizes_exact_iff : SizesExact p s ↔ SmallSizes p s := by
  constructor
  · intro exact
    exact ⟨totalDiskSize_eq_iff.1 exact.total, fatTableLocation_eq_iff.1 exact.reserved,
      filesize_eq_iff.1 exact.file⟩
  · intro small
    exact ⟨totalDiskSize_eq_iff.2 small.total, fatTableLocation_eq_iff.2 small.reserved,
      filesize_eq_iff.2 small.file, fun _ => free_le_total small.total⟩

/-- An image whose header fields are as large as they can be, with a file of `2^31` bytes. -/
def largeSizes : Image :=
  .sparse 40 [(11, 0xFF), (12, 0xFF), (14, 0xFF), (15, 0xFF), (19, 0xFF), (20, 0xFF), (9728, 0x41), (9759, 0x80)]

/-- All three sizes are negative. -/
theorem sizes_wrap :
    DiskInfo.totalDiskSize largeSizes = -131071 ∧ largeSizes.fatTableLocation = -131071 ∧
      DiskList.filesize largeSizes (rootSlot 0) = -2147483648 ∧ sizeField largeSizes (rootSlot 0) = 2147483648 ∧
      ¬ SizesExact largeSizes (rootSlot 0) := by
  refine ⟨by decide +kernel, by decide +kernel, by decide +kernel, by decide +kernel, fun exact => ?_⟩
  have wrapped : DiskList.filesize largeSizes (rootSlot 0) ≠ (sizeField largeSizes (rootSlot 0) : Nat) := by
    decide +kernel
  exact wrapped exact.file

end CSC360.Disk
