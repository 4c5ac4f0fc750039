import CSC360.Disk.DiskInfo

/-!
# The readers of the FAT

`get_FAT_entry` and `get_free_space_FAT_entry` undo the packing of a 12-bit table as
long as `3 * n` fits an `int` (`reading_undoes_packing`). diskinfo has both readers,
with two base addresses: the walk's is computed from the header, the free-space
scan's is a constant. They read one table exactly when the header's product is that
constant (`one_fat_iff`).
-/

namespace CSC360.Disk
open CSC360.Base Packed12

/-- The image has the table at offset `base`. -/
structure HoldsTable (p : Image) (base : Nat) (table : List UInt8) : Prop where
  inside : base + table.length ≤ p.size
  bytes : ∀ a, a < table.length → p.byteAt (base + a) = bytesOf table a

/-- A reader of the table at `base` gives back the entries of a packed list. When an
entry has been replaced in the packed bytes, it gives the new value there and the old
ones at all other indices. -/
structure ReadsBack (base : Nat) (read : Image → Nat → Except Fault Nat) (E : List (BitVec 12)) : Prop where
  reads : ∀ p n (lt : n < E.length), HoldsTable p base (pack E) → read p n = .ok E[n].toNat
  replaced : ∀ p n m v (lt : n < E.length), m < E.length → HoldsTable p base (replace (pack E) m v) →
    read p n = .ok (if n = m then v.toNat else E[n].toNat)

variable {p : Image} {base n : Nat} {table : List UInt8} {E : List (BitVec 12)}

/-- Reading an entry whose two bytes lie in the table. -/
theorem HoldsTable.getFATEntry (holds : HoldsTable p base table) (small : 3 * n < 2147483648)
    (lt : 3 * n / 2 + 1 < table.length) : p.getFATEntry base n = .ok (entry (bytesOf table) n) := by
  have inside := holds.inside
  have offset : ((base : Int) + (3 * n / 2 : Nat)).toNat = base + 3 * n / 2 := by omega
  rw [Image.getFATEntry_eq small, if_pos (by omega), offset, Image.decodeEntry_eq]
  apply congrArg Except.ok
  apply entry_congr
  · exact holds.bytes _ (by omega)
  · exact holds.bytes _ lt

theorem readsBack (fits : E.length ≤ 715827883) (base : Nat) : ReadsBack base (fun p => p.getFATEntry base) E := by
  constructor
  · intro p n lt holds
    rw [holds.getFATEntry (by omega) (inside_pack lt), entry_pack lt]
  · intro p n m v lt inside holds
    rw [holds.getFATEntry (by omega) (by rw [length_replace]; exact inside_pack lt), entry_replace_pack inside lt]

/-- **Reading undoes packing**, for tables of up to 715827883 entries, and the two
bytes read for an entry lie in the table. -/
theorem reading_undoes_packing (fits : E.length ≤ 715827883) :
    (∀ base, ReadsBack base (fun p => p.getFATEntry base) E) ∧
      ReadsBack SECTOR_SIZE DiskInfo.getFreeSpaceFATEntry E ∧
      ∀ n, n < E.length → 0 ≤ Image.entryOffset n ∧ Image.entryOffset n + 2 ≤ (pack E).length := by
  refine ⟨readsBack fits, readsBack fits SECTOR_SIZE, fun n lt => ?_⟩
  have inside := inside_pack lt
  rw [Image.entryOffset_eq (by omega)]
  omega

/-- Three entries. -/
theorem reading_undoes_packing_three :
    (∀ base, ReadsBack base (fun p => p.getFATEntry base) [0xFF0, 0x003, 0xFFF]) ∧
      ReadsBack SECTOR_SIZE DiskInfo.getFreeSpaceFATEntry [0xFF0, 0x003, 0xFFF] ∧
      ∀ n, n < 3 → 0 ≤ Image.entryOffset n ∧ Image.entryOffset n + 2 ≤ (pack [0xFF0, 0x003, 0xFFF]).length :=
  reading_undoes_packing (E := [0xFF0, 0x003, 0xFFF]) (by decide)

/-- The image that consists of the bytes. -/
def Image.ofBytes (bytes : List UInt8) : Image := ⟨bytes.length, bytes.get⟩

theorem holdsTable_ofBytes (table : List UInt8) : HoldsTable (.ofBytes table) 0 table where
  inside := Nat.le_of_eq (Nat.zero_add _)
  bytes a lt := by
    have inside : a < (Image.ofBytes table).size := lt
    unfold Image.byteAt bytesOf
    rw [Nat.zero_add, dif_pos inside, List.getD_eq_getElem _ _ lt]
    rfl

/-- With one entry more, the index of the last entry wraps and the read is out of the table. -/
theorem index_wraps :
    (715827883 < (List.replicate 715827884 (0 : BitVec 12)).length ∧
      HoldsTable (.ofBytes (pack (List.replicate 715827884 0))) 0 (pack (List.replicate 715827884 0))) ∧
      (Image.ofBytes (pack (List.replicate 715827884 0))).getFATEntry 0 715827883 =
        .error (.outside (-1073741823)) := by
  refine ⟨⟨?_, holdsTable_ofBytes _⟩, ?_⟩
  · rw [List.length_replicate]
    decide
  · have offset : Image.entryOffset 715827883 = -1073741823 := by decide +kernel
    unfold Image.getFATEntry
    rw [offset]
    exact if_neg (by omega)

/-! ## One FAT -/

/-- On every image with these two header fields, diskinfo's free-space scan and its walk
read the same entries. -/
def OneFat (bytesPerSector reservedSectors : UInt16) : Prop :=
  ∀ p : Image, p.word 11 = bytesPerSector.toNat → p.word 14 = reservedSectors.toNat → ∀ n,
    (DiskInfo.getFreeSpaceFATEntry p n).toOption = (p.getFATEntry p.fatTableLocation n).toOption

/-- An image of 40 sectors with the two fields in which, of the bytes behind them, only the first byte of
entry 32 of the table at sector 1 is not zero. -/
def marked (bytesPerSector reservedSectors : UInt16) : Image where
  size := 40 * SECTOR_SIZE
  byte a :=
    if a.val = 11 then bytesPerSector.toUInt8
    else if a.val = 12 then (bytesPerSector >>> 8).toUInt8
    else if a.val = 14 then reservedSectors.toUInt8
    else if a.val = 15 then (reservedSectors >>> 8).toUInt8
    else if a.val = 560 then 1 else 0

theorem word_of_halves (x : UInt16) : x.toUInt8.toNat + (x >>> 8).toUInt8.toNat <<< 8 = x.toNat := by
  have range := x.toNat_lt
  rw [UInt16.toNat_toUInt8, UInt16.toNat_toUInt8, UInt16.toNat_shiftRight, Nat.shiftLeft_eq, Nat.shiftRight_eq_div_pow]
  simp
  omega

theorem byteAt_marked {b r : UInt16} {a : Nat} (behind : 16 ≤ a) :
    (marked b r).byteAt a = if a = 560 then 1 else 0 := by
  unfold Image.byteAt marked
  by_cases inside : a < 40 * SECTOR_SIZE
  · simp only [dif_pos inside]
    rw [if_neg (by omega), if_neg (by omega), if_neg (by omega), if_neg (by omega)]
  · simp only [SECTOR_SIZE] at inside ⊢
    rw [dif_neg inside, if_neg (by omega)]

theorem scan_marked {b r : UInt16} : DiskInfo.getFreeSpaceFATEntry (marked b r) 32 = .ok 1 := by
  have size : (marked b r).size = 20480 := rfl
  have offset : ((SECTOR_SIZE : Nat) + (3 * 32 / 2 : Nat) : Int).toNat = 560 := rfl
  rw [DiskInfo.getFreeSpaceFATEntry, Image.getFATEntry_eq (by omega), size,
    if_pos (by simp only [SECTOR_SIZE]; omega), offset]
  unfold Image.decodeEntry
  rw [byteAt_marked (by omega), byteAt_marked (by omega)]
  rfl

/-- The walk's table is at the product of the fields, unless that wraps and lies before `p`. -/
theorem fatTableLocation_cases {b r : Nat} (bytesPerSector : p.word 11 = b) (reservedSectors : p.word 14 = r)
    (product : b * r ≤ 4294836225) :
    p.fatTableLocation = (b * r : Nat) ∨ 2147483648 ≤ b * r ∧ p.fatTableLocation = (b * r : Nat) - 4294967296 := by
  unfold Image.fatTableLocation Image.toInt32
  rw [bytesPerSector, reservedSectors, ← Int.natCast_mul]
  generalize b * r = x at product
  rcases Nat.lt_or_ge x 2147483648 with small | large
  · exact .inl (Int.bmod_eq_of_le (by omega) (by omega))
  · refine .inr ⟨large, ?_⟩
    rw [← Int.sub_bmod_right]
    exact Int.bmod_eq_of_le (by omega) (by omega)

theorem uint16_product (b r : UInt16) : b.toNat * r.toNat ≤ 4294836225 := by
  have left := b.toNat_lt
  have right := r.toNat_lt
  exact Nat.mul_le_mul (show b.toNat ≤ 65535 by omega) (show r.toNat ≤ 65535 by omega)

/-- **diskinfo uses one FAT** exactly when bytes-per-sector times reserved sectors is 512. -/
theorem one_fat_iff (bytesPerSector reservedSectors : UInt16) :
    OneFat bytesPerSector reservedSectors ↔ bytesPerSector.toNat * reservedSectors.toNat = 512 := by
  have product := uint16_product bytesPerSector reservedSectors
  constructor
  · intro same
    have field11 : (marked bytesPerSector reservedSectors).word 11 = _ := word_of_halves bytesPerSector
    have field14 : (marked bytesPerSector reservedSectors).word 14 = _ := word_of_halves reservedSectors
    have found := same _ field11 field14 32
    rw [scan_marked, Image.getFATEntry_eq (by omega)] at found
    split at found
    · rename_i inside
      have location := fatTableLocation_cases field11 field14 product
      obtain ⟨o, at'⟩ : ∃ o : Nat, (marked bytesPerSector reservedSectors).fatTableLocation + (48 : Nat) = o :=
        Int.eq_ofNat_of_zero_le inside.1
      rw [show 3 * 32 / 2 = 48 from rfl, at'] at found
      have value := Option.some.inj found.symm
      unfold Image.decodeEntry at value
      rw [if_pos (by decide), Int.toNat_natCast, byteAt_marked (a := o) (by omega)] at value
      by_cases here : o = 560
      · omega
      · have blank : (if o = 560 then (1 : UInt8) else 0).toNat &&& 0xFF = 0 := by
          rw [if_neg here]
          rfl
        simp only [blank, Nat.shiftLeft_eq] at value
        omega
    · cases found
  · intro one p field11 field14 n
    have location : p.fatTableLocation = SECTOR_SIZE := by
      rcases fatTableLocation_cases field11 field14 product with plain | ⟨large, -⟩
      · rw [plain, one]
        rfl
      · omega
    rw [DiskInfo.getFreeSpaceFATEntry, location]

/-- With two reserved sectors the scan reads 1 where the walk reads 0. -/
theorem two_reserved_sectors :
    (marked 512 2).word 11 = 512 ∧ (marked 512 2).word 14 = 2 ∧
      DiskInfo.getFreeSpaceFATEntry (marked 512 2) 32 = .ok 1 ∧
      (marked 512 2).getFATEntry (marked 512 2).fatTableLocation 32 = .ok 0 := by
  refine ⟨by decide +kernel, by decide +kernel, scan_marked, by decide +kernel⟩

end CSC360.Disk
