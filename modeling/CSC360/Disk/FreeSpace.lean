import CSC360.Disk.FatTable
import CSC360.Disk.Volume
import Mathlib.Data.Finset.Card
import Mathlib.Data.Finset.Image

/-!
# The free size

`countEmptyFATentries` counts the free clusters of the volume, each once
(`free_size_exact`): the bound of its loop is the last cluster that has a sector.
-/

namespace CSC360.Disk.DiskInfo
open CSC360.Base Packed12

/-- A volume of `N` sectors whose first FAT has `F` bytes, enough for the entries `0` to `N - 32`. -/
structure FatVolume (p : Image) (N F : Nat) : Prop where
  bytesPerSector : p.word 11 = 512
  reservedSectors : p.word 14 = 1
  totalSectors : p.word 19 = N
  inside : SECTOR_SIZE + F ≤ p.size
  long : 3 * (N - 31) ≤ 2 * F

/-- The clusters of the volume that are marked free. -/
def freeClusters (p : Image) (N : Nat) : Finset Nat :=
  (Finset.range N).filter fun c => 2 ≤ c ∧ 31 + c < N ∧ p.fatEntry c = 0

/-- The image after entry `c` of the table at sector 1 has been replaced. -/
def setFatEntry (p : Image) (c : Nat) (v : BitVec 12) : Image where
  size := p.size
  byte a :=
    if SECTOR_SIZE ≤ a.val then setEntry (fun i => p.byteAt (SECTOR_SIZE + i)) c v (a.val - SECTOR_SIZE) else p.byte a

variable {p p' : Image} {N F c d : Nat} {v : BitVec 12}

/-! ## The loop -/

/-- The loop's bound is the number of sectors, less 31. -/
theorem sectors_eq (bytesPerSector : p.word 11 = 512) : (totalDiskSize p).tdiv SECTOR_SIZE = p.word 19 := by
  have range := Image.word_lt (p := p) (a := 19)
  unfold totalDiskSize Image.toInt32
  rw [bytesPerSector, Int.bmod_eq_of_le (by omega) (by omega)]
  exact Int.mul_tdiv_cancel_left _ (by decide)

theorem count_loop {read : Nat → Except Fault Nat} {entry : Nat → Nat} {l : List Nat}
    (reads : ∀ k ∈ l, read k = .ok (entry k)) (free : Nat) :
    l.foldlM (fun (free : Nat) k => do
      let entry ← read k
      pure (if entry = 0x00 then free + 1 else free)) free = .ok (free + l.countP fun k => entry k = 0) := by
  induction l generalizing free with
  | nil => rfl
  | cons k l ih =>
    rw [List.foldlM_cons, reads k List.mem_cons_self, ok_bind, List.countP_cons]
    refine (ih (fun i mem => reads i (List.mem_cons_of_mem _ mem)) _).trans (congrArg Except.ok ?_)
    by_cases isFree : entry k = 0
    · simp [isFree]
      omega
    · simp [isFree]

theorem card_freeClusters :
    (freeClusters p N).card = (List.range (N - 33)).countP fun k => p.fatEntry (k + 2) = 0 := by
  have shifted : freeClusters p N =
      ((Finset.range (N - 33)).filter fun k => p.fatEntry (k + 2) = 0).image (· + 2) := by
    ext c
    simp only [freeClusters, Finset.mem_filter, Finset.mem_image, Finset.mem_range]
    constructor
    · rintro ⟨-, low, high, isFree⟩
      refine ⟨c - 2, ⟨by omega, ?_⟩, by omega⟩
      rwa [Nat.sub_add_cancel low]
    · rintro ⟨k, ⟨lt, isFree⟩, rfl⟩
      exact ⟨by omega, by omega, by omega, isFree⟩
  rw [shifted, Finset.card_image_of_injective _ (add_left_injective 2), List.countP_eq_length_filter]
  rfl

theorem freeClusters_congr (same : ∀ c, 31 + c < N → p'.fatEntry c = p.fatEntry c) :
    freeClusters p' N = freeClusters p N := by
  apply Finset.filter_congr
  intro c _
  constructor
  · rintro ⟨low, high, isFree⟩
    exact ⟨low, high, same c high ▸ isFree⟩
  · rintro ⟨low, high, isFree⟩
    exact ⟨low, high, (same c high).trans isFree⟩

namespace FatVolume

variable (vol : FatVolume p N F)
include vol

/-- The bytes of an entry that the loop reads lie in the FAT. -/
theorem entry_inside (high : 31 + c < N) : 3 * c / 2 + 2 ≤ F := by
  have long := vol.long
  omega

theorem reads (high : 31 + c < N) : getFreeSpaceFATEntry p c = .ok (p.fatEntry c) := by
  have inside := vol.inside
  have here := vol.entry_inside high
  have range := Image.word_lt (p := p) (a := 19)
  rw [vol.totalSectors] at range
  have offset : ((SECTOR_SIZE : Int) + (3 * c / 2 : Nat)).toNat = SECTOR_SIZE + 3 * c / 2 := by omega
  rw [getFreeSpaceFATEntry, Image.getFATEntry_eq (by omega), if_pos (by omega), offset, decodeEntry_eq]

/-- The count. -/
theorem count : countEmptyFATentries p = .ok (SECTOR_SIZE * (freeClusters p N).card : Nat) := by
  have range := Image.word_lt (p := p) (a := 19)
  rw [vol.totalSectors] at range
  have few : (freeClusters p N).card ≤ N - 33 := by
    rw [card_freeClusters]
    exact List.countP_le_length.trans (Nat.le_of_eq List.length_range)
  have stop : (((N : Nat) : Int) - 31 - 2).toNat = N - 33 := by omega
  unfold countEmptyFATentries
  dsimp only
  rw [sectors_eq vol.bytesPerSector, vol.totalSectors, stop,
    count_loop fun k mem => vol.reads (c := k + 2) (by have := List.mem_range.1 mem; omega), ok_bind, Nat.zero_add,
    ← card_freeClusters]
  refine congrArg Except.ok ?_
  unfold Image.toInt32
  rw [Int.bmod_eq_of_le (by simp only [SECTOR_SIZE]; omega) (by simp only [SECTOR_SIZE]; omega), Nat.mul_comm]
  rfl

/-! ## The bytes that matter -/

/-- An entry is read from the FAT. -/
theorem fatEntry_congr (same : ∀ a, a < F → p'.byteAt (SECTOR_SIZE + a) = p.byteAt (SECTOR_SIZE + a))
    (high : 31 + c < N) : p'.fatEntry c = p.fatEntry c := by
  have here := vol.entry_inside high
  rw [fatEntry_eq, fatEntry_eq]
  apply entry_congr
  · exact same _ (by omega)
  · exact same _ (by omega)

end FatVolume

/-! ## Marking a cluster -/

theorem byteAt_setFatEntry {a : Nat} (inside : SECTOR_SIZE + a < p.size) :
    (setFatEntry p c v).byteAt (SECTOR_SIZE + a) = setEntry (fun i => p.byteAt (SECTOR_SIZE + i)) c v a := by
  have here : SECTOR_SIZE + a < (setFatEntry p c v).size := inside
  rw [Image.byteAt, dif_pos here]
  show (if SECTOR_SIZE ≤ SECTOR_SIZE + a then _ else _) = _
  rw [if_pos (Nat.le_add_right _ _), Nat.add_sub_cancel_left]

/-- The header stays. -/
theorem word_setFatEntry {a : Nat} (low : a + 1 < SECTOR_SIZE) : (setFatEntry p c v).word a = p.word a := by
  have byte : ∀ b, b < SECTOR_SIZE → (setFatEntry p c v).byteAt b = p.byteAt b := by
    intro b lt
    unfold Image.byteAt setFatEntry
    simp only [if_neg (Nat.not_le_of_lt lt)]
  rw [Image.word, Image.word, byte a (by omega), byte (a + 1) low]

namespace FatVolume

variable (vol : FatVolume p N F)
include vol

theorem setFatEntry : FatVolume (setFatEntry p c v) N F where
  bytesPerSector := (word_setFatEntry (by simp only [SECTOR_SIZE]; omega)).trans vol.bytesPerSector
  reservedSectors := (word_setFatEntry (by simp only [SECTOR_SIZE]; omega)).trans vol.reservedSectors
  totalSectors := (word_setFatEntry (by simp only [SECTOR_SIZE]; omega)).trans vol.totalSectors
  inside := vol.inside
  long := vol.long

theorem fatEntry_setFatEntry (high : 31 + d < N) :
    (DiskInfo.setFatEntry p c v).fatEntry d = if d = c then v.toNat else p.fatEntry d := by
  have inside := vol.inside
  have here := vol.entry_inside high
  rw [fatEntry_eq, fatEntry_eq, ← entry_setEntry]
  apply entry_congr
  · exact byteAt_setFatEntry (by omega)
  · exact byteAt_setFatEntry (by omega)

/-- Marking a free cluster takes it out of the free ones. -/
theorem freeClusters_setFatEntry (used : v ≠ 0) :
    freeClusters (DiskInfo.setFatEntry p c v) N = (freeClusters p N).erase c := by
  ext d
  rw [Finset.mem_erase, freeClusters, freeClusters, Finset.mem_filter, Finset.mem_filter]
  constructor
  · rintro ⟨range, low, high, isFree⟩
    rw [vol.fatEntry_setFatEntry high] at isFree
    have other : d ≠ c := by
      rintro rfl
      rw [if_pos rfl] at isFree
      exact used (BitVec.eq_of_toNat_eq isFree)
    rw [if_neg other] at isFree
    exact ⟨other, range, low, high, isFree⟩
  · rintro ⟨other, range, low, high, isFree⟩
    refine ⟨range, low, high, ?_⟩
    rw [vol.fatEntry_setFatEntry high, if_neg other, isFree]

end FatVolume

/-- **The free size counts every data cluster once**: it is 512 times the number of free
clusters, it is computed from the header and the bytes of the FAT alone, and it falls by 512
when a free cluster is marked. -/
theorem free_size_exact (vol : FatVolume p N F) :
    countEmptyFATentries p = .ok (SECTOR_SIZE * (freeClusters p N).card : Nat) ∧
      (∀ c, 2 ≤ c → 31 + c < N → 0 ≤ Image.entryOffset c ∧ Image.entryOffset c + 2 ≤ F) ∧
      (∀ p', FatVolume p' N F → (∀ a, a < F → p'.byteAt (SECTOR_SIZE + a) = p.byteAt (SECTOR_SIZE + a)) →
        countEmptyFATentries p' = countEmptyFATentries p) ∧
      ∀ c ∈ freeClusters p N, ∀ v : BitVec 12, v ≠ 0 →
        ∃ r, countEmptyFATentries p = .ok r ∧ countEmptyFATentries (setFatEntry p c v) = .ok (r - SECTOR_SIZE) := by
  refine ⟨vol.count, ?_, ?_, ?_⟩
  · intro c _ high
    have here := vol.entry_inside high
    have range := Image.word_lt (p := p) (a := 19)
    rw [vol.totalSectors] at range
    rw [Image.entryOffset_eq (by omega)]
    omega
  · intro p' vol' same
    rw [vol.count, vol'.count, freeClusters_congr fun c high => vol.fatEntry_congr same high]
  · intro c mem v used
    have some := Finset.card_pos.2 ⟨c, mem⟩
    refine ⟨_, vol.count, ?_⟩
    rw [vol.setFatEntry.count, vol.freeClusters_setFatEntry used, Finset.card_erase_of_mem mem]
    apply congrArg Except.ok
    simp only [SECTOR_SIZE]
    omega

/-- The sample volume: the clusters 5 to 8 of its 40 sectors are free. -/
theorem free_size_sample :
    FatVolume sampleVolume 40 14 ∧ countEmptyFATentries sampleVolume = .ok (SECTOR_SIZE * (freeClusters sampleVolume 40).card : Nat) ∧
      (freeClusters sampleVolume 40).card = 4 := by
  have vol : FatVolume sampleVolume 40 14 := by
    constructor <;> decide +kernel
  exact ⟨vol, (free_size_exact vol).1, by decide +kernel⟩

end CSC360.Disk.DiskInfo
