import CSC360.Disk.FileCount
import CSC360.Disk.FreeSpace
import CSC360.Disk.Leaks
import CSC360.Disk.Names
import Mathlib.Order.Interval.Finset.Nat

/-!
# diskinfo's report

What `diskinfo.c` prints for a well-formed volume whose clusters are all accounted for: every
cluster lies on the chain of one directory or one file, or is marked free. **The whole report
is exact** (`report_exact`): the label is that of the last label entry, and the free size is
the data area less the chains.
-/

namespace CSC360.Disk.DiskInfo
open CSC360.Base

/-- An entry that names the volume. -/
def IsLabel (p : Image) (s : Slot) : Prop := p.attr s ≠ 0x0F ∧ p.attr s &&& 0x08 = 0x08

instance (p : Image) (s : Slot) : Decidable (IsLabel p s) := inferInstanceAs (Decidable (_ ∧ _))

/-- The name of the last label entry among the root slots in use. -/
def volumeLabel (p : Image) (n : Nat) : Option (List UInt8) :=
  ((rootSlots 0 n).filter (IsLabel p ·)).getLast?.map (DiskList.slotBytes p · 0 8)

/-- The clusters on the chains of the directories and, with `chainOf`, of the files. -/
def inUse (p : Image) (n : Nat) (tree : Forest Dir) (chainOf : Slot → List Nat) : List Nat :=
  tree.nodes.flatMap Dir.chain ++ ((scanned (rootSlots 0 n) tree).filter (LiveFile p ·)).flatMap chainOf

/-- Every cluster of the volume is on one chain or free. -/
structure Accounted (p : Image) (N n : Nat) (tree : Forest Dir) (chainOf : Slot → List Nat) : Prop where
  files : ∀ s ∈ scanned (rootSlots 0 n) tree, LiveFile p s → FatChain p N (p.flc s) (chainOf s)
  disjoint : (inUse p n tree chainOf).Nodup
  rest : ∀ c, c < N → 2 ≤ c → 31 + c < N → c ∉ inUse p n tree chainOf → p.fatEntry c = 0

variable {p : Image} {N n : Nat} {tree : Forest Dir} {chainOf : Slot → List Nat}

/-! ## The label -/

/-- The scan keeps the label it has read last. -/
theorem labelLoop_eq : ∀ {n i fuel : Nat} {label : Option (List UInt8)}, RootEnds p i n → n < fuel →
    labelLoop p fuel i label =
      .ok ((((rootSlots i n).filter (IsLabel p ·)).getLast?.map (DiskList.slotBytes p · 0 8)).or label) := by
  intro n
  induction n with
  | zero =>
    intro i fuel label ends lt
    obtain ⟨fuel, rfl⟩ : ∃ k, fuel = k + 1 := ⟨fuel - 1, by omega⟩
    have free : p.first (rootSlot i) = 0 := ends.free
    rw [labelLoop_free free ends.inside]
    rfl
  | succ n ih =>
    intro i fuel label ends lt
    obtain ⟨fuel, rfl⟩ : ∃ k, fuel = k + 1 := ⟨fuel - 1, by omega⟩
    have inside : (rootSlot i).addr + 12 ≤ p.size := by
      have := ends.inside
      simp only [rootSlot] at this ⊢
      omega
    have used : p.first (rootSlot i) ≠ 0 := ends.used 0 (by omega)
    rw [labelLoop_used used inside, ih ends.tail (by omega), rootSlots_succ]
    by_cases isLabel : IsLabel p (rootSlot i)
    · have here : p.attr (rootSlot i) ≠ 0x0F ∧ p.attr (rootSlot i) &&& 0x08 = 0x08 := isLabel
      rw [if_pos here, List.filter_cons_of_pos (by simpa using isLabel), List.getLast?_cons]
      cases ((rootSlots (i + 1) n).filter (IsLabel p ·)).getLast? <;> rfl
    · have here : ¬ (p.attr (rootSlot i) ≠ 0x0F ∧ p.attr (rootSlot i) &&& 0x08 = 0x08) := isLabel
      rw [if_neg here, List.filter_cons_of_neg (by simpa using isLabel)]

/-! ## The free size -/

theorem fatEntry_ne_zero {c : Nat} {cs : List Nat} (chain : FatChain p N c cs) : ∀ k ∈ cs, p.fatEntry k ≠ 0 := by
  induction chain with
  | last _ _ marker =>
    intro k mem
    rw [List.mem_singleton.1 mem]
    omega
  | link _ _ _ rest ih =>
    intro k mem
    rcases List.mem_cons.1 mem with rfl | mem
    · have next := (rest.inside _ rest.start_mem).1
      omega
    · exact ih k mem

namespace Accounted

variable (wf : WellFormed p N n tree) (all : Accounted p N n tree chainOf)
include wf all

theorem chain_of_inUse {c : Nat} (mem : c ∈ inUse p n tree chainOf) : ∃ k cs, FatChain p N k cs ∧ c ∈ cs := by
  rcases List.mem_append.1 mem with inDir | inFile
  · obtain ⟨d, node, inChain⟩ := List.mem_flatMap.1 inDir
    obtain ⟨s, -, opens⟩ := wf.unfolds.entered_of_mem node
    exact ⟨_, _, opens.chain, inChain⟩
  · obtain ⟨s, file, inChain⟩ := List.mem_flatMap.1 inFile
    obtain ⟨scanned, live⟩ := List.mem_filter.1 file
    exact ⟨_, _, all.files s scanned (of_decide_eq_true live), inChain⟩

/-- The free clusters and the chains make up the data area. -/
theorem free_add_inUse : (freeClusters p N).card + (inUse p n tree chainOf).length = N - 33 := by
  have split : freeClusters p N ∪ (inUse p n tree chainOf).toFinset = Finset.Ico 2 (N - 31) := by
    ext c
    rw [Finset.mem_union, List.mem_toFinset, Finset.mem_Ico, freeClusters, Finset.mem_filter, Finset.mem_range]
    constructor
    · rintro (⟨_, low, high, _⟩ | used)
      · omega
      · obtain ⟨k, cs, chain, mem⟩ := chain_of_inUse wf all used
        have := chain.inside c mem
        omega
    · rintro ⟨low, high⟩
      by_cases used : c ∈ inUse p n tree chainOf
      · exact .inr used
      · exact .inl ⟨by omega, low, by omega, all.rest c (by omega) low (by omega) used⟩
  have apart : Disjoint (freeClusters p N) (inUse p n tree chainOf).toFinset := by
    rw [Finset.disjoint_left]
    intro c isFree used
    obtain ⟨k, cs, chain, mem⟩ := chain_of_inUse wf all (List.mem_toFinset.1 used)
    exact fatEntry_ne_zero chain c mem (Finset.mem_filter.1 isFree).2.2.2
  rw [← List.toFinset_card_of_nodup all.disjoint, ← Finset.card_union_of_disjoint apart, split, Nat.card_Ico]
  omega

end Accounted

/-! ## The report -/

/-- The header's numbers are those of the layout. -/
theorem fatVolume (layout : Layout p N) (total : p.word 19 = N) : FatVolume p N (3 * (N - 31) / 2 + 1) where
  bytesPerSector := layout.bytesPerSector
  reservedSectors := layout.reservedSectors
  totalSectors := total
  inside := by
    have size := layout.size
    have sectors := layout.sectors
    simp only [SECTOR_SIZE] at size ⊢
    omega
  long := by omega

theorem totalDiskSize_eq (layout : Layout p N) (total : p.word 19 = N) : totalDiskSize p = (N * SECTOR_SIZE : Nat) := by
  have range := Image.word_lt (p := p) (a := 19)
  rw [totalDiskSize, layout.bytesPerSector, total, Image.toInt32, Int.bmod_eq_of_le (by omega) (by omega)]
  simp only [SECTOR_SIZE]
  omega

/-- **diskinfo's report is exact.** -/
theorem report_exact (wf : WellFormed p N n tree) (total : p.word 19 = N)
    (low : ∀ d ∈ tree.nodes, ∀ c ∈ d.chain, c ≤ 0xFF0) (all : Accounted p N n tree chainOf) :
    Settles (main p) (.ok {
      osName := (List.range 8).map fun i => p.byteAt (i + 3)
      diskLabel := volumeLabel p n
      totalSize := (N * SECTOR_SIZE : Nat)
      freeSize := ((N - 33 - (inUse p n tree chainOf).length) * SECTOR_SIZE : Nat)
      files := (scanned (rootSlots 0 n) tree).countP (LiveFile p ·)
      numFatCopies := (p.byteAt 16).toNat
      sectorsPerFAT := p.word 22 }) := by
  obtain ⟨bound, files⟩ := printNumOfFiles_wellFormed wf low
  have label : ∀ fuel, n < fuel → printDiskLabel p fuel = .ok (volumeLabel p n) := fun fuel lt => by
    rw [printDiskLabel, labelLoop_eq wf.ends lt, Option.or_none]
    rfl
  have free := all.free_add_inUse wf
  have count := (fatVolume wf.layout total).count
  refine ⟨max bound (n + 1), fun fuel le => ?_⟩
  rw [main, label fuel (by omega), ok_bind, count, ok_bind, files fuel (by omega), ok_bind,
    totalDiskSize_eq wf.layout total, ← free, Nat.add_sub_cancel, Nat.mul_comm SECTOR_SIZE]
  rfl

/-- A volume of 40 sectors: a label, a directory `D` at cluster 2 with a file `B` at cluster 5,
and a file `A` at the clusters 3 and 4. -/
def accountedVolume : Image :=
  .sparse 40 (headerBytes 40 ++ [(515, 0xFF), (516, 0x4F), (518, 0xFF), (519, 0xFF), (520, 0xFF)] ++
    entryBytes 9728 [0x4C] 0x08 0 ++ entryBytes 9760 [0x44] 0x10 2 ++ entryBytes 9792 [0x41] 0x20 3 ++
    entryBytes 16896 [0x2E] 0x10 2 ++ entryBytes 16928 [0x2E, 0x2E] 0x10 0 ++ entryBytes 16960 [0x42] 0x20 5)

/-- Its directory tree. -/
def accountedTree : Forest Dir := .cons ⟨rootSlot 1, [2]⟩ .nil .nil

/-- The chains of its files. -/
def accountedChain (s : Slot) : List Nat := if s = rootSlot 2 then [3, 4] else [5]

theorem accountedVolume_wellFormed : WellFormed accountedVolume 40 3 accountedTree where
  layout := by decide +kernel
  ends := by decide +kernel
  fits := by decide
  noDot := by decide +kernel
  unfolds := by decide +kernel
  disjoint := by decide
  blank d mem := by
    obtain rfl := List.mem_singleton.1 mem
    exact (usedThenBlank_sparse 3 16992 17408 (by decide +kernel)).blankAfterFree

theorem accountedVolume_accounted : Accounted accountedVolume 40 3 accountedTree accountedChain where
  files := by decide +kernel
  disjoint := by decide +kernel
  rest := by decide +kernel

/-- Four of its seven data clusters are in use. -/
theorem report_exact_accounted :
    Settles (main accountedVolume) (.ok ⟨List.replicate 8 0, some [0x4C, 0x20, 0x20, 0x20, 0x20, 0x20, 0x20, 0x20],
      20480, 1536, 2, 0, 0⟩) := by
  have report := report_exact accountedVolume_wellFormed (by decide +kernel) (by decide +kernel) accountedVolume_accounted
  have used : (inUse accountedVolume 3 accountedTree accountedChain).length = 4 := by decide +kernel
  have files : (scanned (rootSlots 0 3) accountedTree).countP (LiveFile accountedVolume ·) = 2 := by decide +kernel
  have label : volumeLabel accountedVolume 3 = some [0x4C, 0x20, 0x20, 0x20, 0x20, 0x20, 0x20, 0x20] := by
    decide +kernel
  have osName : ((List.range 8).map fun i => accountedVolume.byteAt (i + 3)) = List.replicate 8 0 := by
    decide +kernel
  have copies : (accountedVolume.byteAt 16).toNat = 0 := by decide +kernel
  have sectors : accountedVolume.word 22 = 0 := by decide +kernel
  rw [used, files, label, osName, copies, sectors] at report
  exact report

end CSC360.Disk.DiskInfo
