import CSC360.Disk.SameBytes
import CSC360.Disk.Volume

/-!
# File contents and the programs' output

The fixed bytes of a volume are those of the sectors before the data area (header,
FAT, root directory) and of the clusters of its directories. Every scan reads fixed
bytes as long as it stays before the first cluster that belongs to no directory.
Below a directory entry this always holds. The scans of the root directory stay
there if they meet their end in time: a `0x00` slot for the scans by slots, a
sector that begins with `0x00` for the listing by sectors.
-/

namespace CSC360.Disk
open CSC360.Base

variable {p p' : Image} {N n c₀ : Nat} {tree : Forest Dir}

/-- A volume of `N` sectors with 224 root slots, of which the first `n` are in use;
the directories below them form the tree, and dot entries lead to directories of it. Behind the sectors
the mapping is zero. -/
structure Volume (p : Image) (N n : Nat) (tree : Forest Dir) : Prop where
  layout : Layout p N
  tail : ∀ a, N * SECTOR_SIZE ≤ a → p.byteAt a = 0
  total : p.word 19 = N
  limit : DiskList.maxRootEntries p = 224
  fat : 3 * (N - 32) / 2 + 2 ≤ 18 * SECTOR_SIZE
  used : ∀ j, j < n → p.first (rootSlot j) ≠ 0
  ends : n = 224 ∨ n < 224 ∧ p.first (rootSlot n) = 0
  unfolds : Unfolds (Opens p N) (fun s => ¬ LiveDir p s) Dir.slots (rootSlots 0 n) tree
  disjoint : (tree.nodes.flatMap Dir.chain).Nodup
  dots : ∀ d ∈ tree.nodes, ∀ s ∈ d.slots, p.first s = 0x2E → LiveDir p ⟨s.addr, false⟩ →
    ∃ e ∈ tree.nodes, p.flc s = p.flc e.entry

/-- The clusters of the tree's directories. -/
def dirClusters (tree : Forest Dir) (c : Nat) : Prop := ∃ d ∈ tree.nodes, c ∈ d.chain

/-- The offsets before the data area and in the clusters of directories. -/
def fixed (tree : Forest Dir) (a : Nat) : Prop :=
  a < 33 * SECTOR_SIZE ∨ ∃ c, dirClusters tree c ∧ clusterAddr c ≤ a ∧ a < clusterAddr c + 512

/-- `c₀` is the first cluster that belongs to no directory. -/
structure FirstFree (tree : Forest Dir) (c₀ : Nat) : Prop where
  low : 2 ≤ c₀
  free : ¬ dirClusters tree c₀
  below : ∀ c, 2 ≤ c → c < c₀ → dirClusters tree c

/-- disklist's output and what diskinfo reports from the FAT and the directories are the same. -/
structure SameOutput (p p' : Image) : Prop where
  label : Agrees (DiskInfo.printDiskLabel p) (DiskInfo.printDiskLabel p')
  total : DiskInfo.totalDiskSize p = DiskInfo.totalDiskSize p'
  free : DiskInfo.countEmptyFATentries p = DiskInfo.countEmptyFATentries p'
  files : Agrees (DiskInfo.printNumOfFiles p) (DiskInfo.printNumOfFiles p')
  listing : Agrees (DiskList.printEntireImage p) (DiskList.printEntireImage p')

/-- No volume with the same fixed bytes has another output. -/
def ContentsIrrelevant (p : Image) (N n : Nat) (tree : Forest Dir) : Prop :=
  ∀ p', Volume p' N n tree → SameBytes (fixed tree) p p' → SameOutput p p'

/-- A slot before cluster `c₀`, from the root directory on, is free. -/
def SlotFree (p : Image) (c₀ : Nat) : Prop := ∃ i, i < 16 * (12 + c₀) ∧ p.first (rootSlot i) = 0

/-- The 19 sectors disklist lists at most lie before cluster `c₀`, or one of those
before it begins with `0x00`. -/
def SectorFree (p : Image) (c₀ : Nat) : Prop :=
  19 ≤ 12 + c₀ ∨ ∃ j, j < 12 + c₀ ∧ p.byteAt (SECTOR_SIZE * 19 + SECTOR_SIZE * j) = 0

/-! ## Fixed bytes -/

theorem fixed_low {a : Nat} (lt : a < 33 * SECTOR_SIZE) : fixed tree a := .inl lt

theorem covers_dirCluster {c : Nat} (dir : dirClusters tree c) :
    CoversSector (fixed tree) (clusterAddr c) := fun i lt => .inr ⟨c, dir, by omega, by omega⟩

/-- The sectors from the root directory up to the first free cluster are fixed. -/
theorem covers_sector (free : FirstFree tree c₀) {j : Nat} (lt : j < 12 + c₀) :
    CoversSector (fixed tree) (SECTOR_SIZE * 19 + SECTOR_SIZE * j) := by
  intro i below
  rcases Nat.lt_or_ge j 14 with root | data
  · exact .inl (by simp only [SECTOR_SIZE]; omega)
  · have at' : SECTOR_SIZE * 19 + SECTOR_SIZE * j = clusterAddr (j - 12) := by
      simp only [clusterAddr, SECTOR_SIZE]
      omega
    rw [at']
    exact covers_dirCluster (free.below (j - 12) (by omega) (by omega)) i below

theorem covers_rootSlot (free : FirstFree tree c₀) {i : Nat} (lt : i < 16 * (12 + c₀)) :
    Covers (fixed tree) (rootSlot i) := by
  intro k below
  have at' : (rootSlot i).addr + k = SECTOR_SIZE * 19 + SECTOR_SIZE * (i / 16) + (32 * (i % 16) + k) := by
    simp only [rootSlot, SECTOR_SIZE]
    omega
  rw [at']
  exact covers_sector free (by omega) _ (by omega)

/-! ## The closed set of directory clusters -/

theorem FatChain.start_mem {c : Nat} {cs : List Nat} (h : FatChain p N c cs) : c ∈ cs := by
  cases h <;> simp

theorem FatChain.next_mem {c : Nat} {cs : List Nat} (h : FatChain p N c cs) :
    ∀ k ∈ cs, 0xFF8 ≤ p.fatEntry k ∨ p.fatEntry k ∈ cs := by
  induction h with
  | last _ _ marker =>
    intro k mem
    rw [List.mem_singleton.1 mem]
    exact .inl marker
  | @link c cs _ _ _ rest ih =>
    intro k mem
    rcases List.mem_cons.1 mem with rfl | mem
    · exact .inr (List.mem_cons_of_mem _ rest.start_mem)
    · exact (ih k mem).imp_right (List.mem_cons_of_mem _)

namespace Volume

variable (vol : Volume p N n tree)
include vol

theorem opens_of_mem {d : Dir} (mem : d ∈ tree.nodes) : Opens p N d.entry d := by
  obtain ⟨s, _, opens⟩ := vol.unfolds.entered_of_mem mem
  rwa [opens.entry]

theorem inside_of_dirCluster {c : Nat} (dir : dirClusters tree c) : 2 ≤ c ∧ 31 + c < N := by
  obtain ⟨d, node, mem⟩ := dir
  exact (vol.opens_of_mem node).chain.inside c mem

/-- A live directory entry among the scanned slots leads to a directory of the tree. -/
theorem good_of_liveDir {s : Slot} (mem : s ∈ scanned (rootSlots 0 n) tree) (live : LiveDir p s) :
    Good (dirClusters tree) (p.flc s) := by
  obtain ⟨d, node, opens⟩ := vol.unfolds.enter_of_mem mem (fun leaf => leaf live)
  exact .inr ⟨d, node, opens.chain.start_mem⟩

theorem closed : Closed p (dirClusters tree) where
  next c dir low next entry := by
    rw [vol.layout.getFATEntry (by omega) (vol.inside_of_dirCluster dir).2] at entry
    obtain rfl := Except.ok.inj entry
    obtain ⟨d, node, mem⟩ := dir
    rcases (vol.opens_of_mem node).chain.next_mem c mem with marker | inChain
    · exact .inl (by omega)
    · exact .inr ⟨d, node, inChain⟩
  dirs c dir s mem isDir := by
    obtain ⟨d, node, inChain⟩ := dir
    refine vol.good_of_liveDir (List.mem_append_right _ ?_) (kind_eq_dir.1 isDir)
    exact List.mem_flatMap.2 ⟨d, node, List.mem_flatMap.2 ⟨c, inChain, mem⟩⟩

/-- A directory entry of a fixed root slot, or of a slot the root scans reach behind
a full root directory, leads to a directory of the tree. -/
theorem good_of_rootSlot (free : FirstFree tree c₀) {i : Nat} (lt : i < 16 * (12 + c₀))
    (reached : i < n ∨ n = 224) (isDir : p.kind (rootSlot i) = .dir) :
    Good (dirClusters tree) (p.flc (rootSlot i)) := by
  have live := kind_eq_dir.1 isDir
  by_cases root : i < n
  · refine vol.good_of_liveDir (List.mem_append_left _ ?_) live
    exact mem_rootSlots.2 ⟨i, root, by rw [Nat.zero_add]⟩
  · -- behind the full root directory: the slot of a directory's cluster
    obtain rfl := reached.resolve_left root
    obtain ⟨d, node, inChain⟩ := free.below (i / 16 - 12) (by omega) (by omega)
    have addr : (rootSlot i).addr = clusterAddr (i / 16 - 12) + 32 * (i % 16) := by
      simp only [rootSlot, clusterAddr, SECTOR_SIZE]
      omega
    have mem : ⟨(rootSlot i).addr, true⟩ ∈ d.slots := by
      rw [addr]
      exact List.mem_flatMap.2 ⟨_, inChain, mem_clusterSlots.2 ⟨i % 16, by omega, rfl⟩⟩
    by_cases isDot : p.first (rootSlot i) = 0x2E
    · obtain ⟨e, node', same⟩ := vol.dots d node _ mem isDot live
      have flc : p.flc (rootSlot i) = p.flc e.entry := same
      rw [flc]
      exact .inr ⟨e, node', (vol.opens_of_mem node').chain.start_mem⟩
    · refine vol.good_of_liveDir (s := ⟨(rootSlot i).addr, true⟩) (List.mem_append_right _ ?_) ?_
      · exact List.mem_flatMap.2 ⟨d, node, mem⟩
      · exact ⟨live.notDeleted, fun h => isDot h.2, live.notLongName, live.notLabel, live.isDir, live.cluster⟩

end Volume

/-! ## The header and the FAT -/

section System

variable (same : SameBytes (fixed tree) p p')
include same

theorem same_word {a : Nat} (lt : a + 1 < 33 * SECTOR_SIZE) : p.word a = p'.word a :=
  same.word (fixed_low (by omega)) (fixed_low lt)

theorem same_fatTableLocation : p.fatTableLocation = p'.fatTableLocation := by
  rw [Image.fatTableLocation, Image.fatTableLocation, same_word same (by simp only [SECTOR_SIZE]; omega),
    same_word same (by simp only [SECTOR_SIZE]; omega)]

theorem same_totalDiskSize : DiskInfo.totalDiskSize p = DiskInfo.totalDiskSize p' := by
  rw [DiskInfo.totalDiskSize, DiskInfo.totalDiskSize, same_word same (by simp only [SECTOR_SIZE]; omega),
    same_word same (by simp only [SECTOR_SIZE]; omega)]

theorem same_maxRootEntries : DiskList.maxRootEntries p = DiskList.maxRootEntries p' :=
  same_word same (by simp only [SECTOR_SIZE]; omega)

/-- The FAT entries of the volume's clusters are fixed. -/
theorem Volume.same_fatEntry (vol : Volume p N n tree) {c : Nat} (inside : 31 + c < N) :
    p.fatEntry c = p'.fatEntry c := by
  have fat := vol.fat
  rw [Image.fatEntry, Image.fatEntry, same_word same (by simp only [SECTOR_SIZE] at fat ⊢; omega)]

theorem Volume.same_getFATEntry (vol : Volume p N n tree) {c : Nat} (inside : 31 + c < N) :
    p.getFATEntry 512 c = p'.getFATEntry 512 c := by
  have fat := vol.fat
  simp only [SECTOR_SIZE] at fat
  apply getFATEntry_congr same.size
  intro a entry
  rw [Image.entryOffset_eq (by omega)] at entry
  exact same.byte a (fixed_low (by simp only [SECTOR_SIZE]; omega))

theorem Volume.sameClusters (vol : Volume p N n tree) :
    SameClusters (fixed tree) (dirClusters tree) p p' where
  toSameBytes := same
  covered _ := covers_dirCluster
  entry c dir _ := by
    rw [← same_fatTableLocation same, vol.layout.fatTableLocation]
    exact vol.same_getFATEntry same (vol.inside_of_dirCluster dir).2

/-- The free space is computed from fixed bytes. -/
theorem Volume.same_countEmpty (vol : Volume p N n tree) :
    DiskInfo.countEmptyFATentries p = DiskInfo.countEmptyFATentries p' := by
  have size : (DiskInfo.totalDiskSize p).tdiv SECTOR_SIZE = N := by
    have lt : p.word 19 < 65536 := Image.word_lt
    rw [DiskInfo.totalDiskSize, vol.layout.bytesPerSector, Image.toInt32, Int.bmod_eq_of_le (by omega) (by omega),
      vol.total]
    exact Int.mul_tdiv_cancel_left N (by decide)
  rw [DiskInfo.countEmptyFATentries, DiskInfo.countEmptyFATentries, ← same_totalDiskSize same, size]
  refine congrArg (fun free => free >>= _) (foldlM_congr (fun k mem free => ?_) 0)
  have lt := List.mem_range.1 mem
  rw [DiskInfo.getFreeSpaceFATEntry, DiskInfo.getFreeSpaceFATEntry]
  simp only [show ((SECTOR_SIZE : Nat) : Int) = 512 from rfl]
  rw [vol.same_getFATEntry same (by omega)]

end System

/-! ## The scans of the root directory -/

/-- The root scans by slots get to slot `i`. -/
def Reached (p : Image) (i : Nat) : Prop := ∀ j, j < i → p.first (rootSlot j) ≠ 0

theorem Reached.succ {i : Nat} (h : Reached p i) (used : p.first (rootSlot i) ≠ 0) : Reached p (i + 1) := by
  intro j lt
  rcases Nat.lt_succ_iff_lt_or_eq.1 lt with lt | rfl
  · exact h j lt
  · exact used

/-- A first byte that is the same in both images and is not 0 in one. -/
theorem used_of_read {a : Nat} {b : UInt8} (same : p.byteAt a = p'.byteAt a) (read : p'.read a = .ok b) (used : b ≠ 0) :
    p.byteAt a ≠ 0 := by
  rw [same]
  exact fun free => used ((Image.read_eq_ok.1 read).2.trans free)

section Scans

variable {r : Nat → Prop} (same : SameBytes r p p')
include same

theorem same_labelLoop (covers : ∀ i, Reached p i → Covers r (rootSlot i)) : ∀ {fuel i : Nat}, Reached p i →
    ∀ label, DiskInfo.labelLoop p fuel i label = DiskInfo.labelLoop p' fuel i label := by
  intro fuel
  induction fuel with
  | zero => intro i _ label; rfl
  | succ fuel ih =>
    intro i reached label
    have here := covers i reached
    have name : ((List.range 8).map fun j => p.byteAt ((rootSlot i).addr + j)) =
        (List.range 8).map fun j => p'.byteAt ((rootSlot i).addr + j) :=
      List.map_congr_left fun j mem => same.slotByte here (by have := List.mem_range.1 mem; omega)
    have first : r (rootSlot i).addr := here 0 (by omega)
    rw [DiskInfo.labelLoop, DiskInfo.labelLoop, same.read first, same.attr here, name]
    cases read : p'.read (rootSlot i).addr with
    | error fault => rw [error_bind, error_bind]
    | ok b =>
      rw [ok_bind, ok_bind]
      by_cases free : b = 0
      · rw [if_pos free, if_pos free]
      · have used : p.first (rootSlot i) ≠ 0 := used_of_read (same.first here) read free
        rw [if_neg free, if_neg free, same.touch, ih (reached.succ used), ih (reached.succ used)]

omit same

theorem same_rootLoop {sub sub' : Nat → Except Fault Int} (slots : ∀ i, Reached p i → SameSlot p p' (rootSlot i))
    (subs : ∀ i, Reached p (i + 1) → p.classify (rootSlot i) = .ok .dir →
      sub (p.flc (rootSlot i)) = sub' (p.flc (rootSlot i))) : ∀ {fuel i : Nat}, Reached p i →
    ∀ count, DiskInfo.rootLoop p sub fuel i count = DiskInfo.rootLoop p' sub' fuel i count := by
  intro fuel
  induction fuel with
  | zero => intro i _ count; rfl
  | succ fuel ih =>
    intro i reached count
    have here := slots i reached
    rw [DiskInfo.rootLoop, DiskInfo.rootLoop, here.read]
    cases read : p'.read (rootSlot i).addr with
    | error fault => rw [error_bind, error_bind]
    | ok b =>
      rw [ok_bind, ok_bind]
      by_cases free : b = 0
      · rw [if_pos free, if_pos free]
      · have used : p.first (rootSlot i) ≠ 0 := used_of_read here.first read free
        rw [if_neg free, if_neg free, here.countSlot (subs i (reached.succ used))]
        exact bind_congr fun count => ih (reached.succ used) count

theorem same_enterLoop {sub sub' : Nat → DiskList.Printer → Except DiskList.Stop DiskList.Printer} {limit : Nat}
    (size : p.size = p'.size) (slots : ∀ i, i < limit → Reached p i → SameSlot p p' (rootSlot i))
    (subs : ∀ i, i < limit → Reached p (i + 1) → p.classify (rootSlot i) = .ok .dir →
      sub (p.flc (rootSlot i)) = sub' (p.flc (rootSlot i))) : ∀ {left i : Nat}, left + i = limit → Reached p i →
    ∀ st, DiskList.rootLoop p sub left i st = DiskList.rootLoop p' sub' left i st := by
  intro left
  induction left with
  | zero =>
    intro i _ _ st
    -- the slot behind the limit is read but its value is not used
    rw [DiskList.rootLoop, DiskList.rootLoop, Image.read, Image.read, touch_congr size]
    unfold Image.touch
    split <;> rfl
  | succ left ih =>
    intro i total reached st
    have here := slots i (by omega) reached
    rw [DiskList.rootLoop, DiskList.rootLoop, here.read]
    cases read : p'.read (rootSlot i).addr with
    | error fault => rw [DiskList.Printer.checked, mapError_error, error_bind, error_bind]
    | ok b =>
      rw [DiskList.Printer.checked, mapError_ok, ok_bind, ok_bind]
      by_cases free : b = 0
      · rw [if_pos free, if_pos free]
      · have used : p.first (rootSlot i) ≠ 0 := used_of_read here.first read free
        have paths : p.first (rootSlot i) ≠ 0xE5 →
            ∀ st, DiskList.resetPath p st (rootSlot i) = DiskList.resetPath p' st (rootSlot i) :=
          fun kept st => by rw [DiskList.resetPath, DiskList.resetPath, here.component kept]
        rw [if_neg free, if_neg free, DiskList.enterRootSlot, DiskList.enterRootSlot,
          here.descend paths (subs i (by omega) (reached.succ used))]
        exact bind_congr fun st => ih (by omega) (reached.succ used) st

theorem same_printRoot (size : p.size = p'.size) : ∀ {left a : Nat}, (∀ j, j < left →
      (∀ i, i < j → p.byteAt (a + SECTOR_SIZE * i) ≠ 0) →
        ∀ i, i < 16 → SameSlot p p' ⟨a + SECTOR_SIZE * j + 32 * i, true⟩) →
    ∀ st, DiskList.printRoot p left a st = DiskList.printRoot p' left a st := by
  intro left
  induction left with
  | zero => intro a _ st; rfl
  | succ left ih =>
    intro a slots st
    have here : ∀ i, i < 16 → SameSlot p p' ⟨a + 32 * i, true⟩ := slots 0 (by omega) (by simp)
    have first : SameSlot p p' ⟨a, true⟩ := here 0 (by omega)
    rw [DiskList.printRoot, DiskList.printRoot, show p.read a = p'.read a from first.read]
    cases read : p'.read a with
    | error fault => rw [DiskList.Printer.checked, mapError_error, error_bind, error_bind]
    | ok b =>
      rw [DiskList.Printer.checked, mapError_ok, ok_bind, ok_bind]
      by_cases free : b = 0
      · rw [if_pos free, if_pos free]
      · have used : p.byteAt a ≠ 0 := used_of_read first.first read free
        rw [if_neg free, if_neg free, listSector_congr size here]
        refine bind_congr fun st => ih (fun j lt before => ?_) st
        have step (k : Nat) : a + SECTOR_SIZE * (k + 1) = a + SECTOR_SIZE + SECTOR_SIZE * k := by
          rw [Nat.mul_succ]
          omega
        rw [← step]
        apply slots (j + 1) (by omega)
        intro i below
        rcases i with _ | i
        · exact used
        · rw [step]
          exact before i (by omega)

end Scans

end CSC360.Disk
