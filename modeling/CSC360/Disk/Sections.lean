import CSC360.Disk.BoundedPaths
import CSC360.Disk.FileCount
import CSC360.Disk.Lines

/-!
# disklist's sections on well-formed volumes

The output of `print_entire_image` on a well-formed volume, headers' text aside:
the root section, then for every live directory entry, in on-disk order and
recursively, one section with one line per live entry (`sections`).

Three conditions on directories are those of the code. Chains use cluster numbers
up to `0xff0`, where the chain loops stop. A slot that ends a listing is blank
like the slots after it: the second loop of `parse_sub` does not stop at a `0x00`
slot and would enter a directory behind it. The directory clusters whose 16 slots
are all in use are not the volume's last sector: `print_directory` tests `temp[0]`
before `temp - path`, so it reads the byte after such a cluster. A fourth condition is on
the path buffers, in which the names of each root directory's tree must fit.
-/

namespace CSC360.Disk.DiskList
open CSC360.Base

variable {p : Image} {N n : Nat} {tree : Forest Dir}

/-- The line of a live entry. -/
def liveLine (p : Image) (s : Slot) : List Item :=
  if LiveFile p s then [fileLine p s] else if LiveDir p s then [dirLine p s] else []

/-- The sections of the directories of a forest, header text left out. -/
def sections (p : Image) : Forest Dir → List Item
  | .nil => []
  | .cons d kids rest => .header [] :: d.slots.flatMap (liveLine p) ++ sections p kids ++ sections p rest

/-- The root directory as the listing needs it: its last sector is free, no slot
after the terminator is in use, and the header's limit covers the slots in use. -/
structure RootListed (p : Image) (n : Nat) : Prop where
  few : n ≤ 208
  blank : ∀ j, n < j → j < 224 → Blank p (rootSlot j)
  limit : n ≤ maxRootEntries p

/-- The directories as the listing needs them. -/
structure DirsListed (p : Image) (N : Nat) (tree : Forest Dir) : Prop where
  low : ∀ d ∈ tree.nodes, ∀ c ∈ d.chain, c ≤ 0xFF0
  blank : ∀ d ∈ tree.nodes, ∀ s ∈ d.slots, p.first s = 0 → Blank p s
  notLast : ∀ d ∈ tree.nodes, ∀ c ∈ d.chain, 32 + c < N ∨ ∃ s ∈ clusterSlots c, p.first s = 0

theorem entryLine_eq (s : Slot) : entryLine p s = liveLine p s := by
  rw [entryLine, liveLine]
  cases isKind : p.kind s with
  | skip =>
    rw [if_neg (mt kind_eq_file.2 (by simp [isKind])), if_neg (mt kind_eq_dir.2 (by simp [isKind]))]
  | file => rw [if_pos (kind_eq_file.1 isKind)]
  | dir => rw [if_neg (mt kind_eq_file.2 (by simp [isKind])), if_pos (kind_eq_dir.1 isKind)]

theorem sections_eq (f : Forest Dir) :
    sections p f = f.nodes.flatMap fun d => .header [] :: d.slots.flatMap (liveLine p) := by
  induction f with
  | nil => rfl
  | cons d kids rest ihKids ihRest =>
    rw [sections, ihKids, ihRest, Forest.nodes, List.flatMap_cons, List.flatMap_append]
    simp only [List.append_assoc]

/-! ## Free slots -/

theorem liveLine_blank {s : Slot} (blank : Blank p s) : liveLine p s = [] := by
  have flc : p.flc s = 0 := by
    have lo := blank 26 (by omega)
    have hi := blank 27 (by omega)
    rw [Image.flc, Image.word, lo, Nat.add_assoc, hi]
    rfl
  have notFile : ¬ LiveFile p s := fun live => by have := live.cluster; omega
  have notDir : ¬ LiveDir p s := fun live => by have := live.cluster; omega
  rw [liveLine, if_neg notFile, if_neg notDir]

/-- From the first `0x00` slot on, all slots are blank: the used slots have all the lines. -/
theorem lines_usedSlots {ss : List Slot} (after : BlankAfterFree p ss)
    (here : ∀ s ∈ ss, p.first s = 0 → Blank p s) :
    (usedSlots p ss).flatMap (liveLine p) = ss.flatMap (liveLine p) := by
  induction ss with
  | nil => rfl
  | cons s ss ih =>
    obtain ⟨behind, after⟩ := List.pairwise_cons.1 after
    by_cases free : p.first s = 0
    · have none : ∀ t ∈ s :: ss, liveLine p t = [] := by
        intro t mem
        rcases List.mem_cons.1 mem with rfl | mem
        · exact liveLine_blank (here t (by simp) free)
        · exact liveLine_blank (behind t mem free)
      rw [usedSlots_cons_free free, List.flatMap_nil, eq_comm, List.flatMap_eq_nil_iff]
      exact none
    · rw [usedSlots_cons_used free, List.flatMap_cons, List.flatMap_cons,
        ih after fun t mem => here t (List.mem_cons_of_mem _ mem)]

/-- A directory's section has the lines of all its slots. -/
theorem lines_usedOf {d : Dir} (after : BlankAfterFree p d.slots)
    (here : ∀ s ∈ d.slots, p.first s = 0 → Blank p s) :
    (usedOf p d).flatMap (liveLine p) = d.slots.flatMap (liveLine p) := by
  have cluster : ∀ c ∈ d.chain, (usedSlots p (clusterSlots c)).flatMap (liveLine p) =
      (clusterSlots c).flatMap (liveLine p) := by
    intro c mem
    apply lines_usedSlots
    · exact (List.pairwise_flatMap.1 after).1 c mem
    · exact fun s inCluster => here s (List.mem_flatMap.2 ⟨c, mem, inCluster⟩)
  rw [usedOf, Dir.slots, List.flatMap_assoc, List.flatMap_assoc]
  exact List.flatMap_congr cluster

/-! ## The root section -/

/-- The listing of root sectors ends at a sector that begins with `0x00`. -/
theorem rootSectors_length_le : ∀ {left a k : Nat}, p.byteAt (a + SECTOR_SIZE * k) = 0 →
    (rootSectors p left a).length ≤ k := by
  intro left
  induction left with
  | zero => intro a k _; simp [rootSectors]
  | succ left ih =>
    intro a k free
    rw [rootSectors]
    split
    · simp
    · rename_i used
      cases k with
      | zero => exact absurd free used
      | succ k =>
        rw [List.length_cons]
        refine Nat.succ_le_succ (ih ?_)
        rwa [Nat.add_assoc, Nat.add_comm SECTOR_SIZE, ← Nat.mul_succ]

theorem mem_rootSectors : ∀ {left a b : Nat}, b ∈ rootSectors p left a →
    ∃ j, j < (rootSectors p left a).length ∧ b = a + SECTOR_SIZE * j := by
  intro left
  induction left with
  | zero => intro a b mem; simp [rootSectors] at mem
  | succ left ih =>
    intro a b mem
    rw [rootSectors] at mem ⊢
    split at mem
    · simp at mem
    · rename_i used
      rw [if_neg used]
      rcases List.mem_cons.1 mem with rfl | mem
      · exact ⟨0, by simp, by simp⟩
      · obtain ⟨j, lt, rfl⟩ := ih mem
        exact ⟨j + 1, by simpa using lt, by rw [Nat.mul_succ]; omega⟩

/-- At most 13 root sectors are listed, none of them after the terminator's. -/
theorem rootSectors_few (ends : RootEnds p 0 n) (root : RootListed p n) :
    (rootSectors p 19 (SECTOR_SIZE * 19)).length ≤ (n + 15) / 16 := by
  have few := root.few
  have addr : SECTOR_SIZE * 19 + SECTOR_SIZE * ((n + 15) / 16) = (rootSlot (16 * ((n + 15) / 16))).addr := by
    simp only [rootSlot, SECTOR_SIZE]
    omega
  apply rootSectors_length_le
  rw [addr]
  rcases Nat.lt_or_ge n (16 * ((n + 15) / 16)) with lt | ge
  · exact root.blank _ lt (by omega) 0 (by omega)
  · have free := ends.free
    rwa [Nat.zero_add, show n = 16 * ((n + 15) / 16) by omega] at free

theorem liveLine_dotted {s : Slot} (noDot : p.first s ≠ 0x2E) : liveLine p (dotted s) = liveLine p s := by
  have file : LiveFile p (dotted s) ↔ LiveFile p s :=
    ⟨fun h => ⟨h.notDeleted, fun isDot => noDot isDot.2, h.notLongName, h.notLabel, h.notDir, h.cluster⟩,
      fun h => ⟨h.notDeleted, fun isDot => noDot isDot.2, h.notLongName, h.notLabel, h.notDir, h.cluster⟩⟩
  have dir : LiveDir p (dotted s) ↔ LiveDir p s :=
    ⟨fun h => ⟨h.notDeleted, fun isDot => noDot isDot.2, h.notLongName, h.notLabel, h.isDir, h.cluster⟩,
      fun h => ⟨h.notDeleted, fun isDot => noDot isDot.2, h.notLongName, h.notLabel, h.isDir, h.cluster⟩⟩
  simp only [liveLine, file, dir]
  rfl

/-- The root section has the lines of the root slots in use. -/
theorem lines_usedRoot (ends : RootEnds p 0 n) (noDot : ∀ s ∈ rootSlots 0 n, p.first s ≠ 0x2E)
    (root : RootListed p n) :
    (usedRoot p).flatMap (liveLine p) = (rootSlots 0 n).flatMap (liveLine p) := by
  have few := root.few
  have short := rootSectors_few ends root
  have nothing : (rootSectors p 19 (SECTOR_SIZE * 19)).drop (n / 16 + 1) = [] :=
    List.drop_eq_nil_of_le (by omega)
  have all : (rootSlots 0 n).take 304 = rootSlots 0 n := by
    rw [rootSlots_take, Nat.min_eq_left (by omega)]
  rw [usedRoot_split ends, nothing, all, List.flatMap_nil, List.append_nil, List.flatMap_map]
  exact List.flatMap_congr fun s mem => liveLine_dotted (noDot s mem)

/-! ## The whole output -/

/-- With path buffers of these sizes the run terminates, and its output is the root section followed
by the sections of the tree; the directory entries with a line are those with a section. -/
def SectionsExact (b : PathBuffers) (p : Image) (n : Nat) (tree : Forest Dir) : Prop :=
  (∃ out, Settles (printEntireImageIn b p) (.ok out) ∧
    skeleton out = .root :: (rootSlots 0 n).flatMap (liveLine p) ++ sections p tree) ∧
  ((scanned (rootSlots 0 n) tree).filter (LiveDir p ·)).Perm (tree.nodes.map Dir.entry)

/-- The scan of the root directory comes to all slots in use. -/
theorem RootListed.scan (root : RootListed p n) (ends : RootEnds p 0 n) : RootScan p 0 (maxRootEntries p) n := by
  refine ⟨ends.used, ?_, ends.inside⟩
  rcases Nat.lt_or_ge n (maxRootEntries p) with lt | ge
  · exact .inr ⟨lt, ends.free⟩
  · exact .inl (Nat.le_antisymm root.limit ge)

/-- **disklist lists every directory once, in pre-order, with its entries.** -/
theorem sections_exact (b : PathBuffers) (wf : WellFormed p N n tree) (root : RootListed p n)
    (dirs : DirsListed p N tree) (fit : PathsFit b p tree) : SectionsExact b p n tree := by
  have size := wf.layout.size
  have sectors := wf.layout.sectors
  have few := root.few
  have short := rootSectors_few wf.ends root
  have scan := root.scan wf.ends
  have walk := wf.walk dirs.low
  have listable : ∀ d ∈ tree.nodes, ∀ c ∈ d.chain, Listable p (clusterAddr c) := by
    intro d node c mem
    refine ⟨cluster_inside size (wf.chain_inside node c mem).2, ?_⟩
    rcases dirs.notLast d node c mem with next | free
    · have behind := cluster_inside (c := c + 1) size (by omega)
      have later : clusterAddr (c + 1) = clusterAddr c + 512 := Nat.succ_mul (31 + c) SECTOR_SIZE
      exact .inr (by omega)
    · exact .inl free
  have rootListable : ∀ b ∈ rootSectors p 19 (SECTOR_SIZE * 19), Listable p b := by
    intro b mem
    obtain ⟨j, lt, rfl⟩ := mem_rootSectors mem
    simp only [SECTOR_SIZE] at size short lt ⊢
    exact ⟨by omega, .inr (by omega)⟩
  have inside : (rootSectors p 19 (SECTOR_SIZE * 19)).length < 19 →
      SECTOR_SIZE * 19 + SECTOR_SIZE * (rootSectors p 19 (SECTOR_SIZE * 19)).length + 1 ≤ p.size := by
    intro _
    simp only [SECTOR_SIZE] at size short ⊢
    omega
  obtain ⟨bound, run⟩ := printEntireImage_settles scan walk wf.readable listable rootListable inside
  refine ⟨⟨_, ⟨bound, fun fuel le => (printEntireImageIn_iff scan walk (run fuel le) b).2 fit⟩, ?_⟩, ?_⟩
  · have lines : entryLine p = liveLine p := funext entryLine_eq
    have each : ∀ d ∈ tree.nodes, (.header [] :: (usedOf p d).flatMap (liveLine p)) =
        (Item.header [] :: d.slots.flatMap (liveLine p)) := fun d node => by
      rw [lines_usedOf (wf.blank d node) (dirs.blank d node)]
    rw [skeleton_output, lines, lines_usedRoot wf.ends wf.noDot root, sections_eq, List.flatMap_congr each]
  · exact wf.unfolds.entered_perm (fun opens => ⟨opens.entry, opens.entry ▸ opens.live⟩) id

theorem sections_exact_sample : SectionsExact ⟨24, 24⟩ sampleVolume 4 sampleTree := by
  have free : ∀ b ∈ sampleBytes, b.1 < 9856 ∨ 16896 ≤ b.1 := by decide +kernel
  refine sections_exact ⟨24, 24⟩ sampleVolume_wellFormed ⟨by decide, ?_, by decide +kernel⟩ ?_ (by decide +kernel)
  · intro j above inRoot
    apply blank_sparse free
    · simp only [rootSlot, SECTOR_SIZE]; omega
    · simp only [rootSlot, SECTOR_SIZE]; omega
  · exact ⟨by decide +kernel, fun d mem => (sampleVolume_usedThenBlank d mem).blank, by decide +kernel⟩

/-! ## Volumes on which a condition fails -/

/-- Only the first root slot of a sparse volume is in use. -/
theorem rootListed_sparse {bytes : List (Nat × UInt8)} (free : ∀ b ∈ bytes, b.1 < 9760 ∨ 16896 ≤ b.1)
    (limit : 1 ≤ maxRootEntries (.sparse N bytes)) : RootListed (.sparse N bytes) 1 where
  few := by decide
  blank j above inRoot := by
    apply blank_sparse free
    · simp only [rootSlot, SECTOR_SIZE]; omega
    · simp only [rootSlot, SECTOR_SIZE]; omega
  limit := limit

/-- A volume with a directory at cluster 2 whose first slot is free but names the
directory at cluster 3. -/
def freeDir : Image :=
  .sparse 40 (headerBytes 40 ++ [(515, 0xFF), (516, 0xFF), (517, 0xFF)] ++ entryBytes 9728 [0x44] 0x10 2 ++
    entryBytes 16896 [0x00] 0x10 3)

/-- Its directory tree, the free slot's directory included. -/
def freeDirTree : Forest Dir := .cons ⟨rootSlot 0, [2]⟩ (.cons ⟨⟨16896, true⟩, [3]⟩ .nil .nil) .nil

theorem freeDir_wellFormed : WellFormed freeDir 40 1 freeDirTree where
  layout := by decide +kernel
  ends := by decide +kernel
  fits := by decide
  noDot := by decide +kernel
  unfolds := by decide +kernel
  disjoint := by decide
  blank d mem := by
    simp only [freeDirTree, Forest.nodes, List.append_nil, List.mem_cons, List.not_mem_nil, or_false] at mem
    rcases mem with rfl | rfl
    · decide +kernel
    · apply UsedThenBlank.blankAfterFree
      exact usedThenBlank_sparse 0 17408 17920 (by decide +kernel)

/-- A volume with a full directory at cluster 8, its last sector. -/
def lastDir : Image :=
  .sparse 40 (headerBytes 40 ++ [(524, 0xFF), (525, 0x0F)] ++ entryBytes 9728 [0x44] 0x10 8 ++
    (List.range 16).map fun i => (19968 + 32 * i, 0xE5))

/-- Its directory tree. -/
def lastDirTree : Forest Dir := .cons ⟨rootSlot 0, [8]⟩ .nil .nil

theorem lastDir_wellFormed : WellFormed lastDir 40 1 lastDirTree where
  layout := by decide +kernel
  ends := by decide +kernel
  fits := by decide
  noDot := by decide +kernel
  unfolds := by decide +kernel
  disjoint := by decide
  blank := by decide +kernel

/-- Where the run on it ends, and what it has printed. -/
def lastDirStop : Stop :=
  ⟨.outside lastDir.size, [.root, dirLine lastDir (rootSlot 0), .newline, .header [0x44, 0x2F]]⟩

/-- A volume with one root directory, at cluster 2, in it one at cluster 3 and in that one one at cluster 4.
Their names have eight letters. -/
def deepDir : Image :=
  .sparse 40 (headerBytes 40 ++ [(515, 0xFF), (516, 0xFF), (517, 0xFF), (518, 0xFF), (519, 0x0F)] ++
    entryBytes 9728 (List.replicate 8 0x41) 0x10 2 ++ entryBytes 16896 (List.replicate 8 0x42) 0x10 3 ++
    entryBytes 17408 (List.replicate 8 0x43) 0x10 4)

/-- Its directory tree. -/
def deepTree : Forest Dir :=
  .cons ⟨rootSlot 0, [2]⟩ (.cons ⟨⟨16896, true⟩, [3]⟩ (.cons ⟨⟨17408, true⟩, [4]⟩ .nil .nil) .nil) .nil

theorem deepDir_usedThenBlank : ∀ d ∈ deepTree.nodes, UsedThenBlank deepDir d.slots := by
  intro d mem
  simp only [deepTree, Forest.nodes, List.append_nil, List.mem_cons, List.not_mem_nil, or_false] at mem
  rcases mem with rfl | rfl | rfl
  · exact usedThenBlank_sparse 1 16928 17408 (by decide +kernel)
  · exact usedThenBlank_sparse 1 17440 17920 (by decide +kernel)
  · exact usedThenBlank_sparse 0 17920 18432 (by decide +kernel)

theorem deepDir_wellFormed : WellFormed deepDir 40 1 deepTree where
  layout := by decide +kernel
  ends := by decide +kernel
  fits := by decide
  noDot := by decide +kernel
  unfolds := by decide +kernel
  disjoint := by decide
  blank d mem := (deepDir_usedThenBlank d mem).blankAfterFree

theorem deepDir_dirsListed : DirsListed deepDir 40 deepTree :=
  ⟨by decide +kernel, fun d mem => (deepDir_usedThenBlank d mem).blank, by decide +kernel⟩

/-- A run with large buffers that settles otherwise does not have the sections of the tree. -/
theorem not_sectionsExact {r : Except Stop (List Item)} (settles : Settles (printEntireImage p) r)
    (differs : r.map skeleton ≠ .ok (.root :: (rootSlots 0 n).flatMap (liveLine p) ++ sections p tree))
    (b : PathBuffers) : ¬ SectionsExact b p n tree := by
  rintro ⟨⟨out, ⟨bound, run⟩, shown⟩, _⟩
  have settles' : Settles (printEntireImage p) (.ok out) := ⟨bound, fun fuel le => printEntireImageIn_ok (run fuel le)⟩
  rw [settles.unique settles', Except.map, shown] at differs
  exact differs rfl

/-- The paths of a listing that is exact fit. -/
theorem SectionsExact.fit {b : PathBuffers} (wf : WellFormed p N n tree) (root : RootListed p n)
    (low : ∀ d ∈ tree.nodes, ∀ c ∈ d.chain, c ≤ 0xFF0) (exact : SectionsExact b p n tree) : PathsFit b p tree := by
  obtain ⟨⟨out, ⟨bound, run⟩, _⟩, _⟩ := exact
  have returns := run bound (Nat.le_refl bound)
  exact (printEntireImageIn_iff (root.scan wf.ends) (wf.walk low) (printEntireImageIn_ok returns) b).1 returns

/-- **Each condition is needed**: the section of cluster `0xFF1` is empty, the directory behind the free
slot has a section but no line, the listing of the full last sector reads the byte after the image, and
the names of three nested directories do not fit into 24 bytes. -/
theorem sections_differ :
    (WellFormed DiskInfo.highChain 4113 1 DiskInfo.highTree ∧ RootListed DiskInfo.highChain 1 ∧
      ∀ b, ¬ SectionsExact b DiskInfo.highChain 1 DiskInfo.highTree) ∧
    (WellFormed freeDir 40 1 freeDirTree ∧ RootListed freeDir 1 ∧ ∀ b, ¬ SectionsExact b freeDir 1 freeDirTree) ∧
    (WellFormed lastDir 40 1 lastDirTree ∧ RootListed lastDir 1 ∧
      Settles (printEntireImage lastDir) (.error lastDirStop) ∧
      ∀ b, ¬ SectionsExact b lastDir 1 lastDirTree) ∧
    (WellFormed deepDir 40 1 deepTree ∧ RootListed deepDir 1 ∧ DirsListed deepDir 40 deepTree ∧
      ∀ b, b.dirPath ≤ 24 → ¬ SectionsExact b deepDir 1 deepTree) := by
  have high : Settles (printEntireImage DiskInfo.highChain) (.ok _) := .of_add 1 fun _ => rfl
  have free : Settles (printEntireImage freeDir) (.ok _) := .of_add 4 fun _ => rfl
  have last : Settles (printEntireImage lastDir) (.error lastDirStop) := .of_add 1 fun _ => rfl
  have deep : RootListed deepDir 1 := rootListed_sparse (by decide +kernel) (by decide +kernel)
  refine ⟨⟨DiskInfo.highChain_wellFormed, ?_, not_sectionsExact high ?_⟩,
    ⟨freeDir_wellFormed, ?_, not_sectionsExact free ?_⟩, ⟨lastDir_wellFormed, ?_, last, not_sectionsExact last ?_⟩,
    deepDir_wellFormed, deep, deepDir_dirsListed, ?_⟩
  · exact rootListed_sparse (by decide +kernel) (by decide +kernel)
  · exact fun h => absurd (Except.ok.inj h) (by decide +kernel)
  · exact rootListed_sparse (by decide +kernel) (by decide +kernel)
  · exact fun h => absurd (Except.ok.inj h) (by decide +kernel)
  · exact rootListed_sparse (by decide +kernel) (by decide +kernel)
  · intro h
    cases h
  · intro b small exact
    have fit := exact.fit deepDir_wellFormed deep deepDir_dirsListed.low
    have long : (joined deepDir deepTree.nodes).length = 27 := by decide +kernel
    have room : (joined deepDir deepTree.nodes).length + 1 ≤ b.dirPath := fit.1.2.1
    omega

end CSC360.Disk.DiskList
