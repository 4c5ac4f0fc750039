import CSC360.Disk.Count
import CSC360.Disk.Listing
import CSC360.Disk.Report
import CSC360.Disk.Sections

/-!
# What the output depends on

Where the clusters of a volume lie is not shown. `Contents` is what a volume holds without
its places on the disk: the entries of the root directory and, for every directory, its own
entry and the entries in its clusters, of each cluster number only whether it is one. **Two
images with the same contents are reported alike** (`output_of_contents`), however their
chains run: disklist prints the same lines, diskinfo counts the same files and finds the same
label. The root directory needs a free sector, for the listing reads on behind a full one.
-/

namespace CSC360.Disk
open CSC360.Base

/-- A directory entry without its place: bytes 26 and 27, the cluster number, are blotted out. -/
structure Entry where
  bytes : List UInt8
  hasCluster : Bool
  deriving DecidableEq, Repr

/-- The entry in a slot. -/
def Image.entry (p : Image) (s : Slot) : Entry where
  bytes := (List.range 32).map fun i => if i = 26 ∨ i = 27 then 0 else p.byteAt (s.addr + i)
  hasCluster := 2 ≤ p.flc s

/-- A directory: its own entry, and cluster by cluster the entries in it. -/
structure Folder where
  entry : Entry
  clusters : List (List Entry)
  deriving DecidableEq, Repr

def Dir.folder (p : Image) (d : Dir) : Folder := ⟨p.entry d.entry, d.chain.map fun c => (clusterSlots c).map p.entry⟩

/-- What a volume holds. -/
structure Contents where
  root : List Entry
  folders : Forest Folder

/-- The contents of an image with the directory tree `f`. -/
def contents (p : Image) (f : Forest Dir) : Contents where
  root := (List.range 224).map fun i => p.entry (rootSlot i)
  folders := f.map (Dir.folder p)

/-- The root directory has `n` slots in use, no more than the header allows, and a free
sector; the programs walk the tree `f`. -/
structure Holds (p : Image) (n : Nat) (f : Forest Dir) : Prop where
  ends : RootEnds p 0 n
  limit : n ≤ DiskList.maxRootEntries p
  sector : ∃ j, j < 14 ∧ p.byteAt (SECTOR_SIZE * 19 + SECTOR_SIZE * j) = 0
  walk : Walk p (rootSlots 0 n) f

/-- Runs that return report the same. -/
structure SameResults (p q : Image) : Prop where
  label {fuel fuel' : Nat} {label label' : Option (List UInt8)} : DiskInfo.printDiskLabel p fuel = .ok label →
    DiskInfo.printDiskLabel q fuel' = .ok label' → label = label'
  files {fuel fuel' : Nat} {count count' : Int} : DiskInfo.printNumOfFiles p fuel = .ok count →
    DiskInfo.printNumOfFiles q fuel' = .ok count' → count = count'
  listing {fuel fuel' : Nat} {out out' : List DiskList.Item} : DiskList.printEntireImage p fuel = .ok out →
    DiskList.printEntireImage q fuel' = .ok out' → out = out'

variable {p q : Image}

/-! ## Entries -/

section Entries

variable {s t : Slot} (same : p.entry s = q.entry t)
include same

theorem byteAt_of_entry {i : Nat} (lt : i < 32) (here : i ≠ 26 ∧ i ≠ 27) :
    p.byteAt (s.addr + i) = q.byteAt (t.addr + i) := by
  have bytes : ((List.range 32).map fun i => if i = 26 ∨ i = 27 then 0 else p.byteAt (s.addr + i)) =
      (List.range 32).map fun i => if i = 26 ∨ i = 27 then 0 else q.byteAt (t.addr + i) := congrArg Entry.bytes same
  have byte := List.map_inj_left.1 bytes i (List.mem_range.2 lt)
  rwa [if_neg (by omega), if_neg (by omega)] at byte

theorem first_of_entry : p.first s = q.first t := byteAt_of_entry (i := 0) same (by omega) (by omega)

theorem attr_of_entry : p.attr s = q.attr t := byteAt_of_entry same (by omega) (by omega)

theorem hasCluster_of_entry : 2 ≤ p.flc s ↔ 2 ≤ q.flc t := decide_eq_decide.1 (congrArg Entry.hasCluster same)

theorem word_of_entry {i : Nat} (lt : i < 25) : p.word (s.addr + i) = q.word (t.addr + i) := by
  rw [Image.word, Image.word, Nat.add_assoc, Nat.add_assoc, byteAt_of_entry same (by omega) (by omega),
    byteAt_of_entry same (by omega) (by omega)]

theorem slotBytes_of_entry {lo n : Nat} (le : lo + n ≤ 26) :
    DiskList.slotBytes p s lo n = DiskList.slotBytes q t lo n := by
  apply List.map_congr_left
  intro i mem
  have lt := List.mem_range.1 mem
  rw [Nat.add_assoc, Nat.add_assoc]
  exact byteAt_of_entry same (by omega) (by omega)

theorem nameField_of_entry {lo n : Nat} (le : lo + n ≤ 26) :
    DiskList.nameField p s lo n = DiskList.nameField q t lo n := by
  have bytes : ((List.range n).map fun i => p.byteAt (s.addr + lo + i)) =
      (List.range n).map fun i => q.byteAt (t.addr + lo + i) := slotBytes_of_entry same le
  rw [DiskList.nameField, DiskList.nameField, bytes]

theorem component_of_entry : DiskList.component p s = DiskList.component q t := by
  rw [DiskList.component, DiskList.component, nameField_of_entry same (by omega)]

theorem printDatetime_of_entry : DiskList.printDatetime p s = DiskList.printDatetime q t := by
  rw [DiskList.printDatetime, DiskList.printDatetime, word_of_entry same (by omega), word_of_entry same (by omega)]

theorem fileLine_of_entry : DiskList.fileLine p s = DiskList.fileLine q t := by
  have size : DiskList.filesize p s = DiskList.filesize q t := by
    simp only [DiskList.filesize, byteAt_of_entry same (show 28 < 32 by omega) (by omega),
      byteAt_of_entry same (show 29 < 32 by omega) (by omega), byteAt_of_entry same (show 30 < 32 by omega) (by omega),
      byteAt_of_entry same (show 31 < 32 by omega) (by omega)]
  have name : DiskList.printFilename p s = DiskList.printFilename q t := by
    simp only [DiskList.printFilename, nameField_of_entry same (show 0 + 8 ≤ 26 by omega),
      nameField_of_entry same (show 8 + 3 ≤ 26 by omega)]
  rw [DiskList.fileLine, DiskList.fileLine, size, name, printDatetime_of_entry same]

theorem dirLine_of_entry : DiskList.dirLine p s = DiskList.dirLine q t := by
  have name : DiskList.printSubdirName p s = DiskList.printSubdirName q t := by
    rw [DiskList.printSubdirName, DiskList.printSubdirName, nameField_of_entry same (by omega)]
  rw [DiskList.dirLine, DiskList.dirLine, name, printDatetime_of_entry same]

theorem isLabel_of_entry : DiskInfo.IsLabel p s ↔ DiskInfo.IsLabel q t := by
  rw [DiskInfo.IsLabel, DiskInfo.IsLabel, attr_of_entry same]

variable (dots : s.dots = t.dots)
include dots

theorem LiveFile.of_entry (live : LiveFile p s) : LiveFile q t where
  notDeleted := first_of_entry same ▸ live.notDeleted
  noDot := first_of_entry same ▸ dots ▸ live.noDot
  notLongName := attr_of_entry same ▸ live.notLongName
  notLabel := attr_of_entry same ▸ live.notLabel
  notDir := attr_of_entry same ▸ live.notDir
  cluster := (hasCluster_of_entry same).1 live.cluster

theorem LiveDir.of_entry (live : LiveDir p s) : LiveDir q t where
  notDeleted := first_of_entry same ▸ live.notDeleted
  noDot := first_of_entry same ▸ dots ▸ live.noDot
  notLongName := attr_of_entry same ▸ live.notLongName
  notLabel := attr_of_entry same ▸ live.notLabel
  isDir := attr_of_entry same ▸ live.isDir
  cluster := (hasCluster_of_entry same).1 live.cluster

theorem kind_of_entry : p.kind s = q.kind t := by
  have file : p.kind s = .file ↔ q.kind t = .file := by
    rw [kind_eq_file, kind_eq_file]
    exact ⟨LiveFile.of_entry same dots, LiveFile.of_entry same.symm dots.symm⟩
  have dir : p.kind s = .dir ↔ q.kind t = .dir := by
    rw [kind_eq_dir, kind_eq_dir]
    exact ⟨LiveDir.of_entry same dots, LiveDir.of_entry same.symm dots.symm⟩
  cases here : p.kind s with
  | file => exact (file.1 here).symm
  | dir => exact (dir.1 here).symm
  | skip =>
    rw [here] at file dir
    cases there : q.kind t with
    | skip => rfl
    | file => cases file.2 there
    | dir => cases dir.2 there

theorem entryLine_of_entry : DiskList.entryLine p s = DiskList.entryLine q t := by
  rw [DiskList.entryLine, DiskList.entryLine, kind_of_entry same dots, fileLine_of_entry same, dirLine_of_entry same]

end Entries

/-! ## Directories -/

/-- Slots with the same entries, one by one. -/
def SameEntries (p q : Image) (f g : Nat → Slot) (l : List Nat) : Prop :=
  ∀ i ∈ l, p.entry (f i) = q.entry (g i) ∧ (f i).dots = (g i).dots

section Slots

variable {f g : Nat → Slot} {l : List Nat}

theorem fileCount_of_entries (same : SameEntries p q f g l) : fileCount p (l.map f) = fileCount q (l.map g) := by
  rw [fileCount, fileCount, List.countP_map, List.countP_map]
  apply List.countP_congr
  intro i mem
  have kinds := kind_of_entry (same i mem).1 (same i mem).2
  simp only [Function.comp_apply, kinds]

theorem lines_of_entries (same : SameEntries p q f g l) :
    (DiskList.usedSlots p (l.map f)).flatMap (DiskList.entryLine p) =
      (DiskList.usedSlots q (l.map g)).flatMap (DiskList.entryLine q) := by
  induction l with
  | nil => simp only [List.map_nil, DiskList.usedSlots, List.takeWhile_nil, List.flatMap_nil]
  | cons i l ih =>
    obtain ⟨entry, dots⟩ := same i List.mem_cons_self
    have behind := ih fun j mem => same j (List.mem_cons_of_mem i mem)
    have first := first_of_entry entry
    rw [List.map_cons, List.map_cons]
    by_cases free : p.first (f i) = 0
    · rw [DiskList.usedSlots_cons_free free, DiskList.usedSlots_cons_free (first ▸ free),
        List.flatMap_nil, List.flatMap_nil]
    · rw [DiskList.usedSlots_cons_used free, DiskList.usedSlots_cons_used (first ▸ free), List.flatMap_cons,
        List.flatMap_cons, behind, entryLine_of_entry entry dots]

end Slots

/-- The entries of a cluster. -/
theorem clusterSlots_entries {c d : Nat} (same : (clusterSlots c).map p.entry = (clusterSlots d).map q.entry) :
    SameEntries p q (fun i => ⟨clusterAddr c + 32 * i, true⟩) (fun i => ⟨clusterAddr d + 32 * i, true⟩)
      (List.range 16) := by
  rw [clusterSlots, clusterSlots, List.map_map, List.map_map] at same
  exact fun i mem => ⟨List.map_inj_left.1 same i mem, rfl⟩

theorem chainLines_of_folder {cs ds : List Nat}
    (same : (cs.map fun c => (clusterSlots c).map p.entry) = ds.map fun c => (clusterSlots c).map q.entry) :
    DiskList.chainLines p cs = DiskList.chainLines q ds := by
  induction cs generalizing ds with
  | nil =>
    rw [List.map_eq_nil_iff.1 same.symm, DiskList.chainLines, DiskList.chainLines, List.flatMap_nil,
      List.flatMap_nil]
  | cons c cs ih =>
    cases ds with
    | nil => cases same
    | cons d ds =>
      obtain ⟨here, behind⟩ := List.cons.inj same
      have sector : DiskList.sectorLines p (clusterAddr c) = DiskList.sectorLines q (clusterAddr d) :=
        lines_of_entries (clusterSlots_entries here)
      rw [DiskList.chainLines_cons, DiskList.chainLines_cons, sector, ih behind]

theorem fileCount_of_folder {cs ds : List Nat}
    (same : (cs.map fun c => (clusterSlots c).map p.entry) = ds.map fun c => (clusterSlots c).map q.entry) :
    fileCount p (cs.flatMap clusterSlots) = fileCount q (ds.flatMap clusterSlots) := by
  induction cs generalizing ds with
  | nil => rw [List.map_eq_nil_iff.1 same.symm, List.flatMap_nil, fileCount_nil, fileCount_nil]
  | cons c cs ih =>
    cases ds with
    | nil => cases same
    | cons d ds =>
      obtain ⟨here, behind⟩ := List.cons.inj same
      have cluster : fileCount p (clusterSlots c) = fileCount q (clusterSlots d) :=
        fileCount_of_entries (clusterSlots_entries here)
      rw [List.flatMap_cons, List.flatMap_cons, fileCount_append, fileCount_append, cluster, ih behind]

/-- The files in the directories of a list. -/
theorem fileCount_of_folders {ds es : List Dir} (same : ds.map (Dir.folder p) = es.map (Dir.folder q)) :
    fileCount p (ds.flatMap Dir.slots) = fileCount q (es.flatMap Dir.slots) := by
  induction ds generalizing es with
  | nil => rw [List.map_eq_nil_iff.1 same.symm, List.flatMap_nil, fileCount_nil, fileCount_nil]
  | cons d ds ih =>
    cases es with
    | nil => cases same
    | cons e es =>
      obtain ⟨here, behind⟩ := List.cons.inj same
      have folder : fileCount p d.slots = fileCount q e.slots := fileCount_of_folder (congrArg Folder.clusters here)
      rw [List.flatMap_cons, List.flatMap_cons, fileCount_append, fileCount_append, folder, ih behind]

/-! ## Visits -/

section Visits

variable {path path' : DiskList.Printer → Slot → List UInt8}
  (paths : ∀ st s t, p.entry s = q.entry t → path st s = path' st t)
include paths

theorem visit_of_folder {d e : Dir} (same : d.folder p = e.folder q) (st : DiskList.Printer) :
    st.visit p path d = st.visit q path' e := by
  rw [DiskList.Printer.visit, DiskList.Printer.visit, paths st d.entry e.entry (congrArg Folder.entry same),
    chainLines_of_folder (congrArg Folder.clusters same)]

theorem visits_of_folders {ds es : List Dir} (same : ds.map (Dir.folder p) = es.map (Dir.folder q))
    (st : DiskList.Printer) :
    ds.foldl (DiskList.Printer.visit p path) st = es.foldl (DiskList.Printer.visit q path') st := by
  induction ds generalizing es st with
  | nil => rw [List.map_eq_nil_iff.1 same.symm, List.foldl_nil, List.foldl_nil]
  | cons d ds ih =>
    cases es with
    | nil => cases same
    | cons e es =>
      obtain ⟨here, behind⟩ := List.cons.inj same
      rw [List.foldl_cons, List.foldl_cons, visit_of_folder paths here, ih behind]

end Visits

theorem appendPath_of_entry (st : DiskList.Printer) (s t : Slot) (same : p.entry s = q.entry t) :
    DiskList.appendPath p st s = DiskList.appendPath q st t := by
  rw [DiskList.appendPath, DiskList.appendPath, component_of_entry same]

theorem resetPath_of_entry (st : DiskList.Printer) (s t : Slot) (same : p.entry s = q.entry t) :
    DiskList.resetPath p st s = DiskList.resetPath q st t := by
  rw [DiskList.resetPath, DiskList.resetPath, component_of_entry same]

theorem visitTrees_of_folders {f g : Forest Dir} (same : f.map (Dir.folder p) = g.map (Dir.folder q))
    (st : DiskList.Printer) :
    st.visitTrees p (DiskList.resetPath p) f = st.visitTrees q (DiskList.resetPath q) g := by
  induction f generalizing g st with
  | nil =>
    cases g with
    | nil => rw [DiskList.Printer.visitTrees, DiskList.Printer.visitTrees]
    | cons e kids rest => cases same
  | cons d kids rest _ ih =>
    cases g with
    | nil => cases same
    | cons e kids' rest' =>
      obtain ⟨here, below, behind⟩ := Forest.cons.inj same
      have nodes : kids.nodes.map (Dir.folder p) = kids'.nodes.map (Dir.folder q) := by
        rw [← Forest.nodes_map, ← Forest.nodes_map, below]
      rw [DiskList.Printer.visitTrees, DiskList.Printer.visitTrees, visit_of_folder resetPath_of_entry here,
        visits_of_folders appendPath_of_entry nodes, ih behind]

/-! ## The root directory -/

theorem Holds.few {n : Nat} {f : Forest Dir} (holds : Holds p n f) : n < 224 := by
  obtain ⟨j, lt, free⟩ := holds.sector
  by_contra many
  have addr : SECTOR_SIZE * 19 + SECTOR_SIZE * j = (rootSlot (0 + 16 * j)).addr := by
    simp only [rootSlot, SECTOR_SIZE]
    omega
  rw [addr] at free
  exact holds.ends.used (16 * j) (by omega) free

theorem Holds.scan {n : Nat} {f : Forest Dir} (holds : Holds p n f) :
    DiskList.RootScan p 0 (DiskList.maxRootEntries p) n := by
  refine ⟨holds.ends.used, ?_, holds.ends.inside⟩
  rcases Nat.lt_or_ge n (DiskList.maxRootEntries p) with lt | ge
  · exact .inr ⟨lt, holds.ends.free⟩
  · exact .inl (Nat.le_antisymm holds.limit ge)

theorem rootSectors_congr : ∀ {left a k : Nat},
    (∀ j, j ≤ k → p.byteAt (a + SECTOR_SIZE * j) = q.byteAt (a + SECTOR_SIZE * j)) →
    p.byteAt (a + SECTOR_SIZE * k) = 0 →
    DiskList.rootSectors p left a = DiskList.rootSectors q left a := by
  intro left
  induction left with
  | zero => intro a k _ _; rw [DiskList.rootSectors, DiskList.rootSectors]
  | succ left ih =>
    intro a k same free
    have first : p.byteAt a = q.byteAt a := same 0 (Nat.zero_le k)
    rw [DiskList.rootSectors, DiskList.rootSectors, ← first]
    by_cases here : p.byteAt a = 0
    · rw [if_pos here, if_pos here]
    · rw [if_neg here, if_neg here]
      cases k with
      | zero => exact absurd free here
      | succ k =>
        have next : ∀ j, a + SECTOR_SIZE + SECTOR_SIZE * j = a + SECTOR_SIZE * (j + 1) := fun j => by
          rw [Nat.mul_succ]
          omega
        rw [ih (k := k) (fun j le => by rw [next]; exact same (j + 1) (by omega)) (by rw [next]; exact free)]

section Root

variable (root : ∀ i, i < 224 → p.entry (rootSlot i) = q.entry (rootSlot i))
include root

theorem root_sector {j i : Nat} (lt : j < 14) (inside : i < 16) (dots : Bool) :
    p.entry ⟨SECTOR_SIZE * 19 + SECTOR_SIZE * j + 32 * i, dots⟩ =
      q.entry ⟨SECTOR_SIZE * 19 + SECTOR_SIZE * j + 32 * i, dots⟩ := by
  have addr : SECTOR_SIZE * 19 + SECTOR_SIZE * j + 32 * i = (rootSlot (16 * j + i)).addr := by
    simp only [rootSlot, SECTOR_SIZE]
    omega
  rw [addr]
  exact root (16 * j + i) (by omega)

theorem rootLines_of_root {n : Nat} {f : Forest Dir} (holds : Holds p n f) :
    DiskList.rootLines p = DiskList.rootLines q := by
  obtain ⟨k, lt, free⟩ := holds.sector
  have first : ∀ j, j ≤ k →
      p.byteAt (SECTOR_SIZE * 19 + SECTOR_SIZE * j) = q.byteAt (SECTOR_SIZE * 19 + SECTOR_SIZE * j) :=
    fun j le => first_of_entry (root_sector root (j := j) (i := 0) (by omega) (by omega) true)
  have sectors : DiskList.rootSectors p 19 (SECTOR_SIZE * 19) = DiskList.rootSectors q 19 (SECTOR_SIZE * 19) :=
    rootSectors_congr first free
  have few : (DiskList.rootSectors p 19 (SECTOR_SIZE * 19)).length ≤ k := DiskList.rootSectors_length_le free
  rw [DiskList.rootLines, DiskList.rootLines, ← sectors]
  apply List.flatMap_congr
  intro a mem
  obtain ⟨j, inside, rfl⟩ := DiskList.mem_rootSectors mem
  have lines : DiskList.sectorLines p (SECTOR_SIZE * 19 + SECTOR_SIZE * j) =
      DiskList.sectorLines q (SECTOR_SIZE * 19 + SECTOR_SIZE * j) :=
    lines_of_entries fun i inSector => ⟨root_sector root (j := j) (by omega) (List.mem_range.1 inSector) true, rfl⟩
  rw [lines]

theorem volumeLabel_of_root {n : Nat} (few : n < 224) : DiskInfo.volumeLabel p n = DiskInfo.volumeLabel q n := by
  have labels : (rootSlots 0 n).filter (DiskInfo.IsLabel p ·) = (rootSlots 0 n).filter (DiskInfo.IsLabel q ·) := by
    apply List.filter_congr
    intro s mem
    obtain ⟨i, lt, rfl⟩ := mem_rootSlots.1 mem
    exact decide_eq_decide.2 (isLabel_of_entry (root (0 + i) (by omega)))
  rw [DiskInfo.volumeLabel, DiskInfo.volumeLabel, labels]
  cases last : ((rootSlots 0 n).filter (DiskInfo.IsLabel q ·)).getLast? with
  | none => rw [Option.map_none, Option.map_none]
  | some s =>
    obtain ⟨i, lt, rfl⟩ := mem_rootSlots.1 (List.mem_filter.1 (List.mem_of_getLast? last)).1
    rw [Option.map_some, Option.map_some, slotBytes_of_entry (root (0 + i) (by omega)) (by omega)]

theorem used_of_root {n m : Nat} {f g : Forest Dir} (holds : Holds p n f) (holds' : Holds q m g) : n = m := by
  have few := holds.few
  have few' := holds'.few
  have first : ∀ i, i < 224 → p.first (rootSlot (0 + i)) = q.first (rootSlot (0 + i)) := fun i lt =>
    first_of_entry (root (0 + i) (by omega))
  rcases Nat.lt_trichotomy n m with lt | eq | gt
  · exact absurd ((first n few).symm.trans holds.ends.free) (holds'.ends.used n lt)
  · exact eq
  · exact absurd ((first m few').trans holds'.ends.free) (holds.ends.used m gt)

end Root

/-- A label scan that returns has met the free slot. -/
theorem labelLoop_short : ∀ {fuel i n : Nat} {label : Option (List UInt8)}, RootEnds p i n → fuel ≤ n →
    DiskInfo.labelLoop p fuel i label = .error .outOfFuel := by
  intro fuel
  induction fuel with
  | zero => exact fun _ _ => rfl
  | succ fuel ih =>
    intro i n label ends le
    obtain ⟨n, rfl⟩ : ∃ k, n = k + 1 := ⟨n - 1, by omega⟩
    have inside : (rootSlot i).addr + 12 ≤ p.size := by
      have := ends.inside
      simp only [rootSlot] at this ⊢
      omega
    have used : p.first (rootSlot i) ≠ 0 := ends.used 0 (by omega)
    rw [labelLoop_used used inside, ih ends.tail (by omega)]

theorem printDiskLabel_ok {n fuel : Nat} {label : Option (List UInt8)} (ends : RootEnds p 0 n)
    (run : DiskInfo.printDiskLabel p fuel = .ok label) : label = DiskInfo.volumeLabel p n := by
  rw [DiskInfo.printDiskLabel] at run
  rcases Nat.lt_or_ge n fuel with lt | ge
  · rw [DiskInfo.labelLoop_eq ends lt, Option.or_none] at run
    exact (Except.ok.inj run).symm
  · rw [labelLoop_short ends ge] at run
    cases run

/-- **What the programs report depends on the contents alone.** -/
theorem output_of_contents {n m : Nat} {f g : Forest Dir} (holds : Holds p n f) (holds' : Holds q m g)
    (same : contents p f = contents q g) : SameResults p q := by
  obtain ⟨entries, folders⟩ := Contents.mk.inj same
  have root : ∀ i, i < 224 → p.entry (rootSlot i) = q.entry (rootSlot i) := fun i lt =>
    List.map_inj_left.1 entries i (List.mem_range.2 lt)
  obtain rfl := used_of_root root holds holds'
  have few := holds.few
  constructor
  · intro fuel fuel' label label' run run'
    rw [printDiskLabel_ok holds.ends run, printDiskLabel_ok holds'.ends run', volumeLabel_of_root root few]
  · intro fuel fuel' count count' run run'
    obtain ⟨k, f', ends, walk, _, rfl⟩ := DiskInfo.printNumOfFiles_ok run
    obtain ⟨k', g', ends', walk', _, rfl⟩ := DiskInfo.printNumOfFiles_ok run'
    obtain rfl := holds.ends.unique ends
    obtain rfl := holds'.ends.unique ends'
    obtain rfl := holds.walk.unique deterministic_enters walk
    obtain rfl := holds'.walk.unique deterministic_enters walk'
    have inRoot : fileCount p (rootSlots 0 n) = fileCount q (rootSlots 0 n) :=
      fileCount_of_entries fun i mem => ⟨root i (by have := List.mem_range'_1.1 mem; omega), rfl⟩
    have nodes : f.nodes.map (Dir.folder p) = g.nodes.map (Dir.folder q) := by
      rw [← Forest.nodes_map, ← Forest.nodes_map, folders]
    rw [scanned, scanned, places, places, fileCount_append, fileCount_append, inRoot, fileCount_of_folders nodes]
  · intro fuel fuel' out out' run run'
    obtain ⟨k, f', scan, walk, _, rfl⟩ := DiskList.printEntireImage_ok run
    obtain ⟨k', g', scan', walk', _, rfl⟩ := DiskList.printEntireImage_ok run'
    obtain rfl := holds.scan.unique scan
    obtain rfl := holds'.scan.unique scan'
    obtain rfl := holds.walk.unique deterministic_enters walk
    obtain rfl := holds'.walk.unique deterministic_enters walk'
    rw [DiskList.rootPrinter, DiskList.rootPrinter, rootLines_of_root root holds, visitTrees_of_folders folders]

/-! ## One directory at two places -/

/-- A volume of 40 sectors: in the root a directory `D` at the cluster at offset `dir`, in it a
file `B`, and the FAT bytes `fat`. -/
def placedBytes (fat : List (Nat × UInt8)) (cluster dir file : Nat) : List (Nat × UInt8) :=
  headerBytes 40 ++ fat ++ entryBytes 9728 [0x44] 0x10 cluster ++ entryBytes dir [0x42] 0x20 file

/-- The directory is cluster 2, the file begins at cluster 3. -/
def lowBytes : List (Nat × UInt8) := placedBytes [(515, 0xFF), (516, 0x0F)] 2 16896 3

def placedLow : Image := .sparse 40 lowBytes

/-- The directory is cluster 5, the file begins at cluster 7. -/
def highBytes : List (Nat × UInt8) := placedBytes [(519, 0xF0), (520, 0xFF)] 5 18432 7

def placedHigh : Image := .sparse 40 highBytes

/-- The tree of such a volume, with its directory at cluster `c`. -/
def placedTree (c : Nat) : Forest Dir := .cons ⟨rootSlot 0, [c]⟩ .nil .nil

theorem placed_holds {c : Nat} (layout : Layout p 40) (ends : RootEnds p 0 1) (limit : 1 ≤ DiskList.maxRootEntries p)
    (free : p.byteAt (SECTOR_SIZE * 19 + SECTOR_SIZE * 1) = 0) (low : c ≤ 0xFF0)
    (unfolds : Unfolds (Opens p 40) (fun s => ¬ LiveDir p s) Dir.slots (rootSlots 0 1) (placedTree c)) :
    Holds p 1 (placedTree c) where
  ends := ends
  limit := limit
  sector := ⟨1, by decide, free⟩
  walk := by
    refine unfolds.mono (fun s _ d mem opens => ?_) fun s _ leaf isDir => leaf (kind_eq_dir.1 isDir)
    obtain rfl := List.mem_singleton.1 mem
    exact ⟨opens.entry, kind_eq_dir.2 opens.live,
      opens.chain.follows layout fun k inChain => List.mem_singleton.1 inChain ▸ low⟩

theorem placedLow_holds : Holds placedLow 1 (placedTree 2) := by
  apply placed_holds <;> decide +kernel

theorem placedHigh_holds : Holds placedHigh 1 (placedTree 5) := by
  apply placed_holds <;> decide +kernel

theorem entry_eq {s t : Slot} (bytes : ∀ i, i < 32 → i ≠ 26 ∧ i ≠ 27 → p.byteAt (s.addr + i) = q.byteAt (t.addr + i))
    (cluster : 2 ≤ p.flc s ↔ 2 ≤ q.flc t) : p.entry s = q.entry t := by
  rw [Image.entry, Image.entry, Entry.mk.injEq]
  refine ⟨List.map_congr_left fun i mem => ?_, decide_eq_decide.2 cluster⟩
  by_cases number : i = 26 ∨ i = 27
  · rw [if_pos number, if_pos number]
  · rw [if_neg number, if_neg number, bytes i (List.mem_range.1 mem) (by omega)]

theorem entry_blank {s t : Slot} (blank : Blank p s) (blank' : Blank q t) : p.entry s = q.entry t := by
  have flc : ∀ {r : Image} {u : Slot}, Blank r u → r.flc u = 0 := fun blank => by
    rw [Image.flc, Image.word, Nat.add_assoc, blank 26 (by omega), blank 27 (by omega)]
    decide
  refine entry_eq (fun i lt _ => (blank i lt).trans (blank' i lt).symm) ?_
  rw [flc blank, flc blank']

/-- Both volumes hold the directory and the file. -/
theorem contents_placed : contents placedLow (placedTree 2) = contents placedHigh (placedTree 5) := by
  have top : placedLow.entry (rootSlot 0) = placedHigh.entry (rootSlot 0) :=
    entry_eq (by decide +kernel) (by decide +kernel)
  have inside : placedLow.entry ⟨clusterAddr 2, true⟩ = placedHigh.entry ⟨clusterAddr 5, true⟩ :=
    entry_eq (by decide +kernel) (by decide +kernel)
  have root : ((List.range 224).map fun i => placedLow.entry (rootSlot i)) =
      (List.range 224).map fun i => placedHigh.entry (rootSlot i) := by
    apply List.map_congr_left
    intro i mem
    have lt := List.mem_range.1 mem
    cases i with
    | zero => exact top
    | succ i =>
      have low : 9760 ≤ (rootSlot (i + 1)).addr ∧ (rootSlot (i + 1)).addr + 32 ≤ 16896 := by
        simp only [rootSlot, SECTOR_SIZE]
        omega
      exact entry_blank (blank_sparse (show ∀ b ∈ lowBytes, b.1 < 9760 ∨ 16896 ≤ b.1 by decide +kernel) low.1 low.2)
        (blank_sparse (show ∀ b ∈ highBytes, b.1 < 9760 ∨ 16896 ≤ b.1 by decide +kernel) low.1 low.2)
  have cluster : (clusterSlots 2).map placedLow.entry = (clusterSlots 5).map placedHigh.entry := by
    rw [clusterSlots, clusterSlots, List.map_map, List.map_map]
    apply List.map_congr_left
    intro i mem
    have lt := List.mem_range.1 mem
    rw [Function.comp_apply, Function.comp_apply]
    cases i with
    | zero => exact inside
    | succ i =>
      refine entry_blank (blank_sparse (show ∀ b ∈ lowBytes, b.1 < 16928 ∨ 17408 ≤ b.1 by decide +kernel) ?_ ?_)
        (blank_sparse (show ∀ b ∈ highBytes, b.1 < 18464 ∨ 18944 ≤ b.1 by decide +kernel) ?_ ?_)
      all_goals
        simp only [clusterAddr, SECTOR_SIZE]
        omega
  have folder : Dir.folder placedLow ⟨rootSlot 0, [2]⟩ = Dir.folder placedHigh ⟨rootSlot 0, [5]⟩ := by
    rw [Dir.folder, Dir.folder, List.map_cons, List.map_cons, List.map_nil, List.map_nil, top, cluster]
  rw [contents, contents, root, placedTree, placedTree, Forest.map, Forest.map, Forest.map, Forest.map, folder]

theorem output_of_contents_placed : SameResults placedLow placedHigh :=
  output_of_contents placedLow_holds placedHigh_holds contents_placed

end CSC360.Disk
