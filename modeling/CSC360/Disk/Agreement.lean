import CSC360.Disk.BoundedPaths
import CSC360.Disk.Count
import CSC360.Disk.Lines

/-!
# Where the two programs differ on what a file is

Both programs classify slots alike, but their scans cover different slots.
diskinfo scans every root slot before the terminator and all slots of every
cluster it meets. disklist prints a sector only up to its first `0x00` slot, lists
at most 19 root sectors and hides root entries whose name starts with `'.'`,
descends only from the root entries within the header's limit, and goes on listing
root sectors after the one that holds the terminator. Besides, diskinfo's total is
an `int`, and disklist's output is undefined where it stores past a path buffer.
`counts_agree_iff` says that the two totals agree exactly when the paths fit and these
differences balance.
-/

namespace CSC360.Disk
open CSC360.Base DiskList

variable {p : Image} {n : Nat} {tree late : Forest Dir}

/-- Is the item an `F` line? -/
def DiskList.Item.isFile : Item → Bool
  | .file .. => true
  | _ => false

/-- The number of `F` lines. -/
def fLines (out : List Item) : Nat := out.countP Item.isFile

/-- The slots from the first `0x00` slot on. -/
def freeSlots (p : Image) (ss : List Slot) : List Slot := ss.dropWhile fun s => p.first s ≠ 0

/-- The root directory has `n` slots before its terminator; the directories of the
first `maxRootEntries` of them unfold to `tree`, those of the others to `late`. -/
structure RootWalk (p : Image) (n : Nat) (tree late : Forest Dir) : Prop where
  ends : RootEnds p 0 n
  tree : Walk p ((rootSlots 0 n).take (maxRootEntries p)) tree
  late : Walk p ((rootSlots 0 n).drop (maxRootEntries p)) late

/-- The slots only diskinfo considers: root slots with a `'.'` name or behind the
19 listed sectors, the directories behind the entry limit, and what follows a
`0x00` slot in a cluster. -/
def onlyCounted (p : Image) (n : Nat) (tree late : Forest Dir) : List Slot :=
  ((rootSlots 0 n).take 304).filter (fun s => p.first s = 0x2E) ++ (rootSlots 0 n).drop 304 ++
    late.nodes.flatMap Dir.slots ++
    tree.nodes.flatMap fun d => d.chain.flatMap fun c => freeSlots p (clusterSlots c)

/-- The slots only disklist considers: those of the root sectors it lists after the
sector with the terminator. -/
def onlyListed (p : Image) (n : Nat) : List Slot :=
  ((rootSectors p 19 (SECTOR_SIZE * 19)).drop (n / 16 + 1)).flatMap fun a => usedSlots p (sectorSlots a)

/-- The slots disklist lists. -/
def listedSlots (p : Image) (tree : Forest Dir) : List Slot := usedRoot p ++ tree.nodes.flatMap (usedOf p)

/-- The paths fit into the buffers, there are fewer than 2^31 `F` lines, and up to a multiple of 2^32 as
many files lie in the slots only diskinfo considers as in those only disklist considers. -/
def Balanced (b : PathBuffers) (p : Image) : Prop :=
  ∃ n tree late, RootWalk p n tree late ∧ PathsFit b p tree ∧
    fileCount p (onlyCounted p n tree late) % 4294967296 = fileCount p (onlyListed p n) % 4294967296 ∧
    fileCount p (listedSlots p tree) < 2147483648

theorem RootWalk.unique {n' : Nat} {tree' late' : Forest Dir} (h : RootWalk p n tree late)
    (h' : RootWalk p n' tree' late') : n = n' ∧ tree = tree' ∧ late = late' := by
  obtain rfl := h.ends.unique h'.ends
  exact ⟨rfl, h.tree.unique deterministic_enters h'.tree, h.late.unique deterministic_enters h'.late⟩

/-! ## Counting lines -/

theorem fLines_append (out out' : List Item) : fLines (out ++ out') = fLines out + fLines out' :=
  List.countP_append

theorem fLines_cons (item : Item) (out : List Item) :
    fLines (item :: out) = fLines out + if item.isFile then 1 else 0 :=
  List.countP_cons

theorem fLines_skeleton (out : List Item) : fLines (skeleton out) = fLines out := by
  induction out with
  | nil => rfl
  | cons item out ih =>
    have tail : fLines (out.filterMap Item.erase) = fLines out := ih
    cases item with
    | newline =>
      rw [fLines_cons]
      exact tail
    | _ => simp [fLines_cons, Item.isFile, skeleton, Item.erase, tail]

theorem fLines_entries (ss : List Slot) : fLines (ss.flatMap (entryLine p)) = fileCount p ss := by
  induction ss with
  | nil => rfl
  | cons s ss ih =>
    rw [List.flatMap_cons, fLines_append, ih, entryLine]
    cases isKind : p.kind s with
    | skip => rw [fileCount_cons_other (by simp [isKind])]; simp [fLines]
    | file => rw [fileCount_cons_file isKind]; simp [fLines, fileLine, Item.isFile, Nat.add_comm]
    | dir => rw [fileCount_cons_other (by simp [isKind])]; simp [fLines, dirLine, Item.isFile]

/-- The `F` lines of a run are the files among the slots it lists. -/
theorem fLines_output (path : Printer → Slot → List UInt8) (f : Forest Dir) :
    fLines ((rootPrinter p).visitTrees p path f).out =
      fileCount p (listedSlots p f) := by
  have sections : ∀ ds : List Dir,
      fLines (ds.flatMap fun d => .header [] :: (usedOf p d).flatMap (entryLine p)) =
        fileCount p (ds.flatMap (usedOf p)) := by
    intro ds
    induction ds with
    | nil => rfl
    | cons d ds ih =>
      rw [List.flatMap_cons, fLines_append, ih, List.flatMap_cons, fileCount_append, fLines_cons, fLines_entries]
      rfl
  rw [← fLines_skeleton, skeleton_output, fLines_append, sections, fLines_cons, fLines_entries, listedSlots,
    fileCount_append]
  rfl

/-! ## Splitting the counted slots -/

theorem fileCount_used_free (ss : List Slot) :
    fileCount p ss = fileCount p (usedSlots p ss) + fileCount p (freeSlots p ss) := by
  rw [← fileCount_append, usedSlots, freeSlots, List.takeWhile_append_dropWhile]

theorem fileCount_flatMap_add {α : Type} {parts used free : α → List Slot} (l : List α)
    (split : ∀ a, fileCount p (parts a) = fileCount p (used a) + fileCount p (free a)) :
    fileCount p (l.flatMap parts) = fileCount p (l.flatMap used) + fileCount p (l.flatMap free) := by
  induction l with
  | nil => rfl
  | cons a l ih =>
    simp only [List.flatMap_cons, fileCount_append, split a, ih]
    omega

/-- The slots of directories split, cluster by cluster, at the first `0x00` slot. -/
theorem fileCount_dirs (ds : List Dir) :
    fileCount p (ds.flatMap Dir.slots) = fileCount p (ds.flatMap (usedOf p)) +
      fileCount p (ds.flatMap fun d => d.chain.flatMap fun c => freeSlots p (clusterSlots c)) :=
  fileCount_flatMap_add ds fun d =>
    fileCount_flatMap_add d.chain fun c => fileCount_used_free (clusterSlots c)

/-- The `'.'` test hides the files whose name starts with `'.'`. -/
theorem fileCount_dotted (ss : List Slot) (root : ∀ s ∈ ss, s.dots = false) :
    fileCount p ss = fileCount p (ss.map dotted) + fileCount p (ss.filter fun s => p.first s = 0x2E) := by
  induction ss with
  | nil => rfl
  | cons s ss ih =>
    have tail := ih fun t mem => root t (List.mem_cons_of_mem _ mem)
    have isFile := kind_dotted_file (p := p) (root s (by simp))
    by_cases isDot : p.first s = 0x2E
    · rw [List.map_cons, List.filter_cons_of_pos (by simpa using isDot),
        fileCount_cons_other (s := dotted s) fun file => (isFile.1 file).2 isDot]
      by_cases file : p.kind s = .file
      · rw [fileCount_cons_file file, fileCount_cons_file file]
        omega
      · rw [fileCount_cons_other file, fileCount_cons_other file]
        omega
    · rw [List.map_cons, List.filter_cons_of_neg (by simpa using isDot)]
      by_cases file : p.kind s = .file
      · rw [fileCount_cons_file file, fileCount_cons_file (isFile.2 ⟨file, isDot⟩)]
        omega
      · rw [fileCount_cons_other file, fileCount_cons_other fun h => file (isFile.1 h).1]
        omega

/-! ## The two totals -/

/-- What diskinfo counts beyond disklist's `F` lines, and what disklist lists beyond
diskinfo's count. -/
theorem count_add_onlyListed (walk : RootWalk p n tree late) (path : Printer → Slot → List UInt8) :
    fileCount p (scanned (rootSlots 0 n) (tree.append late)) + fileCount p (onlyListed p n) =
      fLines ((rootPrinter p).visitTrees p path tree).out + fileCount p (onlyCounted p n tree late) := by
  have shown := fileCount_append (p := p) (((rootSlots 0 n).take 304).map dotted) (onlyListed p n)
  rw [onlyListed, ← usedRoot_split walk.ends, ← onlyListed] at shown
  have hidden := fileCount_dotted (p := p) ((rootSlots 0 n).take 304) fun s mem => by
    obtain ⟨j, _, rfl⟩ := mem_rootSlots.1 (List.mem_of_mem_take mem)
    rfl
  have parts := fileCount_append (p := p) ((rootSlots 0 n).take 304) ((rootSlots 0 n).drop 304)
  rw [List.take_append_drop] at parts
  have below := fileCount_dirs (p := p) tree.nodes
  rw [fLines_output, listedSlots, onlyCounted]
  simp only [scanned, places, Forest.nodes_append, List.flatMap_append, fileCount_append, below]
  omega

/-- The scan of `print_entire_image` ends at its limit or at the terminator. -/
theorem rootScan_eq_min {i left m : Nat} (scan : RootScan p i left m) (ends : RootEnds p i n) :
    m = min n left := by
  have bounded : m ≤ n := by
    by_contra above
    exact scan.used n (by omega) ends.free
  rcases scan.stop with rfl | ⟨lt, free⟩
  · exact (Nat.min_eq_right bounded).symm
  · have : n = m := by
      by_contra differ
      exact ends.used m (by omega) free
    omega

/-- **The two programs agree** on the number of files, whatever disklist prints, exactly on the images on
which the paths fit and the files only diskinfo counts and the files only disklist lists balance. -/
theorem counts_agree_iff (b : PathBuffers) {fuel fuel' : Nat} {count : Int} {out : List Item}
    (counted : DiskInfo.printNumOfFiles p fuel = .ok count)
    (listed : DiskList.printEntireImage p fuel' = .ok out) :
    (∀ shown, Prints b p fuel' shown → count = fLines shown) ↔ Balanced b p := by
  obtain ⟨n, f, ends, whole, _, rfl⟩ := DiskInfo.printNumOfFiles_ok counted
  obtain ⟨m, tree, scan, first, _, rfl⟩ := printEntireImage_ok listed
  have prefix' : (rootSlots 0 n).take (maxRootEntries p) = rootSlots 0 m := by
    rw [rootSlots_take, rootScan_eq_min scan ends]
  rw [← List.take_append_drop (maxRootEntries p) (rootSlots 0 n)] at whole
  obtain ⟨tree', late, rfl, left, right⟩ := whole.split
  obtain rfl : tree' = tree := left.unique deterministic_enters (prefix' ▸ first)
  have walk : RootWalk p n tree' late := ⟨ends, left, right⟩
  have totals := count_add_onlyListed walk (resetPath p)
  have shows := prints_iff scan first listed b
  have lines : fLines ((rootPrinter p).visitTrees p (resetPath p) tree').out = fileCount p (listedSlots p tree') :=
    fLines_output (resetPath p) tree'
  constructor
  · intro same
    have fit : PathsFit b p tree' := by
      by_contra full
      have nothing := same [] ((shows _).2 fun fit => absurd fit full)
      have one := same [fileLine p (rootSlot 0)] ((shows _).2 fun fit => absurd fit full)
      exact absurd (nothing.symm.trans one) (by simp [fLines, fileLine, Item.isFile])
    have equal := same _ ((shows _).2 fun _ => rfl)
    obtain ⟨modulo, small⟩ := DiskInfo.counter_eq_natCast.1 equal
    exact ⟨n, tree', late, walk, fit, by omega, by omega⟩
  · rintro ⟨n', tree'', late', walk', fit, modulo, small⟩ shown prints
    obtain ⟨rfl, rfl, rfl⟩ := walk.unique walk'
    rw [(shows shown).1 prints fit]
    exact DiskInfo.counter_eq_natCast.2 ⟨by omega, by omega⟩

/-- On the sample volume both programs finish and agree. -/
theorem counts_agree_sample : Balanced ⟨24, 24⟩ sampleVolume := by
  have counted : DiskInfo.printNumOfFiles sampleVolume 6 = .ok 3 := eq_ok_of_toOption (by decide +kernel)
  have lines : (printEntireImageIn ⟨24, 24⟩ sampleVolume 4).toOption.map fLines = some 3 := by decide +kernel
  cases run : printEntireImageIn ⟨24, 24⟩ sampleVolume 4 with
  | error crash =>
    rw [run] at lines
    cases lines
  | ok out =>
    rw [run] at lines
    refine (counts_agree_iff ⟨24, 24⟩ counted (printEntireImageIn_ok run)).1 fun shown prints => ?_
    cases prints with
    | returned returns =>
      obtain rfl := Except.ok.inj (run.symm.trans returns)
      exact congrArg Nat.cast (Option.some.inj lines).symm
    | undefined stored => cases run.symm.trans stored

/-- A volume whose root holds one directory, at cluster 2. The first slot of the
cluster is free, the second holds a file entry. -/
def staleEntry : Image :=
  .sparse 40 (headerBytes 40 ++ [(515, 0xFF), (516, 0x0F)] ++ entryBytes 9728 [0x44] 0x10 2 ++
    entryBytes 16928 [0x58] 0x20 3)

/-- diskinfo counts the stale entry, disklist does not list it. -/
theorem counts_differ_stale_entry :
    DiskInfo.printNumOfFiles staleEntry 3 = .ok 1 ∧
      ∃ out, printEntireImageIn ⟨24, 24⟩ staleEntry 3 = .ok out ∧ fLines out = 0 :=
  ⟨rfl, _, rfl, rfl⟩

end CSC360.Disk
