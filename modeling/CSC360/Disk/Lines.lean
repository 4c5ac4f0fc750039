import CSC360.Disk.Listing
import CSC360.Disk.Volume

/-!
# The lines of disklist's output

The output of a run without its blank lines and the text of its headers
(`skeleton`) is the root section followed by one section for every directory of
the walk (`skeleton_output`). A section has the lines of the slots that lie, in
each sector, before the first `0x00` slot. In the sectors up to the one with the
terminator these are the root slots in use (`listed_root_slots`).
-/

namespace CSC360.Disk.DiskList
open CSC360.Base

variable {p : Image}

/-- An item without a header's text; nothing for a blank line. -/
def Item.erase : Item → Option Item
  | .header _ => some (.header [])
  | .newline => none
  | item => some item

/-- The output without the headers' text and the blank lines. -/
def skeleton (out : List Item) : List Item := out.filterMap Item.erase

/-- The slots disklist lists for a directory. -/
def usedOf (p : Image) (d : Dir) : List Slot := d.chain.flatMap fun c => usedSlots p (clusterSlots c)

/-- The slots disklist lists for the root directory. -/
def usedRoot (p : Image) : List Slot :=
  (rootSectors p 19 (SECTOR_SIZE * 19)).flatMap fun a => usedSlots p (sectorSlots a)

theorem skeleton_append (out out' : List Item) : skeleton (out ++ out') = skeleton out ++ skeleton out' :=
  List.filterMap_append

theorem skeleton_entries (ss : List Slot) :
    skeleton (ss.flatMap (entryLine p)) = ss.flatMap (entryLine p) := by
  induction ss with
  | nil => rfl
  | cons s ss ih =>
    rw [List.flatMap_cons, skeleton_append, ih, entryLine]
    cases p.kind s <;> rfl

/-- A list of sectors shows the lines of their used slots. -/
theorem skeleton_sectors (l : List Nat) :
    skeleton (l.flatMap fun a => sectorLines p a ++ [.newline]) =
      (l.flatMap fun a => usedSlots p (sectorSlots a)).flatMap (entryLine p) := by
  induction l with
  | nil => rfl
  | cons a l ih =>
    have sector : skeleton (sectorLines p a ++ [.newline]) =
        (usedSlots p (sectorSlots a)).flatMap (entryLine p) := by
      rw [skeleton_append, sectorLines, skeleton_entries]
      exact List.append_nil _
    simp only [List.flatMap_cons, List.flatMap_append, skeleton_append, sector, ih]

theorem skeleton_chainLines (d : Dir) :
    skeleton (chainLines p d.chain) = (usedOf p d).flatMap (entryLine p) := by
  have sectors := skeleton_sectors (p := p) (d.chain.map clusterAddr)
  rwa [List.flatMap_map, List.flatMap_map] at sectors

theorem skeleton_visit (path : Printer → Slot → List UInt8) (st : Printer) (d : Dir) :
    skeleton (st.visit p path d).out =
      skeleton st.out ++ .header [] :: (usedOf p d).flatMap (entryLine p) := by
  simp only [Printer.visit, Printer.header, Printer.print, skeleton_append, skeleton_chainLines, List.append_assoc]
  rfl

theorem skeleton_visits (ds : List Dir) (st : Printer) :
    skeleton (ds.foldl (Printer.visit p (appendPath p)) st).out =
      skeleton st.out ++ ds.flatMap fun d => .header [] :: (usedOf p d).flatMap (entryLine p) := by
  induction ds generalizing st with
  | nil => simp
  | cons d ds ih => rw [List.foldl_cons, ih, skeleton_visit, List.flatMap_cons, List.append_assoc]

theorem skeleton_visitTrees (path : Printer → Slot → List UInt8) (f : Forest Dir) (st : Printer) :
    skeleton (st.visitTrees p path f).out =
      skeleton st.out ++ f.nodes.flatMap fun d => .header [] :: (usedOf p d).flatMap (entryLine p) := by
  induction f generalizing st with
  | nil => simp [Printer.visitTrees, Forest.nodes]
  | cons d kids rest _ ih =>
    rw [Printer.visitTrees, ih, skeleton_visits, skeleton_visit]
    simp only [Forest.nodes, List.flatMap_cons, List.flatMap_append, List.append_assoc]

/-- **The sections of the output**: the root's, then one for each visited directory. -/
theorem skeleton_output (path : Printer → Slot → List UInt8) (f : Forest Dir) :
    skeleton ((rootPrinter p).visitTrees p path f).out =
      .root :: (usedRoot p).flatMap (entryLine p) ++
        f.nodes.flatMap fun d => .header [] :: (usedOf p d).flatMap (entryLine p) := by
  rw [skeleton_visitTrees, rootPrinter, skeleton_append, rootLines, skeleton_sectors]
  rfl

/-! ## The root section -/

/-- The slot as a scan with the `'.'` test sees it. -/
def dotted (s : Slot) : Slot := ⟨s.addr, true⟩

theorem sectorSlots_root (i : Nat) : sectorSlots (rootSlot i).addr = (rootSlots i 16).map dotted := by
  simp only [sectorSlots, rootSlots, List.range'_eq_map_range, List.map_map]
  apply List.map_congr_left
  intro k _
  simp only [Function.comp_apply, dotted, rootSlot, Slot.mk.injEq, and_true]
  omega

theorem usedSlots_append {ss : List Slot} (used : ∀ s ∈ ss, p.first s ≠ 0) (ts : List Slot) :
    usedSlots p (ss ++ ts) = ss ++ usedSlots p ts := by
  rw [usedSlots, usedSlots, List.takeWhile_append_of_pos]
  simpa using used

/-- The used slots of a root sector are the ones before the terminator. -/
theorem usedSlots_rootSector {i n : Nat} (ends : RootEnds p i n) :
    usedSlots p (sectorSlots (rootSlot i).addr) = (rootSlots i (min n 16)).map dotted := by
  have used {k : Nat} (le : k ≤ n) : ∀ s ∈ (rootSlots i k).map dotted, p.first s ≠ 0 := by
    intro s mem
    obtain ⟨t, inRoot, rfl⟩ := List.mem_map.1 mem
    obtain ⟨j, lt, rfl⟩ := mem_rootSlots.1 inRoot
    exact ends.used j (by omega)
  rw [sectorSlots_root]
  rcases Nat.lt_or_ge n 16 with lt | ge
  · rw [show 16 = n + (15 - n + 1) by omega, rootSlots_append, rootSlots_succ, List.map_append,
      usedSlots_append (used (Nat.le_refl n)), List.map_cons,
      usedSlots_cons_free (show p.first (dotted (rootSlot (i + n))) = 0 from ends.free), List.append_nil,
      Nat.min_eq_left (by omega)]
  · have all := usedSlots_append (used ge) []
    rw [List.append_nil, show usedSlots p [] = [] from rfl, List.append_nil] at all
    rw [all, Nat.min_eq_right ge]

/-- Up to the sector of the terminator, disklist lists the root slots in use. -/
theorem listed_root_slots : ∀ (left : Nat) {i n : Nat}, RootEnds p i n →
    (((rootSectors p left (rootSlot i).addr).take (n / 16 + 1)).flatMap fun a => usedSlots p (sectorSlots a)) =
      (rootSlots i (min n (16 * left))).map dotted := by
  intro left
  induction left with
  | zero =>
    intro i n _
    simp [rootSectors, rootSlots]
  | succ left ih =>
    intro i n ends
    rw [rootSectors]
    rcases Nat.eq_zero_or_pos n with rfl | pos
    · have free : p.byteAt (rootSlot i).addr = 0 := ends.free
      rw [if_pos free, Nat.zero_min]
      rfl
    · have used : p.byteAt (rootSlot i).addr ≠ 0 := ends.used 0 pos
      rw [if_neg used, List.take_succ_cons, List.flatMap_cons, usedSlots_rootSector ends]
      rcases Nat.lt_or_ge n 16 with lt | ge
      · rw [Nat.div_eq_of_lt lt, Nat.min_eq_left (by omega), Nat.min_eq_left (by omega)]
        simp
      · obtain ⟨n, rfl⟩ : ∃ k, n = k + 16 := ⟨n - 16, by omega⟩
        have next : (rootSlot i).addr + SECTOR_SIZE = (rootSlot (i + 16)).addr := by
          simp only [rootSlot, SECTOR_SIZE]
          omega
        rw [show (n + 16) / 16 = n / 16 + 1 by omega, next, ih ends.skip, ← List.map_append,
          Nat.min_eq_right ge, ← rootSlots_append]
        congr 2
        omega

/-- The listed root slots up to the terminator's sector, and those behind it. -/
theorem usedRoot_split {n : Nat} (ends : RootEnds p 0 n) :
    usedRoot p = ((rootSlots 0 n).take 304).map dotted ++
      ((rootSectors p 19 (SECTOR_SIZE * 19)).drop (n / 16 + 1)).flatMap fun a => usedSlots p (sectorSlots a) := by
  rw [rootSlots_take, ← listed_root_slots 19 ends, ← List.flatMap_append,
    show (rootSlot 0).addr = SECTOR_SIZE * 19 from rfl, List.take_append_drop, usedRoot]

/-- With the `'.'` test, a root slot is a file unless its name starts with `'.'`. -/
theorem kind_dotted_file {s : Slot} (root : s.dots = false) :
    p.kind (dotted s) = .file ↔ p.kind s = .file ∧ p.first s ≠ 0x2E := by
  have noDot : (s.dots = true) = False := by simp [root]
  rw [kind_eq_file, kind_eq_file]
  constructor
  · intro h
    exact ⟨⟨h.notDeleted, by simp [noDot], h.notLongName, h.notLabel, h.notDir, h.cluster⟩,
      fun isDot => h.noDot ⟨rfl, isDot⟩⟩
  · rintro ⟨h, notDot⟩
    exact ⟨h.notDeleted, fun isDot => notDot isDot.2, h.notLongName, h.notLabel, h.notDir, h.cluster⟩

end CSC360.Disk.DiskList
