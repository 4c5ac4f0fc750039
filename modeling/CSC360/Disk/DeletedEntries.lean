import CSC360.Disk.BoundedPaths
import CSC360.Disk.ContentsIrrelevant
import CSC360.Disk.Report
import CSC360.Disk.WalkEnds

/-!
# Deleted directory entries

A deleted entry keeps its slot with `0xE5` as the first byte. The scans that count,
list and descend skip it whatever its other bytes are. The scan for the label does
not look at the first byte: a deleted slot with label attributes names the volume,
unless a later label entry does. Neither program checks that the FAT and the directories
lie apart: where the header puts the FAT into a directory, the bytes of a deleted entry are
FAT entries too.
-/

namespace CSC360.Disk
open CSC360.Base Relation

/-- Links lead to cluster `c` from a directory entry among the first `n` root slots. -/
def Subdirectory (p : Image) (n c : Nat) : Prop :=
  c ≤ 0xff0 ∧ ∃ i, i < n ∧ p.classify (rootSlot i) = .ok .dir ∧ ReflTransGen (Link p) (p.flc (rootSlot i)) c

/-- `D` are the offsets of deleted slots, among the first `n` of the root or in subdirectories. -/
structure Deleted (p : Image) (n : Nat) (D : Nat → Prop) : Prop where
  mark : ∀ a, D a → p.byteAt a = 0xE5
  place : ∀ a, D a → (∃ i, i < n ∧ a = (rootSlot i).addr) ∨
    ∃ c, Subdirectory p n c ∧ ∃ s ∈ clusterSlots c, a = s.addr

/-- The other 31 bytes of the slots at `D`. -/
def Replaced (D : Nat → Prop) (a : Nat) : Prop := ∃ b, D b ∧ b < a ∧ a < b + 32

/-- The file count is the same, and so is the listing, with path buffers of any sizes. -/
structure ListsSame (p p' : Image) : Prop where
  files : Agrees (DiskInfo.printNumOfFiles p) (DiskInfo.printNumOfFiles p')
  listing (b : DiskList.PathBuffers) : Agrees (DiskList.printEntireImageIn b p) (DiskList.printEntireImageIn b p')

/-- The label, the file count and the listing are the same. -/
structure LooksSame (p p' : Image) : Prop extends ListsSame p p' where
  label : Agrees (DiskInfo.printDiskLabel p) (DiskInfo.printDiskLabel p')

/-- Whatever the other bytes of the slots at `D` are replaced by, the programs print the same. -/
def Invisible (p : Image) (D : Nat → Prop) : Prop :=
  ∀ p', SameBytes (fun a => ¬ Replaced D a) p p' → LooksSame p p'

/-- No FAT entry of a subdirectory's cluster has a byte among the replaced ones. -/
def FatApart (p : Image) (n : Nat) (D : Nat → Prop) : Prop :=
  ∀ c, Subdirectory p n c → ∀ a : Nat, (a : Int) = p.fatTableLocation + Image.entryOffset c ∨
    (a : Int) = p.fatTableLocation + Image.entryOffset c + 1 → ¬ Replaced D a

/-- After every root slot at `D` comes one that is not at `D` and has label attributes. -/
def LabelAfter (p : Image) (n : Nat) (D : Nat → Prop) : Prop :=
  ∀ before s after, rootSlots 0 n = before ++ s :: after → D s.addr →
    ∃ t ∈ after, ¬ D t.addr ∧ DiskInfo.IsLabel p t

variable {p p' : Image} {n : Nat} {D : Nat → Prop}

/-! ## Listing with path buffers -/

theorem SameSlot.descendIn {s : Slot} (same : SameSlot p p' s)
    {path path' : DiskList.Printer → Slot → List UInt8} {fits fits' : DiskList.Printer → Slot → Prop}
    [∀ st, DecidablePred (fits st)] [∀ st, DecidablePred (fits' st)]
    {sub sub' : Nat → DiskList.Printer → Except DiskList.Crash DiskList.Printer}
    (paths : p.first s ≠ 0xE5 → ∀ st, path st s = path' st s ∧ (fits st s ↔ fits' st s))
    (subs : p.classify s = .ok .dir → sub (p.flc s) = sub' (p.flc s)) (st : DiskList.Printer) :
    DiskList.descendIn p path fits sub st s = DiskList.descendIn p' path' fits' sub' st s := by
  rw [DiskList.descendIn, DiskList.descendIn, ← same.classify]
  cases isKind : p.classify s with
  | error fault => rfl
  | ok kind =>
    cases kind with
    | skip => rfl
    | file => rfl
    | dir =>
      have used := used_of_classify isKind (by decide)
      obtain ⟨samePath, sameFit⟩ := paths used st
      rw [← same.flc used, ← samePath, subs isKind]
      simp only [sameFit]

/-- **Listing below a cluster** with path buffers reads the clusters of directories only. -/
theorem SameDirs.listBelowIn {clusters : Nat → Prop} (same : SameDirs clusters p p') (b : DiskList.PathBuffers) :
    ∀ {fuel c : Nat}, Good clusters c → DiskList.parseSubIn b p fuel c = DiskList.parseSubIn b p' fuel c := by
  intro fuel
  induction fuel with
  | zero => intro c _; rfl
  | succ fuel ih =>
    intro c good
    funext st
    rw [DiskList.parseSubIn, DiskList.parseSubIn]
    have lists : ∀ c, clusters c → c ≤ 0xff0 → ∀ st : DiskList.Printer,
        (DiskList.listSector p (clusterAddr c) st).mapError DiskList.Crash.stop =
          (DiskList.listSector p' (clusterAddr c) st).mapError .stop :=
      fun c inside _ st => congrArg _ (listSector_congr same.size (same.slots c inside) st)
    rw [same.clusterLoop lists good]
    apply bind_congr
    intro st
    apply same.clusterLoop _ good
    intro c inside le st
    apply foldlM_congr
    intro s mem st
    have here := same.slot inside s mem
    apply here.descendIn
    · intro used st
      rw [DiskList.appendFits, DiskList.appendFits, DiskList.appendPath, DiskList.appendPath, here.component used]
      exact ⟨rfl, Iff.rfl⟩
    · exact fun isDir => ih (same.dirs c inside le s mem isDir)

theorem same_rootLoopIn {b : DiskList.PathBuffers}
    {sub sub' : Nat → DiskList.Printer → Except DiskList.Crash DiskList.Printer}
    (slots : ∀ i, SameSlot p p' (rootSlot i))
    (subs : ∀ i, Reached p (i + 1) → p.classify (rootSlot i) = .ok .dir →
      sub (p.flc (rootSlot i)) = sub' (p.flc (rootSlot i))) : ∀ {left i : Nat}, Reached p i →
    ∀ st, DiskList.rootLoopIn b p sub left i st = DiskList.rootLoopIn b p' sub' left i st := by
  intro left
  induction left with
  | zero =>
    intro i _ st
    rw [DiskList.rootLoopIn, DiskList.rootLoopIn, (slots i).read]
  | succ left ih =>
    intro i reached st
    have here := slots i
    rw [DiskList.rootLoopIn, DiskList.rootLoopIn, here.read]
    cases read : p'.read (rootSlot i).addr with
    | error fault => rw [DiskList.Printer.checked, mapError_error, mapError_error, error_bind, error_bind]
    | ok byte =>
      rw [DiskList.Printer.checked, mapError_ok, mapError_ok, ok_bind, ok_bind]
      by_cases free : byte = 0
      · rw [if_pos free, if_pos free]
      · have used : p.first (rootSlot i) ≠ 0 := used_of_read here.first read free
        have paths : p.first (rootSlot i) ≠ 0xE5 → ∀ st,
            DiskList.resetPath p st (rootSlot i) = DiskList.resetPath p' st (rootSlot i) ∧
              (DiskList.resetFits b p st (rootSlot i) ↔ DiskList.resetFits b p' st (rootSlot i)) := by
          intro kept st
          rw [DiskList.resetFits, DiskList.resetFits, DiskList.resetPath, DiskList.resetPath, here.component kept]
          exact ⟨rfl, Iff.rfl⟩
        rw [if_neg free, if_neg free, here.descendIn paths (subs i (reached.succ used))]
        exact bind_congr fun st => ih (reached.succ used) st

/-! ## What the replacement leaves alone -/

theorem rootSlots_aligned {i m : Nat} {s : Slot} (mem : s ∈ rootSlots i m) : s.addr % 32 = 0 := by
  obtain ⟨j, _, rfl⟩ := mem_rootSlots.1 mem
  simp only [rootSlot, SECTOR_SIZE]
  omega

namespace Deleted

variable (deleted : Deleted p n D)
include deleted

theorem aligned {a : Nat} (mem : D a) : a % 32 = 0 ∧ SECTOR_SIZE * 19 ≤ a := by
  obtain ⟨i, _, rfl⟩ | ⟨c, _, s, inCluster, rfl⟩ := deleted.place a mem
  · simp only [rootSlot, SECTOR_SIZE]
    omega
  · obtain ⟨i, _, rfl⟩ := List.mem_map.1 inCluster
    simp only [clusterAddr, SECTOR_SIZE]
    omega

theorem kept_low {a : Nat} (low : a < SECTOR_SIZE * 19) : ¬ Replaced D a := by
  rintro ⟨b, mem, below, _⟩
  have := (deleted.aligned mem).2
  omega

/-- A FAT that starts in the first sectors ends before the root directory. -/
theorem fatApart_of_low (low : p.fatTableLocation ≤ 3606) : FatApart p n D := by
  rintro c ⟨le, _⟩ a entry
  rw [Image.entryOffset_eq (by omega)] at entry
  exact deleted.kept_low (by simp only [SECTOR_SIZE]; omega)

theorem kept_slot {s : Slot} (aligned : s.addr % 32 = 0) (outside : ¬ D s.addr) {i : Nat} (lt : i < 32) :
    ¬ Replaced D (s.addr + i) := by
  rintro ⟨b, mem, below, above⟩
  have := (deleted.aligned mem).1
  obtain rfl : b = s.addr := by omega
  exact outside mem

variable (same : SameBytes (fun a => ¬ Replaced D a) p p')
include same

/-- Every slot is either deleted in both images or the same in both. -/
theorem sameSlot {s : Slot} (aligned : s.addr % 32 = 0) : SameSlot p p' s where
  size := same.size
  first := by
    apply same.byte
    rintro ⟨b, mem, below, above⟩
    have := (deleted.aligned mem).1
    omega
  rest used _ lt := same.byte _ (deleted.kept_slot aligned (fun mem => used (deleted.mark _ mem)) lt)

theorem rootSlot_same (i : Nat) : SameSlot p p' (rootSlot i) :=
  deleted.sameSlot same (by simp only [rootSlot, SECTOR_SIZE]; omega)

theorem word_same {a : Nat} (low : a + 1 < SECTOR_SIZE * 19) : p.word a = p'.word a :=
  same.word (deleted.kept_low (by omega)) (deleted.kept_low low)

theorem fatTableLocation_same : p.fatTableLocation = p'.fatTableLocation := by
  rw [Image.fatTableLocation, Image.fatTableLocation, deleted.word_same same (by simp only [SECTOR_SIZE]; omega),
    deleted.word_same same (by simp only [SECTOR_SIZE]; omega)]

theorem sameDirs (apart : FatApart p n D) : SameDirs (Subdirectory p n) p p' where
  size := same.size
  slots c _ i _ := deleted.sameSlot same (by simp only [clusterAddr, SECTOR_SIZE]; omega)
  entry c sub _ := by
    rw [← deleted.fatTableLocation_same same]
    exact getFATEntry_congr same.size fun a entry => same.byte a (apart c sub a entry)
  next c sub le b fat := by
    obtain ⟨_, i, lt, isDir, path⟩ := sub
    by_cases above : 0xff0 < b
    · exact .inl above
    · exact .inr ⟨by omega, i, lt, isDir, path.tail (.next le trivial fat)⟩
  dirs c sub le s mem isDir := by
    obtain ⟨_, i, lt, isDir', path⟩ := sub
    by_cases above : 0xff0 < p.flc s
    · exact .inl above
    · exact .inr ⟨by omega, i, lt, isDir', path.tail (.ofSlot le mem isDir)⟩

/-- Counting and listing do not see the replacement. -/
theorem walks_same (ends : RootEnds p 0 n) (apart : FatApart p n D) : ListsSame p p' := by
  have dirs := deleted.sameDirs same apart
  have start : Reached p 0 := fun j lt => absurd lt (Nat.not_lt_zero j)
  have good : ∀ i, Reached p (i + 1) → p.classify (rootSlot i) = .ok .dir →
      Good (Subdirectory p n) (p.flc (rootSlot i)) := by
    intro i reached isDir
    have lt : i + 1 ≤ n := reached_le reached (by simpa using ends.free)
    by_cases above : 0xff0 < p.flc (rootSlot i)
    · exact .inl above
    · exact .inr ⟨by omega, i, by omega, isDir, .refl⟩
  constructor
  · refine .of_eq fun fuel => ?_
    exact same_rootLoop (fun i _ => deleted.rootSlot_same same i)
      (fun i reached isDir => dirs.countBelow (good i reached isDir)) start 0
  · refine fun b => .of_eq fun fuel => ?_
    have entries : DiskList.maxRootEntries p = DiskList.maxRootEntries p' :=
      deleted.word_same same (by simp only [SECTOR_SIZE]; omega)
    have sectors : ∀ j i, SameSlot p p' ⟨SECTOR_SIZE * 19 + SECTOR_SIZE * j + 32 * i, true⟩ :=
      fun j i => deleted.sameSlot same (by simp only [SECTOR_SIZE]; omega)
    rw [DiskList.printEntireImageIn, DiskList.printEntireImageIn,
      same_printRoot same.size fun j _ _ i _ => sectors j i, ← entries]
    apply bind_congr
    intro st
    rw [same_rootLoopIn (fun i => deleted.rootSlot_same same i)
      (fun i reached isDir => dirs.listBelowIn b (good i reached isDir)) start st]

end Deleted

/-! ## The label -/

theorem printDiskLabel_eq (ends : RootEnds p 0 n) :
    Settles (DiskInfo.printDiskLabel p) (.ok (DiskInfo.volumeLabel p n)) := by
  refine ⟨n + 1, fun fuel le => ?_⟩
  rw [DiskInfo.printDiskLabel, DiskInfo.labelLoop_eq ends le, Option.or_none]
  rfl

/-- Both images have the same last label, if a label entry outside `D` follows each slot at `D`. -/
theorem lastLabel_same {l : List Slot}
    (kept : ∀ s ∈ l, ¬ D s.addr → ∀ i, i < 32 → p.byteAt (s.addr + i) = p'.byteAt (s.addr + i))
    (later : ∀ before s after, l = before ++ s :: after → D s.addr →
      ∃ t ∈ after, ¬ D t.addr ∧ DiskInfo.IsLabel p t) :
    (l.filter (DiskInfo.IsLabel p ·)).getLast?.map (DiskList.slotBytes p · 0 8) =
      (l.filter (DiskInfo.IsLabel p' ·)).getLast?.map (DiskList.slotBytes p' · 0 8) := by
  induction l using List.reverseRecOn with
  | nil => rfl
  | append_singleton l s ih =>
    have outside : ¬ D s.addr := by
      intro replaced
      obtain ⟨t, mem, _⟩ := later l s [] rfl replaced
      cases mem
    have bytes := kept s (by simp) outside
    have attr : p.attr s = p'.attr s := bytes 11 (by omega)
    have name : DiskList.slotBytes p s 0 8 = DiskList.slotBytes p' s 0 8 :=
      List.map_congr_left fun j mem => bytes j (by have := List.mem_range.1 mem; omega)
    rw [List.filter_append, List.filter_append]
    by_cases isLabel : DiskInfo.IsLabel p s
    · have isLabel' : DiskInfo.IsLabel p' s := by rwa [DiskInfo.IsLabel, ← attr]
      rw [List.filter_singleton, List.filter_singleton, decide_eq_true isLabel, decide_eq_true isLabel']
      simp [name]
    · have noLabel' : ¬ DiskInfo.IsLabel p' s := by rwa [DiskInfo.IsLabel, ← attr]
      rw [List.filter_singleton, List.filter_singleton, decide_eq_false isLabel, decide_eq_false noLabel']
      simp only [cond_false, List.append_nil]
      refine ih (fun t mem => kept t (by simp [mem])) fun before t after split replaced => ?_
      obtain ⟨u, mem, outside', isLabel'⟩ := later before t (after ++ [s]) (by rw [split]; simp) replaced
      rcases List.mem_append.1 mem with inAfter | last
      · exact ⟨u, inAfter, outside', isLabel'⟩
      · exact absurd (List.mem_singleton.1 last ▸ isLabel') isLabel

/-- The image with all replaced bytes set to `b`. -/
def Image.overwrite (p : Image) (D : Nat → Prop) [DecidablePred (Replaced D)] (b : UInt8) : Image where
  size := p.size
  byte a := if Replaced D a then b else p.byte a

section Overwrite

variable [DecidablePred (Replaced D)] {b : UInt8}

theorem same_overwrite : SameBytes (fun a => ¬ Replaced D a) p (p.overwrite D b) where
  size := rfl
  byte a kept := by
    unfold Image.byteAt Image.overwrite
    simp only [if_neg kept]

theorem byteAt_overwrite {a : Nat} (replaced : Replaced D a) (inside : a < p.size) :
    (p.overwrite D b).byteAt a = b := by
  rw [Image.byteAt, dif_pos (show a < (p.overwrite D b).size from inside)]
  exact if_pos replaced

/-- A replaced slot whose other bytes are all `b`, a byte with label attributes, is a label entry. -/
theorem label_overwrite (deleted : Deleted p n D) {s : Slot} (mem : D s.addr) (inside : s.addr + 12 ≤ p.size)
    (isLabel : b ≠ 0x0F ∧ b &&& 0x08 = 0x08) : DiskInfo.IsLabel (p.overwrite D b) s ∧
      DiskList.slotBytes (p.overwrite D b) s 0 8 = [0xE5, b, b, b, b, b, b, b] := by
  have replaced : ∀ i, 0 < i → i < 12 → (p.overwrite D b).byteAt (s.addr + i) = b :=
    fun i pos lt => byteAt_overwrite ⟨s.addr, mem, by omega, by omega⟩ (by omega)
  have attr : (p.overwrite D b).attr s = b := replaced 11 (by omega) (by omega)
  have first : (p.overwrite D b).byteAt s.addr = 0xE5 := by
    have same : SameBytes (fun a => ¬ Replaced D a) p (p.overwrite D b) := same_overwrite
    exact (deleted.sameSlot same (deleted.aligned mem).1).first.symm.trans (deleted.mark _ mem)
  constructor
  · rwa [DiskInfo.IsLabel, attr]
  · simp only [DiskList.slotBytes, List.range, List.range.loop, List.map_cons, List.map_nil, Nat.add_zero, first,
      replaced 1 (by omega) (by omega), replaced 2 (by omega) (by omega), replaced 3 (by omega) (by omega),
      replaced 4 (by omega) (by omega), replaced 5 (by omega) (by omega), replaced 6 (by omega) (by omega),
      replaced 7 (by omega) (by omega)]

end Overwrite

namespace Deleted

variable (deleted : Deleted p n D) (ends : RootEnds p 0 n)
include deleted ends

theorem rootEnds_same (same : SameBytes (fun a => ¬ Replaced D a) p p') : RootEnds p' 0 n where
  used j lt := by
    rw [← (deleted.rootSlot_same same _).first]
    exact ends.used j lt
  free := (deleted.rootSlot_same same _).first.symm.trans ends.free
  inside := same.size ▸ ends.inside

theorem label_same (after : LabelAfter p n D) (same : SameBytes (fun a => ¬ Replaced D a) p p') :
    Agrees (DiskInfo.printDiskLabel p) (DiskInfo.printDiskLabel p') := by
  obtain ⟨bound, run⟩ := printDiskLabel_eq ends
  obtain ⟨bound', run'⟩ := printDiskLabel_eq (deleted.rootEnds_same ends same)
  refine ⟨max bound bound', fun fuel le => ?_⟩
  rw [run fuel (by omega), run' fuel (by omega), DiskInfo.volumeLabel, DiskInfo.volumeLabel,
    lastLabel_same (fun s mem outside i lt => ?_) after]
  exact same.byte _ (deleted.kept_slot (rootSlots_aligned mem) outside lt)

/-- If no label entry follows a replaced root slot, its bytes can name the volume. -/
theorem volumeLabel_overwrite [DecidablePred (Replaced D)] {before after : List Slot} {s : Slot}
    (split : rootSlots 0 n = before ++ s :: after) (mem : D s.addr)
    (last : ∀ t ∈ after, ¬ D t.addr → ¬ DiskInfo.IsLabel p t) {b : UInt8} (isLabel : b ≠ 0x0F ∧ b &&& 0x08 = 0x08) :
    DiskInfo.volumeLabel (p.overwrite D b) n = some [0xE5, b, b, b, b, b, b, b] := by
  have same : SameBytes (fun a => ¬ Replaced D a) p (p.overwrite D b) := same_overwrite
  have inside : ∀ t ∈ rootSlots 0 n, t.addr + 12 ≤ p.size := by
    intro t mem
    obtain ⟨i, lt, rfl⟩ := mem_rootSlots.1 mem
    have := ends.inside
    simp only [rootSlot] at this ⊢
    omega
  have named : ∀ t ∈ (s :: after).filter (DiskInfo.IsLabel (p.overwrite D b) ·),
      DiskList.slotBytes (p.overwrite D b) t 0 8 = [0xE5, b, b, b, b, b, b, b] := by
    intro t inFilter
    obtain ⟨inTail, isLabel'⟩ := List.mem_filter.1 inFilter
    have inRoot : t ∈ rootSlots 0 n := by rw [split]; exact List.mem_append_right _ inTail
    by_cases replaced : D t.addr
    · exact (label_overwrite deleted replaced (inside t inRoot) isLabel).2
    · have attr : p.attr t = (p.overwrite D b).attr t :=
        same.byte _ (deleted.kept_slot (rootSlots_aligned inRoot) replaced (by omega))
      have inAfter : t ∈ after := by
        rcases List.mem_cons.1 inTail with rfl | inAfter
        · exact absurd mem replaced
        · exact inAfter
      have noLabel : ¬ DiskInfo.IsLabel (p.overwrite D b) t := by
        rw [DiskInfo.IsLabel, ← attr]
        exact last t inAfter replaced
      exact absurd (of_decide_eq_true isLabel') noLabel
  have here := (label_overwrite deleted mem (inside s (by rw [split]; simp)) isLabel).1
  have some : s ∈ (s :: after).filter (DiskInfo.IsLabel (p.overwrite D b) ·) := by simp [here]
  rw [DiskInfo.volumeLabel, split, List.filter_append, List.getLast?_append_of_ne_nil _ (List.ne_nil_of_mem some),
    List.getLast?_eq_getLast_of_ne_nil (List.ne_nil_of_mem some), Option.map_some, named _ (List.getLast_mem _)]

end Deleted

/-- Entries that are invisible are followed by a label entry that stays. -/
theorem labelAfter_of_invisible (ends : RootEnds p 0 n) (deleted : Deleted p n D) (invisible : Invisible p D) :
    LabelAfter p n D := by
  classical
  intro before s after split mem
  by_contra none
  have last : ∀ t ∈ after, ¬ D t.addr → ¬ DiskInfo.IsLabel p t := by
    intro t inAfter outside isLabel
    exact none ⟨t, inAfter, outside, isLabel⟩
  -- Two replacements name the volume differently, so one of the names is new.
  have names : ∀ b : UInt8, b ≠ 0x0F ∧ b &&& 0x08 = 0x08 →
      DiskInfo.volumeLabel p n = some [0xE5, b, b, b, b, b, b, b] := by
    intro b isLabel
    have same : SameBytes (fun a => ¬ Replaced D a) p (p.overwrite D b) := same_overwrite
    have renamed := (invisible _ same).label.settles (printDiskLabel_eq (deleted.rootEnds_same ends same))
    rw [deleted.volumeLabel_overwrite ends split mem last isLabel] at renamed
    exact Except.ok.inj ((printDiskLabel_eq ends).unique renamed)
  have eight := names 0x08 (by decide)
  rw [names 0x18 (by decide)] at eight
  revert eight
  decide

/-- **Deleted entries are invisible** to counting and listing as long as the FAT is not in their slots,
and to the label scan besides if a label entry that stays follows every one of them in the root directory. -/
theorem deleted_invisible (ends : RootEnds p 0 n) (deleted : Deleted p n D) (apart : FatApart p n D) :
    (∀ p', SameBytes (fun a => ¬ Replaced D a) p p' → ListsSame p p') ∧ (LabelAfter p n D → Invisible p D) :=
  ⟨fun _ same => deleted.walks_same same ends apart, fun after _ same =>
    ⟨deleted.walks_same same ends apart, deleted.label_same ends after same⟩⟩

/-- An image of 34 sectors whose root has the label entry `V` and a deleted entry, in this
order or the other; the deleted entry has the attributes `attr`. -/
def deletedNextToLabel (labelAt deletedAt : Nat) (attr : UInt8) : Image where
  size := 17408
  byte a := if a.val = 12 then 2 else if a.val = 14 then 1 else
    if a.val = 9728 + labelAt then 0x56 else if a.val = 9739 + labelAt then 0x08 else
    if a.val = 9728 + deletedAt then 0xE5 else if a.val = 9739 + deletedAt then attr else 0

/-- A deleted entry before the label entry is invisible. -/
theorem deleted_invisible_sample : Invisible (deletedNextToLabel 32 0 0x10) (· = 9728) := by
  have ends : RootEnds (deletedNextToLabel 32 0 0x10) 0 2 := by decide +kernel
  have deleted : Deleted (deletedNextToLabel 32 0 0x10) 2 (· = 9728) :=
    ⟨fun a isSlot => isSlot ▸ by decide +kernel, fun a isSlot => .inl ⟨0, by decide, isSlot⟩⟩
  apply (deleted_invisible ends deleted (deleted.fatApart_of_low (by decide +kernel))).2
  intro before s after split isSlot
  have slots : rootSlots 0 2 = [rootSlot 0, rootSlot 1] := rfl
  rw [slots] at split
  cases before with
  | nil =>
    simp only [List.nil_append, List.cons.injEq] at split
    obtain ⟨rfl, rfl⟩ := split
    exact ⟨rootSlot 1, by simp, by decide, by decide +kernel⟩
  | cons x before =>
    simp only [List.cons_append, List.cons.injEq] at split
    have mem : s ∈ [rootSlot 1] := by rw [split.2]; simp
    rw [List.mem_singleton.1 mem] at isSlot
    exact absurd isSlot (by decide)

/-- An image of 57 sectors whose header puts the FAT where the root directory is. The root has a directory
at cluster 24 and a deleted entry, whose bytes 4 to 6 are the FAT entries of the clusters 24 and 25.
Cluster 25 holds a file. -/
def fatInRoot (b4 b5 b6 : UInt8) : Image where
  size := 29184
  byte a := if a.val = 12 then 2 else if a.val = 14 then 19 else if a.val = 17 then 224 else if a.val = 19 then 57 else
    if a.val = 9728 then 0x44 else if a.val = 9739 then 0x10 else if a.val = 9754 then 24 else
    if a.val = 9760 then 0xE5 else if a.val = 9764 then b4 else if a.val = 9765 then b5 else if a.val = 9766 then b6 else
    if a.val = 28672 then 0x46 else if a.val = 28683 then 0x20 else if a.val = 28698 then 2 else 0

/-- **Deleted entries can be seen**: where they hold FAT entries, their bytes decide what is counted, and
after the label entry one with label attributes names the volume. -/
theorem deleted_entries_seen :
    (RootEnds (fatInRoot 0xFF 0x0F 0) 0 2 ∧ Deleted (fatInRoot 0xFF 0x0F 0) 2 (· = 9760) ∧
      SameBytes (fun a => ¬ Replaced (· = 9760) a) (fatInRoot 0xFF 0x0F 0) (fatInRoot 0x19 0xF0 0xFF) ∧
      Settles (DiskInfo.printNumOfFiles (fatInRoot 0xFF 0x0F 0)) (.ok 0) ∧
      Settles (DiskInfo.printNumOfFiles (fatInRoot 0x19 0xF0 0xFF)) (.ok 1)) ∧
    (RootEnds (deletedNextToLabel 0 32 0x10) 0 2 ∧ Deleted (deletedNextToLabel 0 32 0x10) 2 (· = 9760) ∧
      SameBytes (fun a => ¬ Replaced (· = 9760) a) (deletedNextToLabel 0 32 0x10) (deletedNextToLabel 0 32 0x08) ∧
      Settles (DiskInfo.printDiskLabel (deletedNextToLabel 0 32 0x10)) (.ok (some [0x56, 0, 0, 0, 0, 0, 0, 0])) ∧
      Settles (DiskInfo.printDiskLabel (deletedNextToLabel 0 32 0x08)) (.ok (some [0xE5, 0, 0, 0, 0, 0, 0, 0]))) := by
  refine ⟨⟨by decide +kernel, ?_, ?_, .of_add 4 fun _ => rfl, .of_add 4 fun _ => rfl⟩, by decide +kernel, ?_, ?_, ?_, ?_⟩
  · exact ⟨fun a isSlot => isSlot ▸ by decide +kernel, fun a isSlot => .inl ⟨1, by decide, isSlot⟩⟩
  · refine ⟨rfl, fun a kept => ?_⟩
    have other : a ≠ 9764 ∧ a ≠ 9765 ∧ a ≠ 9766 :=
      ⟨fun is => kept ⟨9760, rfl, by omega, by omega⟩, fun is => kept ⟨9760, rfl, by omega, by omega⟩,
        fun is => kept ⟨9760, rfl, by omega, by omega⟩⟩
    unfold Image.byteAt fatInRoot
    simp only [if_neg other.1, if_neg other.2.1, if_neg other.2.2]
  · exact ⟨fun a isSlot => isSlot ▸ by decide +kernel, fun a isSlot => .inl ⟨1, by decide, isSlot⟩⟩
  · refine ⟨rfl, fun a kept => ?_⟩
    have other : a ≠ 9739 + 32 := fun isAttr => kept ⟨9760, rfl, by omega, by omega⟩
    unfold Image.byteAt deletedNextToLabel
    simp only [if_neg other]
  · exact printDiskLabel_settles (by decide +kernel :
      DiskInfo.printDiskLabel (deletedNextToLabel 0 32 0x10) 3 = .ok (some [0x56, 0, 0, 0, 0, 0, 0, 0]))
  · exact printDiskLabel_settles (by decide +kernel :
      DiskInfo.printDiskLabel (deletedNextToLabel 0 32 0x08) 3 = .ok (some [0xE5, 0, 0, 0, 0, 0, 0, 0]))

end CSC360.Disk
