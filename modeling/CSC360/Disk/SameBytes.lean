import CSC360.Base.Fuel
import CSC360.Disk.DiskInfo
import CSC360.Disk.DiskList

/-!
# Runs on two images with common bytes

What a run computes depends only on the bytes it reads. `SameBytes` says which
bytes two images have in common, and the lemmas follow the programs: a slot, a
sector, a chain of clusters, a directory with everything below it. The clusters of
the directories form a closed set (`Closed`): no chain and no directory entry
leads out of it.
-/

namespace CSC360.Disk
open CSC360.Base

/-- The images have the same size and the same bytes at the offsets `r`. -/
structure SameBytes (r : Nat → Prop) (p p' : Image) : Prop where
  size : p.size = p'.size
  byte : ∀ a, r a → p.byteAt a = p'.byteAt a

/-- All bytes of the slot are among the offsets. -/
def Covers (r : Nat → Prop) (s : Slot) : Prop := ∀ i, i < 32 → r (s.addr + i)

/-- All bytes of the sector at `a` are among the offsets. -/
def CoversSector (r : Nat → Prop) (a : Nat) : Prop := ∀ i, i < 512 → r (a + i)

/-- The images agree on the slot as far as scans of directories look: the other bytes of
a deleted entry (first byte `0xE5`) may differ. -/
structure SameSlot (p p' : Image) (s : Slot) : Prop where
  size : p.size = p'.size
  first : p.first s = p'.first s
  rest : p.first s ≠ 0xE5 → ∀ i, i < 32 → p.byteAt (s.addr + i) = p'.byteAt (s.addr + i)

variable {r : Nat → Prop} {p p' : Image}

theorem touch_congr (size : p.size = p'.size) (a n : Nat) : p.touch a n = p'.touch a n := by
  rw [Image.touch, Image.touch, size]

/-- `get_FAT_entry` reads the two bytes of the entry. -/
theorem getFATEntry_congr {base : Int} {n : Nat} (size : p.size = p'.size)
    (bytes : ∀ a : Nat, (a : Int) = base + Image.entryOffset n ∨ (a : Int) = base + Image.entryOffset n + 1 →
      p.byteAt a = p'.byteAt a) : p.getFATEntry base n = p'.getFATEntry base n := by
  simp only [Image.getFATEntry, ← size]
  split
  · have lo := bytes (base + Image.entryOffset n).toNat (.inl (by omega))
    have hi := bytes ((base + Image.entryOffset n).toNat + 1) (.inr (by omega))
    rw [Image.decodeEntry, Image.decodeEntry, lo, hi]
  · rfl

namespace SameSlot

variable {s : Slot} (same : SameSlot p p' s)
include same

/-! ## A slot -/

theorem touch (a n : Nat) : p.touch a n = p'.touch a n := touch_congr same.size a n

theorem read : p.read s.addr = p'.read s.addr := by
  rw [Image.read, Image.read, same.touch, show p.byteAt s.addr = p'.byteAt s.addr from same.first]

theorem kind : p.kind s = p'.kind s := by
  by_cases deleted : p.first s = 0xE5
  · have deleted' : p'.first s = 0xE5 := same.first.symm.trans deleted
    rw [Image.kind, Image.kind, if_pos (by simp [deleted]), if_pos (by simp [deleted'])]
  · have attr : p.attr s = p'.attr s := same.rest deleted 11 (by omega)
    have flc : p.flc s = p'.flc s := by
      rw [Image.flc, Image.flc, Image.word, Image.word, Nat.add_assoc, same.rest deleted 26 (by omega),
        same.rest deleted 27 (by omega)]
    rw [Image.kind, Image.kind, same.first, attr, flc]

theorem classify : p.classify s = p'.classify s := by
  rw [Image.classify, Image.classify, same.touch, same.kind]

section Used

variable (used : p.first s ≠ 0xE5)
include used

theorem word {i : Nat} (lt : i < 31) : p.word (s.addr + i) = p'.word (s.addr + i) := by
  rw [Image.word, Image.word, Nat.add_assoc, same.rest used i (by omega), same.rest used (i + 1) (by omega)]

theorem flc : p.flc s = p'.flc s := same.word used (by omega)

theorem nameField {lo n : Nat} (le : lo + n ≤ 32) : DiskList.nameField p s lo n = DiskList.nameField p' s lo n := by
  have bytes : ((List.range n).map fun i => p.byteAt (s.addr + lo + i)) =
      (List.range n).map fun i => p'.byteAt (s.addr + lo + i) := by
    apply List.map_congr_left
    intro i mem
    have lt := List.mem_range.1 mem
    rw [Nat.add_assoc]
    exact same.rest used (lo + i) (by omega)
  rw [DiskList.nameField, DiskList.nameField, bytes]

theorem component : DiskList.component p s = DiskList.component p' s := by
  rw [DiskList.component, DiskList.component, same.nameField used (by omega)]

theorem printDatetime : DiskList.printDatetime p s = DiskList.printDatetime p' s := by
  rw [DiskList.printDatetime, DiskList.printDatetime, same.word used (by omega), same.word used (by omega)]

theorem fileLine : DiskList.fileLine p s = DiskList.fileLine p' s := by
  have size : DiskList.filesize p s = DiskList.filesize p' s := by
    simp only [DiskList.filesize, same.rest used 28 (by omega), same.rest used 29 (by omega),
      same.rest used 30 (by omega), same.rest used 31 (by omega)]
  have name : DiskList.printFilename p s = DiskList.printFilename p' s := by
    simp only [DiskList.printFilename, same.nameField used (show 0 + 8 ≤ 32 by omega),
      same.nameField used (show 8 + 3 ≤ 32 by omega)]
  rw [DiskList.fileLine, DiskList.fileLine, size, name, same.printDatetime used]

theorem dirLine : DiskList.dirLine p s = DiskList.dirLine p' s := by
  have name : DiskList.printSubdirName p s = DiskList.printSubdirName p' s := by
    rw [DiskList.printSubdirName, DiskList.printSubdirName, same.nameField used (by omega)]
  rw [DiskList.dirLine, DiskList.dirLine, name, same.printDatetime used]

end Used

omit same in
/-- What a scan takes for a file or a directory is not a deleted entry. -/
theorem used_of_kind (kept : p.kind s ≠ .skip) : p.first s ≠ 0xE5 := by
  intro deleted
  rw [Image.kind, if_pos (by simp [deleted])] at kept
  exact kept rfl

omit same in
theorem used_of_classify {k : Kind} (isKind : p.classify s = .ok k) (kept : k ≠ .skip) : p.first s ≠ 0xE5 := by
  rw [Image.classify, bind_eq_ok] at isKind
  obtain ⟨_, _, isKind⟩ := isKind
  exact used_of_kind (Except.ok.inj isKind ▸ kept)

/-! ## The scans' steps -/

theorem printEntry (st : DiskList.Printer) : DiskList.printEntry p s st = DiskList.printEntry p' s st := by
  rw [DiskList.printEntry, DiskList.printEntry, ← same.classify, ← same.touch]
  cases isKind : p.classify s with
  | error fault => simp only [DiskList.Printer.checked, mapError_error, error_bind]
  | ok kind =>
    simp only [DiskList.Printer.checked, mapError_ok, ok_bind]
    cases kind with
    | skip => rfl
    | file => simp only [same.fileLine (used_of_classify isKind (by decide))]
    | dir => simp only [same.dirLine (used_of_classify isKind (by decide))]

theorem countSlot {sub sub' : Nat → Except Fault Int}
    (subs : p.classify s = .ok .dir → sub (p.flc s) = sub' (p.flc s)) (total : Int) :
    DiskInfo.countSlot p sub total s = DiskInfo.countSlot p' sub' total s := by
  rw [DiskInfo.countSlot, DiskInfo.countSlot, ← same.classify]
  cases isKind : p.classify s with
  | error fault => rfl
  | ok kind =>
    cases kind with
    | skip => rfl
    | file => rfl
    | dir => simp only [ok_bind, ← same.flc (used_of_classify isKind (by decide)), subs isKind]

theorem descend {path path' : DiskList.Printer → Slot → List UInt8}
    {sub sub' : Nat → DiskList.Printer → Except DiskList.Stop DiskList.Printer}
    (paths : p.first s ≠ 0xE5 → ∀ st, path st s = path' st s)
    (subs : p.classify s = .ok .dir → sub (p.flc s) = sub' (p.flc s)) (st : DiskList.Printer) :
    DiskList.descend p path sub st s = DiskList.descend p' path' sub' st s := by
  rw [DiskList.descend, DiskList.descend, ← same.classify]
  cases isKind : p.classify s with
  | error fault => rfl
  | ok kind =>
    cases kind with
    | skip => rfl
    | file => rfl
    | dir =>
      have used := used_of_classify isKind (by decide)
      rw [← same.flc used, ← paths used, subs isKind]

end SameSlot

/-! ## A sector -/

theorem printSlots_congr (size : p.size = p'.size) : ∀ {left temp : Nat},
    (∀ i, i < left → SameSlot p p' ⟨temp + 32 * i, true⟩) → ∀ st : DiskList.Printer,
      DiskList.printSlots p left temp st = DiskList.printSlots p' left temp st := by
  intro left
  induction left with
  | zero =>
    intro temp _ st
    -- the byte behind the sector is read but its value is not used
    rw [DiskList.printSlots, DiskList.printSlots, Image.read, Image.read, touch_congr size]
    unfold Image.touch
    split <;> rfl
  | succ left ih =>
    intro temp same st
    have here : SameSlot p p' ⟨temp, true⟩ := same 0 (by omega)
    have rest : ∀ i, i < left → SameSlot p p' ⟨temp + 32 + 32 * i, true⟩ := by
      intro i lt
      have later := same (i + 1) (by omega)
      rwa [Nat.mul_succ, Nat.add_comm (32 * i), ← Nat.add_assoc] at later
    rw [DiskList.printSlots, DiskList.printSlots, show p.read temp = p'.read temp from here.read]
    simp only [here.printEntry, ih rest]

theorem listSector_congr (size : p.size = p'.size) {a : Nat} (same : ∀ i, i < 16 → SameSlot p p' ⟨a + 32 * i, true⟩)
    (st : DiskList.Printer) : DiskList.listSector p a st = DiskList.listSector p' a st := by
  rw [DiskList.listSector, DiskList.listSector, DiskList.printDirectory, DiskList.printDirectory,
    printSlots_congr size same]

/-! ## Common bytes -/

namespace SameBytes

theorem symm (h : SameBytes r p p') : SameBytes r p' p := ⟨h.size.symm, fun a mem => (h.byte a mem).symm⟩

theorem trans {p'' : Image} (h : SameBytes r p p') (h' : SameBytes r p' p'') : SameBytes r p p'' :=
  ⟨h.size.trans h'.size, fun a mem => (h.byte a mem).trans (h'.byte a mem)⟩

variable (same : SameBytes r p p')
include same

theorem touch (a n : Nat) : p.touch a n = p'.touch a n := touch_congr same.size a n

theorem read {a : Nat} (covered : r a) : p.read a = p'.read a := by
  rw [Image.read, Image.read, same.touch, same.byte a covered]

theorem word {a : Nat} (lo : r a) (hi : r (a + 1)) : p.word a = p'.word a := by
  rw [Image.word, Image.word, same.byte a lo, same.byte (a + 1) hi]

variable {s : Slot} (covers : Covers r s)
include covers

theorem slotByte {i : Nat} (lt : i < 32) : p.byteAt (s.addr + i) = p'.byteAt (s.addr + i) :=
  same.byte _ (covers i lt)

theorem first : p.first s = p'.first s := same.slotByte covers (i := 0) (by omega)

theorem attr : p.attr s = p'.attr s := same.slotByte covers (by omega)

theorem flc : p.flc s = p'.flc s := same.word (covers 26 (by omega)) (covers 27 (by omega))

theorem slot : SameSlot p p' s := ⟨same.size, same.first covers, fun _ _ lt => same.slotByte covers lt⟩

omit covers in
theorem sectorSlot {a : Nat} (covered : CoversSector r a) : ∀ i, i < 16 → SameSlot p p' ⟨a + 32 * i, true⟩ := by
  intro i lt
  apply same.slot
  intro k below
  rw [Nat.add_assoc]
  exact covered _ (by omega)

end SameBytes

/-! ## The clusters of directories -/

/-- A chain loop started at `c` stops at once or enters the cluster set. -/
def Good (clusters : Nat → Prop) (c : Nat) : Prop := 0xff0 < c ∨ clusters c

/-- No FAT entry and no directory entry leads out of the clusters. -/
structure Closed (p : Image) (clusters : Nat → Prop) : Prop where
  next : ∀ c, clusters c → c ≤ 0xff0 → ∀ next, p.getFATEntry p.fatTableLocation c = .ok next → Good clusters next
  dirs : ∀ c, clusters c → ∀ s ∈ clusterSlots c, p.kind s = .dir → Good clusters (p.flc s)

/-- The images agree on the clusters and on their FAT entries. -/
structure SameClusters (r : Nat → Prop) (clusters : Nat → Prop) (p p' : Image) : Prop extends SameBytes r p p' where
  covered : ∀ c, clusters c → CoversSector r (clusterAddr c)
  entry : ∀ c, clusters c → c ≤ 0xff0 →
    p.getFATEntry p.fatTableLocation c = p'.getFATEntry p'.fatTableLocation c

variable {clusters : Nat → Prop}

theorem covers_clusterSlots {c : Nat} (covered : CoversSector r (clusterAddr c)) :
    ∀ s ∈ clusterSlots c, Covers r s := by
  intro s mem i lt
  simp only [clusterSlots, List.mem_map, List.mem_range] at mem
  obtain ⟨k, below, rfl⟩ := mem
  show r (clusterAddr c + 32 * k + i)
  rw [Nat.add_assoc]
  exact covered _ (by omega)

/-- Folds whose steps agree on the list's elements agree. -/
theorem foldlM_congr {ε σ α : Type} {f g : σ → α → Except ε σ} {l : List α}
    (same : ∀ a ∈ l, ∀ st, f st a = g st a) (st : σ) : l.foldlM f st = l.foldlM g st := by
  induction l generalizing st with
  | nil => rfl
  | cons a l ih =>
    rw [List.foldlM_cons, List.foldlM_cons, same a (by simp)]
    exact bind_congr fun st => ih (fun b mem => same b (List.mem_cons_of_mem _ mem)) st

/-- The scans of directories see the same in the clusters of both images, the FAT entries
are the same, and no entry leads out of the clusters. -/
structure SameDirs (clusters : Nat → Prop) (p p' : Image) : Prop where
  size : p.size = p'.size
  slots : ∀ c, clusters c → ∀ i, i < 16 → SameSlot p p' ⟨clusterAddr c + 32 * i, true⟩
  entry : ∀ c, clusters c → c ≤ 0xff0 →
    p.getFATEntry p.fatTableLocation c = p'.getFATEntry p'.fatTableLocation c
  next : ∀ c, clusters c → c ≤ 0xff0 → ∀ next, p.getFATEntry p.fatTableLocation c = .ok next → Good clusters next
  dirs : ∀ c, clusters c → c ≤ 0xff0 → ∀ s ∈ clusterSlots c, p.classify s = .ok .dir → Good clusters (p.flc s)

theorem SameClusters.sameDirs (same : SameClusters r clusters p p') (closed : Closed p clusters) :
    SameDirs clusters p p' where
  size := same.size
  slots c inside := same.sectorSlot (same.covered c inside)
  entry := same.entry
  next := closed.next
  dirs c inside _ s mem isDir := by
    rw [Image.classify, bind_eq_ok] at isDir
    obtain ⟨_, _, isDir⟩ := isDir
    exact closed.dirs c inside s mem (Except.ok.inj isDir)

namespace SameDirs

variable (same : SameDirs clusters p p')
include same

theorem slot {c : Nat} (inside : clusters c) : ∀ s ∈ clusterSlots c, SameSlot p p' s := by
  intro s mem
  obtain ⟨i, lt, rfl⟩ := List.mem_map.1 mem
  exact same.slots c inside i (List.mem_range.1 lt)

theorem clusterLoop {ε σ : Type} {stop : σ → Fault → ε} {body body' : Nat → σ → Except ε σ}
    (bodies : ∀ c, clusters c → c ≤ 0xff0 → ∀ st, body c st = body' c st) :
    ∀ {fuel c : Nat}, Good clusters c → ∀ st : σ,
      Disk.clusterLoop p stop body fuel c st = Disk.clusterLoop p' stop body' fuel c st := by
  intro fuel
  induction fuel with
  | zero => intro c _ st; rfl
  | succ fuel ih =>
    intro c good st
    rw [Disk.clusterLoop, Disk.clusterLoop]
    by_cases le : c ≤ 0xff0
    · have inside : clusters c := by
        rcases good with above | inside
        · omega
        · exact inside
      rw [if_pos le, if_pos le, bodies c inside le, ← same.entry c inside le]
      apply bind_congr
      intro st
      cases entry : p.getFATEntry p.fatTableLocation c with
      | error fault => rw [mapError_error, error_bind, error_bind]
      | ok next =>
        have good' : Good clusters next := same.next c inside le next entry
        rw [mapError_ok, ok_bind, ok_bind, ih good' st]
    · rw [if_neg le, if_neg le]

/-! ## The recursions -/

/-- **Counting below a cluster** reads the clusters of directories only. -/
theorem countBelow : ∀ {fuel c : Nat}, Good clusters c → DiskInfo.parseSub p fuel c = DiskInfo.parseSub p' fuel c := by
  intro fuel
  induction fuel with
  | zero => intro c _; rfl
  | succ fuel ih =>
    intro c good
    rw [DiskInfo.parseSub, DiskInfo.parseSub]
    apply same.clusterLoop _ good
    intro c inside le total
    apply foldlM_congr
    intro s mem total
    apply (same.slot inside s mem).countSlot
    exact fun isDir => ih (same.dirs c inside le s mem isDir)

/-- **Listing below a cluster** reads the clusters of directories only. -/
theorem listBelow : ∀ {fuel c : Nat}, Good clusters c →
    DiskList.parseSub p fuel c = DiskList.parseSub p' fuel c := by
  intro fuel
  induction fuel with
  | zero => intro c _; rfl
  | succ fuel ih =>
    intro c good
    funext st
    rw [DiskList.parseSub, DiskList.parseSub]
    rw [same.clusterLoop (fun c inside _ st => listSector_congr same.size (same.slots c inside) st) good]
    apply bind_congr
    intro st
    apply same.clusterLoop _ good
    intro c inside le st
    apply foldlM_congr
    intro s mem st
    have here := same.slot inside s mem
    apply here.descend
    · exact fun used st => by rw [DiskList.appendPath, DiskList.appendPath, here.component used]
    · exact fun isDir => ih (same.dirs c inside le s mem isDir)

end SameDirs

end CSC360.Disk
