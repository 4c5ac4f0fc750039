import CSC360.Disk.FileContents
import CSC360.Disk.Listing
import CSC360.Disk.OutputGrows

/-!
# File contents that reach the output

A cluster that belongs to no directory can be rewritten without changing the fixed
bytes (`Image.patch`), and the volume stays one with the same directories
(`Volume.congr`). If the label scan gets to the first such cluster, a label entry in
it changes the reported label (`label_leaks`). If the listing of the root sectors
gets there, a file entry in it adds a line to disklist's output (`listing_leaks`).
-/

namespace CSC360.Disk
open CSC360.Base

variable {p p' : Image} {N n c₀ : Nat} {tree : Forest Dir}

/-! ## Rewriting the free cluster -/

/-- The image with the bytes of cluster `c` replaced. -/
def Image.patch (p : Image) (c : Nat) (bytes : Nat → UInt8) : Image where
  size := p.size
  byte a := if clusterAddr c ≤ a ∧ a < clusterAddr c + 512 then bytes (a - clusterAddr c) else p.byte a

theorem byteAt_patch {c i : Nat} (bytes : Nat → UInt8) (inside : clusterAddr c + 512 ≤ p.size) (lt : i < 512) :
    (p.patch c bytes).byteAt (clusterAddr c + i) = bytes i := by
  have here : clusterAddr c + i < (p.patch c bytes).size := by
    show clusterAddr c + i < p.size
    omega
  rw [Image.byteAt, dif_pos here]
  show (if clusterAddr c ≤ clusterAddr c + i ∧ clusterAddr c + i < clusterAddr c + 512 then
    bytes (clusterAddr c + i - clusterAddr c) else _) = bytes i
  rw [if_pos (by omega), Nat.add_sub_cancel_left]

theorem byteAt_patch_outside {a c : Nat} (bytes : Nat → UInt8)
    (outside : ¬ (clusterAddr c ≤ a ∧ a < clusterAddr c + 512)) : (p.patch c bytes).byteAt a = p.byteAt a := by
  unfold Image.byteAt Image.patch
  simp only [if_neg outside]

theorem same_patch (free : FirstFree tree c₀) (bytes : Nat → UInt8) :
    SameBytes (fixed tree) p (p.patch c₀ bytes) where
  size := rfl
  byte a isFixed := by
    refine (byteAt_patch_outside bytes ?_).symm
    rintro ⟨low, high⟩
    have := free.low
    rcases isFixed with system | ⟨c, dir, low', high'⟩
    · simp only [clusterAddr, SECTOR_SIZE] at low system
      omega
    · have : c = c₀ := by
        simp only [clusterAddr, SECTOR_SIZE] at low high low' high'
        omega
      exact free.free (this ▸ dir)

/-- Live directory entries in fixed slots are fixed. -/
theorem liveDir_congr {r : Nat → Prop} (same : SameBytes r p p') {s : Slot} (covers : Covers r s) :
    LiveDir p s ↔ LiveDir p' s := by
  rw [← kind_eq_dir, ← kind_eq_dir, (same.slot covers).kind]

theorem Volume.n_le (vol : Volume p N n tree) : n ≤ 224 := by
  rcases vol.ends with full | ⟨lt, _⟩ <;> omega

/-- The slots of the root directory and of the directories in the tree are fixed. -/
theorem Volume.covers (vol : Volume p N n tree) {s : Slot} (mem : s ∈ scanned (rootSlots 0 n) tree) :
    Covers (fixed tree) s := by
  rcases List.mem_append.1 mem with mem | mem
  · obtain ⟨i, lt, rfl⟩ := mem_rootSlots.1 mem
    have few := vol.n_le
    intro k below
    exact fixed_low (by simp only [rootSlot, SECTOR_SIZE]; omega)
  · obtain ⟨d, node, mem⟩ := List.mem_flatMap.1 mem
    obtain ⟨c, inChain, mem⟩ := List.mem_flatMap.1 mem
    exact covers_clusterSlots (covers_dirCluster ⟨d, node, inChain⟩) s mem

theorem Volume.covers_entry (vol : Volume p N n tree) {d : Dir} (node : d ∈ tree.nodes) :
    Covers (fixed tree) d.entry := by
  obtain ⟨s, reach, opens⟩ := vol.unfolds.entered_of_mem node
  rw [opens.entry]
  exact vol.covers ((vol.unfolds.mem_places_iff deterministic_opens).2 reach)

theorem FatChain.congr (vol : Volume p N n tree) (same : SameBytes (fixed tree) p p') {c : Nat} {cs : List Nat}
    (chain : FatChain p N c cs) : FatChain p' N c cs := by
  induction chain with
  | last low high marker => exact .last low high (vol.same_fatEntry same high ▸ marker)
  | link low high below _ ih =>
    exact .link low high (vol.same_fatEntry same high ▸ below) (vol.same_fatEntry same high ▸ ih)

/-- A volume with the same fixed bytes has the same directories. -/
theorem Volume.congr (vol : Volume p N n tree) (same : SameBytes (fixed tree) p p')
    (tail : ∀ a, N * SECTOR_SIZE ≤ a → p'.byteAt a = 0) : Volume p' N n tree := by
  have rootFirst : ∀ j, j < 224 → p'.first (rootSlot j) = p.first (rootSlot j) := fun j lt =>
    (same.byte _ (fixed_low (by simp only [rootSlot, SECTOR_SIZE]; omega))).symm
  have few := vol.n_le
  constructor
  · refine ⟨?_, ?_, same.size ▸ vol.layout.size, vol.layout.sectors⟩
    · rw [← same_word same (by simp only [SECTOR_SIZE]; omega), vol.layout.bytesPerSector]
    · rw [← same_word same (by simp only [SECTOR_SIZE]; omega), vol.layout.reservedSectors]
  · exact tail
  · rw [← same_word same (by simp only [SECTOR_SIZE]; omega), vol.total]
  · rw [← same_maxRootEntries same, vol.limit]
  · exact vol.fat
  · intro j lt
    rw [rootFirst j (by omega)]
    exact vol.used j lt
  · rcases vol.ends with full | ⟨lt, free⟩
    · exact .inl full
    · exact .inr ⟨lt, by rw [rootFirst n lt, free]⟩
  · refine vol.unfolds.mono (fun s mem d node opens => ?_) fun s mem leaf live => ?_
    · exact ⟨opens.entry, (liveDir_congr same (vol.covers mem)).1 opens.live,
        same.flc (vol.covers mem) ▸ opens.chain.congr vol same⟩
    · exact leaf ((liveDir_congr same (vol.covers mem)).2 live)
  · exact vol.disjoint
  · intro d node s mem isDot live
    have covers := vol.covers (List.mem_append_right _ (List.mem_flatMap.2 ⟨d, node, mem⟩))
    have covers' : Covers (fixed tree) ⟨s.addr, false⟩ := covers
    have live' := (liveDir_congr same covers').2 live
    obtain ⟨e, node', flc⟩ := vol.dots d node s mem ((same.first covers).trans isDot) live'
    refine ⟨e, node', ?_⟩
    rw [← same.flc covers, ← same.flc (vol.covers_entry node'), flc]

/-! ## A label in the free cluster -/

theorem rootSlot_free (c : Nat) : (rootSlot (16 * (12 + c))).addr = clusterAddr c := by
  simp only [rootSlot, clusterAddr, SECTOR_SIZE]
  omega

theorem labelLoop_free {i fuel : Nat} {label : Option (List UInt8)} (isFree : p.first (rootSlot i) = 0)
    (inside : (rootSlot i).addr + 1 ≤ p.size) : DiskInfo.labelLoop p (fuel + 1) i label = .ok label := by
  rw [DiskInfo.labelLoop, Image.read_of_le inside, ok_bind, if_pos (show p.byteAt (rootSlot i).addr = 0 from isFree)]
  rfl

theorem labelLoop_used {i fuel : Nat} {label : Option (List UInt8)} (used : p.first (rootSlot i) ≠ 0)
    (inside : (rootSlot i).addr + 12 ≤ p.size) :
    DiskInfo.labelLoop p (fuel + 1) i label = DiskInfo.labelLoop p fuel (i + 1)
      (if p.attr (rootSlot i) ≠ 0x0F ∧ p.attr (rootSlot i) &&& 0x08 = 0x08 then
        some ((List.range 8).map fun j => p.byteAt ((rootSlot i).addr + j)) else label) := by
  rw [DiskInfo.labelLoop, Image.read_of_le (by omega), ok_bind,
    if_neg (show ¬ p.byteAt (rootSlot i).addr = 0 from used), Image.touch_eq_ok.2 inside, ok_bind]
  split <;> rfl

/-- The label scan gets past slots in use. -/
theorem labelLoop_skip : ∀ {m i : Nat} (label : Option (List UInt8)),
    (∀ j, j < m → p.first (rootSlot (i + j)) ≠ 0) → (rootSlot (i + m)).addr ≤ p.size →
    ∃ label', ∀ fuel, DiskInfo.labelLoop p (fuel + m) i label = DiskInfo.labelLoop p fuel (i + m) label' := by
  intro m
  induction m with
  | zero => exact fun {i} label _ _ => ⟨label, fun _ => rfl⟩
  | succ m ih =>
    intro i label used inside
    have here : (rootSlot i).addr + 12 ≤ p.size := by
      simp only [rootSlot] at inside ⊢
      omega
    obtain ⟨label', rest⟩ := ih (i := i + 1)
      (if p.attr (rootSlot i) ≠ 0x0F ∧ p.attr (rootSlot i) &&& 0x08 = 0x08 then
        some ((List.range 8).map fun j => p.byteAt ((rootSlot i).addr + j)) else label)
      (fun j lt => by rw [Nat.add_right_comm]; exact used (j + 1) (by omega))
      (by rw [Nat.add_right_comm]; exact inside)
    refine ⟨label', fun fuel => ?_⟩
    have first : p.first (rootSlot i) ≠ 0 := used 0 (by omega)
    rw [← Nat.add_assoc, labelLoop_used first here, rest, Nat.add_right_comm, Nat.add_assoc]

/-- A label entry with the name `bbbbbbbb`, then a free slot. -/
def labelBytes (b : UInt8) (i : Nat) : UInt8 := if i < 8 then b else if i = 11 then 0x08 else 0

theorem labelBytes_name (b : UInt8) : (List.range 8).map (labelBytes b) = List.replicate 8 b := rfl

/-- A free slot ends the scan, a label entry before it names the volume. -/
theorem labelLoop_label {i fuel : Nat} {b : UInt8} {label : Option (List UInt8)} (isName : b ≠ 0)
    (inside : (rootSlot i).addr + 512 ≤ p.size)
    (bytes : ∀ k, k < 512 → p.byteAt ((rootSlot i).addr + k) = labelBytes b k) :
    DiskInfo.labelLoop p (fuel + 2) i label = .ok (some (List.replicate 8 b)) := by
  have used : p.first (rootSlot i) ≠ 0 := by
    rw [Image.first, ← Nat.add_zero (rootSlot i).addr, bytes 0 (by omega)]
    exact isName
  have attr : p.attr (rootSlot i) = 0x08 := bytes 11 (by omega)
  have name : ((List.range 8).map fun j => p.byteAt ((rootSlot i).addr + j)) = List.replicate 8 b := by
    rw [← labelBytes_name]
    exact List.map_congr_left fun j mem => bytes j (by have := List.mem_range.1 mem; omega)
  have next : (rootSlot (i + 1)).addr = (rootSlot i).addr + 32 := by
    simp only [rootSlot]
    omega
  have isFree : p.first (rootSlot (i + 1)) = 0 := by
    rw [Image.first, next]
    exact bytes 32 (by omega)
  rw [labelLoop_used used (by omega), attr, name, if_pos (by decide), labelLoop_free isFree (by omega)]

namespace Volume

variable (vol : Volume p N n tree) (big : 31 + c₀ < N)
include vol big

theorem patch_inside : clusterAddr c₀ + 512 ≤ p.size := cluster_inside vol.layout.size big

variable (free : FirstFree tree c₀)
include free

/-- With other bytes in the free cluster the volume has the same directories. -/
theorem patch (bytes : Nat → UInt8) : Volume (p.patch c₀ bytes) N n tree := by
  refine vol.congr (same_patch free bytes) fun a behind => ?_
  rw [byteAt_patch_outside bytes, vol.tail a behind]
  rintro ⟨-, before⟩
  simp only [clusterAddr, SECTOR_SIZE] at before behind
  omega

/-- With no free slot before it, the label scan gets to the rewritten cluster. -/
theorem labelLoop_patch (noFree : ¬ SlotFree p c₀) (bytes : Nat → UInt8) : ∃ label', ∀ fuel,
    DiskInfo.printDiskLabel (p.patch c₀ bytes) (fuel + 16 * (12 + c₀)) =
      DiskInfo.labelLoop (p.patch c₀ bytes) fuel (16 * (12 + c₀)) label' := by
  have inside := vol.patch_inside big
  obtain ⟨label', skip⟩ := labelLoop_skip (p := p.patch c₀ bytes) (m := 16 * (12 + c₀)) (i := 0) none
    (fun j lt => by
      rw [Nat.zero_add, ← (same_patch free bytes).first (covers_rootSlot free lt)]
      exact fun isFree => noFree ⟨j, lt, isFree⟩)
    (by
      rw [Nat.zero_add, rootSlot_free]
      show clusterAddr c₀ ≤ p.size
      omega)
  rw [Nat.zero_add] at skip
  exact ⟨label', skip⟩

theorem label_leaks (noFree : ¬ SlotFree p c₀) : ¬ ContentsIrrelevant p N n tree := by
  intro irrelevant
  have inside := vol.patch_inside big
  have outputs := fun bytes => irrelevant _ (vol.patch big free bytes) (same_patch free bytes)
  obtain ⟨old, skip⟩ := vol.labelLoop_patch big free noFree fun _ => 0
  have unlabelled : ∀ fuel, DiskInfo.printDiskLabel (p.patch c₀ fun _ => 0) (fuel + 2 + 16 * (12 + c₀)) = .ok old := by
    intro fuel
    rw [skip]
    apply labelLoop_free
    · have zero := byteAt_patch (fun _ => 0) inside (show 0 < 512 by omega)
      rwa [Nat.add_zero, ← rootSlot_free] at zero
    · rw [rootSlot_free]
      show clusterAddr c₀ + 1 ≤ p.size
      omega
  obtain ⟨b, isName, other⟩ : ∃ b : UInt8, b ≠ 0 ∧ old ≠ some (List.replicate 8 b) := by
    by_cases named : old = some (List.replicate 8 0x41)
    · exact ⟨0x42, by decide, by rw [named]; decide⟩
    · exact ⟨0x41, by decide, named⟩
  obtain ⟨old', skip'⟩ := vol.labelLoop_patch big free noFree (labelBytes b)
  have labelled : ∀ fuel, DiskInfo.printDiskLabel (p.patch c₀ (labelBytes b)) (fuel + 2 + 16 * (12 + c₀)) =
      .ok (some (List.replicate 8 b)) := by
    intro fuel
    rw [skip']
    apply labelLoop_label isName
    · rw [rootSlot_free]
      exact inside
    · intro k lt
      rw [rootSlot_free]
      exact byteAt_patch _ inside lt
  obtain ⟨bound, agree⟩ := (outputs fun _ => 0).label.symm.trans (outputs (labelBytes b)).label
  have same := agree (bound + 2 + 16 * (12 + c₀)) (by omega)
  rw [unlabelled, labelled] at same
  exact other (Except.ok.inj same)

end Volume

/-! ## A file entry in the free cluster -/

/-- The listing of root sectors gets past sectors in use, alike on both images. -/
theorem printRoot_skip {r : Nat → Prop} (same : SameBytes r p p') (left : Nat) : ∀ {m a : Nat},
    (∀ j, j < m → p.byteAt (a + SECTOR_SIZE * j) ≠ 0 ∧ CoversSector r (a + SECTOR_SIZE * j)) →
    a + SECTOR_SIZE * m + 1 ≤ p.size → ∀ st, ∃ st',
      DiskList.printRoot p (left + m) a st = DiskList.printRoot p left (a + SECTOR_SIZE * m) st' ∧
      DiskList.printRoot p' (left + m) a st = DiskList.printRoot p' left (a + SECTOR_SIZE * m) st' := by
  intro m
  induction m with
  | zero =>
    intro a _ _ st
    rw [Nat.mul_zero, Nat.add_zero, Nat.add_zero]
    exact ⟨st, rfl, rfl⟩
  | succ m ih =>
    intro a sectors inside st
    have start := sectors 0 (by omega)
    rw [Nat.mul_zero, Nat.add_zero] at start
    obtain ⟨used, covers⟩ := start
    have step (k : Nat) : a + SECTOR_SIZE + SECTOR_SIZE * k = a + SECTOR_SIZE * (k + 1) := by
      rw [Nat.mul_succ]
      omega
    have size : a + 512 + 1 ≤ p.size := by
      refine Nat.le_trans ?_ inside
      simp only [SECTOR_SIZE]
      omega
    have listable : DiskList.Listable p a := ⟨Nat.le_of_succ_le size, .inr size⟩
    have here := DiskList.listSector_eq listable st
    have here' := listSector_congr same.size (same.sectorSlot covers) st ▸ here
    obtain ⟨st', left', right'⟩ := ih (a := a + SECTOR_SIZE)
      (fun j lt => by rw [step]; exact sectors (j + 1) (by omega)) (by rw [step]; exact inside)
      (st.print (DiskList.sectorLines p a ++ [.newline]))
    have first : r a := covers 0 (by omega)
    have read : p.read a = .ok (p.byteAt a) := Image.read_of_le (by omega)
    refine ⟨st', ?_, ?_⟩
    · rw [← Nat.add_assoc, DiskList.printRoot, read, DiskList.checked_ok, ok_bind, if_neg used, here, ok_bind,
        left', step]
    · rw [← Nat.add_assoc, DiskList.printRoot, ← same.read first, read, DiskList.checked_ok, ok_bind,
        if_neg used, here', ok_bind, right', step]

/-- A file entry, then a free slot. -/
def fileBytes (i : Nat) : UInt8 := if i = 0 then 0x41 else if i = 26 then 2 else 0

/-- A sector that holds a file entry is listed with an `F` line. -/
theorem listSector_file {a : Nat} (inside : a + 512 ≤ p.size)
    (bytes : ∀ k, k < 512 → p.byteAt (a + k) = fileBytes k) (st : DiskList.Printer) :
    DiskList.listSector p a st = .ok (st.print [DiskList.fileLine p ⟨a, true⟩, .newline]) := by
  have first : p.first ⟨a, true⟩ = 0x41 := bytes 0 (by omega)
  have attr : p.attr ⟨a, true⟩ = 0 := bytes 11 (by omega)
  have flc : p.flc ⟨a, true⟩ = 2 := by
    rw [Image.flc, Image.word, bytes 26 (by omega), Nat.add_assoc, bytes 27 (by omega)]
    rfl
  have isFile : p.kind ⟨a, true⟩ = .file := by
    rw [Image.kind, first, attr, flc]
    rfl
  have isFree : p.first ⟨a + 32, true⟩ = 0 := bytes 32 (by omega)
  have slots : DiskList.sectorSlots a = ⟨a, true⟩ :: ⟨a + 32, true⟩ :: DiskList.slotsFrom 14 (a + 32 + 32) := by
    rw [← DiskList.slotsFrom_succ, ← DiskList.slotsFrom_succ]
    rfl
  have used : DiskList.usedSlots p (DiskList.sectorSlots a) = [⟨a, true⟩] := by
    rw [slots, DiskList.usedSlots_cons_used (by rw [first]; decide), DiskList.usedSlots_cons_free isFree]
  have listable : DiskList.Listable p a := by
    refine ⟨inside, .inl ⟨⟨a + 32, true⟩, ?_, isFree⟩⟩
    rw [slots]
    simp
  rw [DiskList.listSector_eq listable st, DiskList.sectorLines, used, List.flatMap_singleton, DiskList.entryLine, isFile]
  rfl

/-- The listing of the root ends at a sector that begins with a free slot. -/
theorem printRoot_free {a : Nat} (inside : a + 1 ≤ p.size) (isFree : p.byteAt a = 0) (k : Nat) (st : DiskList.Printer) :
    DiskList.printRoot p (k + 1) a st = .ok st := by
  have read := Image.read_of_le inside
  rw [isFree] at read
  rw [DiskList.printRoot, read, DiskList.checked_ok, ok_bind, if_pos rfl]
  rfl

/-- At a sector with a file entry it goes on with the entry's line. -/
theorem printRoot_file {a : Nat} (inside : a + 512 ≤ p.size) (bytes : ∀ k, k < 512 → p.byteAt (a + k) = fileBytes k)
    (k : Nat) (st : DiskList.Printer) :
    st.out ++ [DiskList.fileLine p ⟨a, true⟩, .newline] <+: DiskList.written (DiskList.printRoot p (k + 1) a st) := by
  have read := Image.read_of_le (p := p) (show a + 1 ≤ p.size by omega)
  rw [← Nat.add_zero a, bytes 0 (by omega), Nat.add_zero] at read
  rw [DiskList.printRoot, read, DiskList.checked_ok, ok_bind, if_neg (by decide), listSector_file inside bytes, ok_bind]
  exact DiskList.grows_printRoot k (a + SECTOR_SIZE) (st.print [DiskList.fileLine p ⟨a, true⟩, .newline])

/-- Equal results of `print_entire_image` have the same output. -/
theorem written_of_eq {fuel : Nat} (same : DiskList.printEntireImage p fuel = DiskList.printEntireImage p' fuel) :
    DiskList.written (DiskList.printRoot p 19 (SECTOR_SIZE * 19) ⟨[.root], []⟩ >>=
        DiskList.rootLoop p (DiskList.parseSub p fuel) (DiskList.maxRootEntries p) 0) =
      DiskList.written (DiskList.printRoot p' 19 (SECTOR_SIZE * 19) ⟨[.root], []⟩ >>=
        DiskList.rootLoop p' (DiskList.parseSub p' fuel) (DiskList.maxRootEntries p') 0) := by
  have output : ∀ x : Except DiskList.Stop DiskList.Printer, DiskList.written x =
      match x >>= fun st => pure st.out with
      | .ok out => out
      | .error stop => stop.out := fun x => by
    cases x <;> rfl
  have whole : ∀ q, DiskList.printEntireImage q fuel =
      (DiskList.printRoot q 19 (SECTOR_SIZE * 19) ⟨[.root], []⟩ >>=
        DiskList.rootLoop q (DiskList.parseSub q fuel) (DiskList.maxRootEntries q) 0) >>= fun st => pure st.out :=
    fun q => (bind_assoc _ _ _).symm
  rw [output, output, ← whole, ← whole, same]

namespace Volume

variable (vol : Volume p N n tree) (big : 31 + c₀ < N) (free : FirstFree tree c₀)
include vol big free

/-- The listings of the root come to the free cluster alike: a zero byte in front ends them, a
file entry is printed. -/
theorem root_listings (noFree : ¬ SectorFree p c₀) : ∃ st,
    DiskList.printRoot (p.patch c₀ fun _ => 0) 19 (SECTOR_SIZE * 19) ⟨[.root], []⟩ = .ok st ∧
      st.out ++ [DiskList.fileLine (p.patch c₀ fileBytes) ⟨clusterAddr c₀, true⟩, .newline] <+:
        DiskList.written (DiskList.printRoot (p.patch c₀ fileBytes) 19 (SECTOR_SIZE * 19) ⟨[.root], []⟩) := by
  have inside := vol.patch_inside big
  have few : 12 + c₀ < 19 := by
    by_contra all
    exact noFree (.inl (by omega))
  have same := (same_patch (p := p) free fun _ => 0).symm.trans (same_patch free fileBytes)
  have at' : SECTOR_SIZE * 19 + SECTOR_SIZE * (12 + c₀) = clusterAddr c₀ := by
    simp only [clusterAddr, SECTOR_SIZE]
    omega
  have used : ∀ j, j < 12 + c₀ → (p.patch c₀ fun _ => 0).byteAt (SECTOR_SIZE * 19 + SECTOR_SIZE * j) ≠ 0 ∧
      CoversSector (fixed tree) (SECTOR_SIZE * 19 + SECTOR_SIZE * j) := by
    intro j lt
    have covers := covers_sector free lt
    have first : fixed tree (SECTOR_SIZE * 19 + SECTOR_SIZE * j) := covers 0 (by omega)
    refine ⟨?_, covers⟩
    rw [← (same_patch free fun _ => 0).byte _ first]
    exact fun isFree => noFree (.inr ⟨j, lt, isFree⟩)
  have room : SECTOR_SIZE * 19 + SECTOR_SIZE * (12 + c₀) + 1 ≤ (p.patch c₀ fun _ => 0).size := by
    rw [at']
    show clusterAddr c₀ + 1 ≤ p.size
    omega
  obtain ⟨st, left, right⟩ := printRoot_skip same (19 - (12 + c₀)) used room ⟨[.root], []⟩
  have whole : 19 - (12 + c₀) + (12 + c₀) = 19 := by omega
  obtain ⟨more, eq⟩ : ∃ k, 19 - (12 + c₀) = k + 1 := ⟨6 - c₀, by omega⟩
  rw [whole, at', eq] at left right
  refine ⟨st, ?_, ?_⟩
  · have zero := byteAt_patch (fun _ => 0) inside (show 0 < 512 by omega)
    rw [Nat.add_zero] at zero
    rw [left]
    exact printRoot_free (p := p.patch c₀ fun _ => 0) (show clusterAddr c₀ + 1 ≤ p.size by omega) zero more st
  · rw [right]
    exact printRoot_file (p := p.patch c₀ fileBytes) inside (fun k lt => byteAt_patch _ inside lt) more st

theorem listing_leaks (noFree : ¬ SectorFree p c₀) : ¬ ContentsIrrelevant p N n tree := by
  intro irrelevant
  have outputs := fun bytes => irrelevant _ (vol.patch big free bytes) (same_patch free bytes)
  obtain ⟨bound, agree⟩ := (outputs fun _ => 0).listing.symm.trans (outputs fileBytes).listing
  obtain ⟨st, ends, goes⟩ := vol.root_listings big free noFree
  have output := written_of_eq (agree bound (Nat.le_refl _))
  rw [ends, ok_bind] at output
  have grows := DiskList.grows_rootLoop (p := p.patch c₀ fileBytes)
    (DiskList.grows_parseSub (p := p.patch c₀ fileBytes) bound) (DiskList.maxRootEntries (p.patch c₀ fileBytes)) 0
  have file := goes.trans (DiskList.written_bind grows)
  rw [← output] at file
  obtain ⟨rest, shown⟩ := file
  -- after the end of the root listing comes a header, no file line
  have second := DiskList.written_rootLoop (p := p.patch c₀ fun _ => 0)
    (DiskList.grows_parseSub (p := p.patch c₀ fun _ => 0) bound)
    (DiskList.maxRootEntries (p.patch c₀ fun _ => 0)) 0 st
  rcases second with nothing | ⟨path, ⟨rest', header⟩⟩
  · rw [nothing, List.append_assoc] at shown
    simp at shown
  · rw [← header, List.append_assoc, List.append_assoc, List.append_cancel_left_eq] at shown
    simp [DiskList.fileLine] at shown

end Volume

end CSC360.Disk
