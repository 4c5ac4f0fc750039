import CSC360.Disk.Walk
import Mathlib.Tactic.NormNum

/-!
# FAT12 volumes in the layout the programs assume

What a well-formed volume is, said without the programs: 512-byte sectors, one
reserved sector, the FAT from sector 1, the root directory's 224 slots at sectors
19 to 32, cluster `c` at sector `31 + c`. `WellFormed` says that the directories
form a finite tree whose chains end in a marker, share no cluster and lie inside
the volume. On chains of clusters up to `0xFF0` the programs' walk is that tree
(`WellFormed.walk`).
-/

namespace CSC360.Disk
open CSC360.Base

/-- The layout both programs assume, for a volume of `N` sectors; the mapping may go on behind them, to the
end of a page. -/
structure Layout (p : Image) (N : Nat) : Prop where
  bytesPerSector : p.word 11 = 512
  reservedSectors : p.word 14 = 1
  size : N * SECTOR_SIZE ≤ p.size
  sectors : 33 ≤ N

/-- Entry `c` of the 12-bit table packed from sector 1 on. -/
def Image.fatEntry (p : Image) (c : Nat) : Nat :=
  p.word (SECTOR_SIZE + 3 * c / 2) / (if c % 2 = 0 then 1 else 16) % 4096

/-- A live file entry. -/
structure LiveFile (p : Image) (s : Slot) : Prop where
  notDeleted : p.first s ≠ 0xE5
  noDot : ¬ (s.dots = true ∧ p.first s = 0x2E)
  notLongName : p.attr s ≠ 0x0F
  notLabel : p.attr s &&& 0x08 = 0
  notDir : p.attr s &&& 0x10 = 0
  cluster : 2 ≤ p.flc s

/-- A live directory entry. -/
structure LiveDir (p : Image) (s : Slot) : Prop where
  notDeleted : p.first s ≠ 0xE5
  noDot : ¬ (s.dots = true ∧ p.first s = 0x2E)
  notLongName : p.attr s ≠ 0x0F
  notLabel : p.attr s &&& 0x08 = 0
  isDir : p.attr s &&& 0x10 ≠ 0
  cluster : 2 ≤ p.flc s

/-- The FAT chain from `c`: clusters of the volume, up to the one whose entry is
an end-of-chain marker. -/
inductive FatChain (p : Image) (N : Nat) : Nat → List Nat → Prop where
  | last {c} : 2 ≤ c → 31 + c < N → 0xFF8 ≤ p.fatEntry c → FatChain p N c [c]
  | link {c cs} : 2 ≤ c → 31 + c < N → p.fatEntry c < 0xFF8 → FatChain p N (p.fatEntry c) cs →
      FatChain p N c (c :: cs)

/-- Slot `s` is the live entry of the directory `d`. -/
structure Opens (p : Image) (N : Nat) (s : Slot) (d : Dir) : Prop where
  entry : d.entry = s
  live : LiveDir p s
  chain : FatChain p N (p.flc s) d.chain

/-- All 32 bytes of the slot are zero. -/
def Blank (p : Image) (s : Slot) : Prop := ∀ i, i < 32 → p.byteAt (s.addr + i) = 0

/-- Every slot after a `0x00` slot is blank. -/
def BlankAfterFree (p : Image) (ss : List Slot) : Prop :=
  ss.Pairwise fun s t => p.first s = 0x00 → Blank p t

/-- The directories below the `n` root slots in use form the finite tree `tree`. -/
structure WellFormed (p : Image) (N n : Nat) (tree : Forest Dir) : Prop where
  layout : Layout p N
  ends : RootEnds p 0 n
  fits : n < 224
  noDot : ∀ s ∈ rootSlots 0 n, p.first s ≠ 0x2E
  unfolds : Unfolds (Opens p N) (fun s => ¬ LiveDir p s) Dir.slots (rootSlots 0 n) tree
  disjoint : (tree.nodes.flatMap Dir.chain).Nodup
  blank : ∀ d ∈ tree.nodes, BlankAfterFree p d.slots

variable {p : Image} {N n : Nat} {tree : Forest Dir}

/-- The slots that the scans do not skip. -/
theorem not_skipped_iff {s : Slot} :
    ¬ (p.flc s = 0x00 ∨ p.flc s = 0x01 ∨ p.attr s = 0x0F ∨ p.attr s &&& 0x08 ≠ 0 ∨
        (s.dots = true ∧ p.first s = 0x2E) ∨ p.first s = 0xE5) ↔
      p.first s ≠ 0xE5 ∧ ¬ (s.dots = true ∧ p.first s = 0x2E) ∧ p.attr s ≠ 0x0F ∧ p.attr s &&& 0x08 = 0 ∧
        2 ≤ p.flc s := by
  simp only [not_or, ne_eq, not_not]
  constructor
  · rintro ⟨notZero, notOne, notLongName, notLabel, noDot, notDeleted⟩
    exact ⟨notDeleted, noDot, notLongName, notLabel, by omega⟩
  · rintro ⟨notDeleted, noDot, notLongName, notLabel, cluster⟩
    exact ⟨by omega, by omega, notLongName, notLabel, noDot, notDeleted⟩

theorem kind_eq_file {s : Slot} : p.kind s = .file ↔ LiveFile p s := by
  constructor
  · intro h
    unfold Image.kind at h
    split at h
    · cases h
    · rename_i keep
      split at h
      · rename_i file
        obtain ⟨notDeleted, noDot, notLongName, notLabel, cluster⟩ := not_skipped_iff.1 keep
        exact ⟨notDeleted, noDot, notLongName, notLabel, file, cluster⟩
      · cases h
  · intro live
    have keep := not_skipped_iff.2 ⟨live.notDeleted, live.noDot, live.notLongName, live.notLabel, live.cluster⟩
    rw [Image.kind, if_neg keep, if_pos live.notDir]

theorem kind_eq_dir {s : Slot} : p.kind s = .dir ↔ LiveDir p s := by
  constructor
  · intro h
    unfold Image.kind at h
    split at h
    · cases h
    · rename_i keep
      split at h
      · cases h
      · rename_i dir
        obtain ⟨notDeleted, noDot, notLongName, notLabel, cluster⟩ := not_skipped_iff.1 keep
        exact ⟨notDeleted, noDot, notLongName, notLabel, dir, cluster⟩
  · intro live
    have keep := not_skipped_iff.2 ⟨live.notDeleted, live.noDot, live.notLongName, live.notLabel, live.cluster⟩
    rw [Image.kind, if_neg keep, if_neg live.isDir]

/-- Entry `c` of the table packed from sector 1 on. -/
theorem fatEntry_eq (c : Nat) : p.fatEntry c = Packed12.entry (fun a => p.byteAt (SECTOR_SIZE + a)) c := by
  unfold Image.fatEntry Image.word Packed12.entry
  have lo := (p.byteAt (SECTOR_SIZE + 3 * c / 2)).toNat_lt
  have hi := (p.byteAt (SECTOR_SIZE + 3 * c / 2 + 1)).toNat_lt
  simp only [Nat.shiftLeft_eq, ← Nat.add_assoc]
  split <;> omega

/-- The decoder reads the packed table. -/
theorem decodeEntry_eq (c : Nat) : p.decodeEntry (SECTOR_SIZE + 3 * c / 2) c = p.fatEntry c := by
  rw [Image.decodeEntry_eq, fatEntry_eq]

theorem Layout.fatTableLocation (h : Layout p N) : p.fatTableLocation = 512 := by
  rw [Image.fatTableLocation, h.bytesPerSector, h.reservedSectors]
  decide

/-- `get_FAT_entry` on a cluster of the volume. -/
theorem Layout.getFATEntry (h : Layout p N) {c : Nat} (low : c ≤ 0xFFFF) (inside : 31 + c < N) :
    p.getFATEntry p.fatTableLocation c = .ok (p.fatEntry c) := by
  have size := h.size
  have offset : ((512 : Int) + (3 * c / 2 : Nat)).toNat = SECTOR_SIZE + 3 * c / 2 := by
    simp only [SECTOR_SIZE]
    omega
  rw [Image.getFATEntry_eq (by omega), h.fatTableLocation, if_pos (by simp only [SECTOR_SIZE] at size; omega), offset,
    decodeEntry_eq]

theorem FatChain.inside {c : Nat} {cs : List Nat} (h : FatChain p N c cs) :
    ∀ k ∈ cs, 2 ≤ k ∧ 31 + k < N := by
  induction h with
  | last low high _ => simp [low, high]
  | link low high _ _ ih =>
    intro k mem
    rcases List.mem_cons.1 mem with rfl | mem
    · exact ⟨low, high⟩
    · exact ih k mem

/-- On clusters up to `0xFF0` the programs follow the chain to its marker. -/
theorem FatChain.follows (layout : Layout p N) {c : Nat} {cs : List Nat} (h : FatChain p N c cs)
    (low : ∀ k ∈ cs, k ≤ 0xFF0) : Follows p c cs := by
  induction h with
  | last _ high marker =>
    have here := low _ (List.mem_singleton.2 rfl)
    exact .link here (layout.getFATEntry (by omega) high) (.stop (by omega))
  | link _ high _ _ ih =>
    have here := low _ List.mem_cons_self
    exact .link here (layout.getFATEntry (by omega) high) (ih fun k mem => low k (List.mem_cons_of_mem _ mem))

theorem FatChain.unique {c : Nat} {cs ds : List Nat} (h : FatChain p N c cs) (h' : FatChain p N c ds) :
    cs = ds := by
  induction h generalizing ds with
  | last _ _ marker =>
    cases h' with
    | last => rfl
    | link _ _ below _ => omega
  | link _ _ below _ ih =>
    cases h' with
    | last _ _ marker => omega
    | link _ _ _ rest => rw [ih rest]

theorem deterministic_opens : Deterministic (Opens p N) (fun s => ¬ LiveDir p s) where
  label := by
    intro s a b ha hb
    cases a; cases b
    have entry := ha.entry.trans hb.entry.symm
    have chain := ha.chain.unique hb.chain
    simp only at entry chain
    rw [entry, chain]
  notLeaf opens leaf := leaf opens.live

/-- The slots are used up to some slot and blank from there on. -/
def UsedThenBlank (p : Image) (ss : List Slot) : Prop :=
  ∃ k, (∀ s ∈ ss.take k, p.first s ≠ 0) ∧ ∀ s ∈ ss.drop k, Blank p s

theorem UsedThenBlank.blankAfterFree {ss : List Slot} (h : UsedThenBlank p ss) : BlankAfterFree p ss := by
  obtain ⟨k, used, free⟩ := h
  rw [← List.take_append_drop k ss, BlankAfterFree, List.pairwise_append]
  refine ⟨List.pairwise_of_forall_mem_list fun s mem t _ isFree => absurd isFree (used s mem), ?_,
    fun s mem t _ isFree => absurd isFree (used s mem)⟩
  exact List.pairwise_of_forall_mem_list fun s _ t mem _ => free t mem

theorem UsedThenBlank.blank {ss : List Slot} (h : UsedThenBlank p ss) :
    ∀ s ∈ ss, p.first s = 0 → Blank p s := by
  obtain ⟨k, used, free⟩ := h
  intro s mem isFree
  rw [← List.take_append_drop k ss] at mem
  rcases List.mem_append.1 mem with mem | mem
  · exact absurd isFree (used s mem)
  · exact free s mem

theorem mem_clusterSlots {c : Nat} {s : Slot} :
    s ∈ clusterSlots c ↔ ∃ i, i < 16 ∧ s = ⟨clusterAddr c + 32 * i, true⟩ := by
  simp [clusterSlots, eq_comm]

namespace WellFormed

theorem chain_inside (wf : WellFormed p N n tree) {d : Dir} (mem : d ∈ tree.nodes) :
    ∀ c ∈ d.chain, 2 ≤ c ∧ 31 + c < N := by
  obtain ⟨s, _, opens⟩ := wf.unfolds.entered_of_mem mem
  exact opens.chain.inside

/-- The programs' walk of the root slots is the tree. -/
theorem walk (wf : WellFormed p N n tree) (low : ∀ d ∈ tree.nodes, ∀ c ∈ d.chain, c ≤ 0xFF0) :
    Walk p (rootSlots 0 n) tree := by
  refine wf.unfolds.mono (fun s _ d mem opens => ?_) (fun s _ leaf isDir => leaf (kind_eq_dir.1 isDir))
  exact ⟨opens.entry, kind_eq_dir.2 opens.live, opens.chain.follows wf.layout (low d mem)⟩

/-- Every slot the walk scans lies inside the image. -/
theorem slot_inside (wf : WellFormed p N n tree) {s : Slot} (mem : s ∈ scanned (rootSlots 0 n) tree) :
    s.addr + 32 ≤ p.size := by
  have size := wf.layout.size
  have sectors := wf.layout.sectors
  have fits := wf.fits
  simp only [SECTOR_SIZE] at size
  rcases List.mem_append.1 mem with mem | mem
  · obtain ⟨i, lt, rfl⟩ := mem_rootSlots.1 mem
    simp only [rootSlot, SECTOR_SIZE]
    omega
  · obtain ⟨d, node, mem⟩ := List.mem_flatMap.1 mem
    obtain ⟨c, inChain, mem⟩ := List.mem_flatMap.1 mem
    obtain ⟨i, lt, rfl⟩ := mem_clusterSlots.1 mem
    have inside := cluster_inside wf.layout.size (wf.chain_inside node c inChain).2
    simp only
    omega

theorem readable (wf : WellFormed p N n tree) :
    ∀ s ∈ scanned (rootSlots 0 n) tree, Readable p s := fun s mem => by
  have := wf.slot_inside mem
  unfold Readable
  omega

/-- No slot is scanned twice. -/
theorem addr_nodup (wf : WellFormed p N n tree) :
    ((scanned (rootSlots 0 n) tree).map Slot.addr).Nodup := by
  have fits := wf.fits
  have clusters : ((tree.nodes.flatMap Dir.slots).map Slot.addr) =
      (tree.nodes.flatMap Dir.chain).flatMap fun c => (List.range 16).map fun i => clusterAddr c + 32 * i := by
    simp only [Dir.slots, clusterSlots, List.map_flatMap, List.flatMap_assoc, List.map_map, Function.comp_def]
  rw [scanned, places, List.map_append, List.nodup_append, clusters]
  refine ⟨?_, ?_, ?_⟩
  · rw [rootSlots, List.map_map]
    have range : (List.range' 0 n).Nodup := List.nodup_range'
    apply range.map
    intro i j same
    simp only [Function.comp_apply, rootSlot] at same
    omega
  · refine List.nodup_flatMap.2 ⟨fun c _ => ?_, wf.disjoint.imp fun ne => ?_⟩
    · exact List.nodup_range.map fun i j same => by omega
    · intro a mem mem'
      obtain ⟨i, lt, rfl⟩ := List.mem_map.1 mem
      obtain ⟨j, lt', same⟩ := List.mem_map.1 mem'
      simp only [clusterAddr, SECTOR_SIZE, List.mem_range] at lt lt' same
      omega
  · intro a memRoot b mem same
    obtain ⟨s, inRoot, rfl⟩ := List.mem_map.1 memRoot
    obtain ⟨i, lt, rfl⟩ := mem_rootSlots.1 inRoot
    obtain ⟨c, inChain, mem⟩ := List.mem_flatMap.1 mem
    obtain ⟨d, node, inChain⟩ := List.mem_flatMap.1 inChain
    obtain ⟨j, _, rfl⟩ := List.mem_map.1 mem
    have := (wf.chain_inside node c inChain).1
    simp only [rootSlot, clusterAddr, SECTOR_SIZE] at same
    omega

/-- There are fewer slots than an `int` counts. -/
theorem slots_few (wf : WellFormed p N n tree) (low : ∀ d ∈ tree.nodes, ∀ c ∈ d.chain, c ≤ 0xFF0) :
    (scanned (rootSlots 0 n) tree).length < 2147483648 := by
  have fits := wf.fits
  have clusters : (tree.nodes.flatMap Dir.chain).length ≤ (List.range 0xFF1).length := by
    refine (List.subperm_of_subset wf.disjoint fun c mem => ?_).length_le
    obtain ⟨d, node, inChain⟩ := List.mem_flatMap.1 mem
    have := low d node c inChain
    exact List.mem_range.2 (by omega)
  have slots : (tree.nodes.flatMap Dir.slots).length = 16 * (tree.nodes.flatMap Dir.chain).length := by
    have each : ∀ c : Nat, (clusterSlots c).length = 16 := fun c => by rw [clusterSlots, List.length_map, List.length_range]
    have assoc : tree.nodes.flatMap Dir.slots = (tree.nodes.flatMap Dir.chain).flatMap clusterSlots :=
      List.flatMap_assoc.symm
    rw [assoc, List.length_flatMap, List.map_congr_left fun c _ => each c, List.map_const', List.sum_replicate_nat,
      Nat.mul_comm]
  have root : (rootSlots 0 n).length = n := by rw [rootSlots, List.length_map, List.length_range']
  rw [List.length_range] at clusters
  rw [scanned, places, List.length_append, slots, root]
  omega

end WellFormed

theorem FatChain.last_iff {c d : Nat} :
    FatChain p N c [d] ↔ d = c ∧ 2 ≤ c ∧ 31 + c < N ∧ 0xFF8 ≤ p.fatEntry c := by
  constructor
  · intro chain
    cases chain with
    | last low high ends => exact ⟨rfl, low, high, ends⟩
    | link _ _ _ rest => cases rest
  · rintro ⟨rfl, low, high, ends⟩
    exact .last low high ends

theorem FatChain.link_iff {c d e : Nat} {cs : List Nat} :
    FatChain p N c (d :: e :: cs) ↔
      d = c ∧ 2 ≤ c ∧ 31 + c < N ∧ p.fatEntry c < 0xFF8 ∧ FatChain p N (p.fatEntry c) (e :: cs) := by
  constructor
  · intro chain
    cases chain with
    | link low high goes rest => exact ⟨rfl, low, high, goes, rest⟩
  · rintro ⟨rfl, low, high, goes, rest⟩
    exact .link low high goes rest

instance (s : Slot) : Decidable (LiveFile p s) := decidable_of_iff _ kind_eq_file

instance (s : Slot) : Decidable (LiveDir p s) := decidable_of_iff _ kind_eq_dir

instance : ∀ c cs, Decidable (FatChain p N c cs)
  | _, [] => isFalse (by intro chain; cases chain)
  | c, [d] => decidable_of_iff (d = c ∧ 2 ≤ c ∧ 31 + c < N ∧ 0xFF8 ≤ p.fatEntry c) FatChain.last_iff.symm
  | c, d :: e :: cs =>
    have : Decidable (FatChain p N (p.fatEntry c) (e :: cs)) := instDecidableFatChain _ _
    decidable_of_iff (d = c ∧ 2 ≤ c ∧ 31 + c < N ∧ p.fatEntry c < 0xFF8 ∧ FatChain p N (p.fatEntry c) (e :: cs))
      FatChain.link_iff.symm

instance (s : Slot) (d : Dir) : Decidable (Opens p N s d) :=
  decidable_of_iff (d.entry = s ∧ LiveDir p s ∧ FatChain p N (p.flc s) d.chain)
    ⟨fun ⟨entry, live, chain⟩ => ⟨entry, live, chain⟩, fun opens => ⟨opens.entry, opens.live, opens.chain⟩⟩

instance : Decidable (Layout p N) :=
  decidable_of_iff (p.word 11 = 512 ∧ p.word 14 = 1 ∧ N * SECTOR_SIZE ≤ p.size ∧ 33 ≤ N)
    ⟨fun ⟨bytes, reserved, size, sectors⟩ => ⟨bytes, reserved, size, sectors⟩,
      fun layout => ⟨layout.bytesPerSector, layout.reservedSectors, layout.size, layout.sectors⟩⟩

instance : Decidable (RootEnds p 0 n) :=
  decidable_of_iff ((∀ j, j < n → p.first (rootSlot (0 + j)) ≠ 0) ∧ p.first (rootSlot (0 + n)) = 0 ∧
      (rootSlot (0 + n)).addr + 1 ≤ p.size)
    ⟨fun ⟨used, free, inside⟩ => ⟨used, free, inside⟩, fun ends => ⟨ends.used, ends.free, ends.inside⟩⟩

instance (s : Slot) : Decidable (Blank p s) := inferInstanceAs (Decidable (∀ i, i < 32 → _))

instance (s : Slot) : Decidable (Readable p s) := inferInstanceAs (Decidable (_ ≤ _))

instance (ss : List Slot) : Decidable (BlankAfterFree p ss) :=
  inferInstanceAs (Decidable (List.Pairwise _ ss))

/-! ## Sparse volumes

Volumes given by their nonzero bytes, for concrete inputs. -/

/-- The image of `N` sectors whose bytes are the listed ones, else 0. -/
def Image.sparse (N : Nat) (bytes : List (Nat × UInt8)) : Image where
  size := N * SECTOR_SIZE
  byte a := (bytes.lookup a.val).getD 0

/-- Slots in a range without listed bytes are blank. -/
theorem blank_sparse {bytes : List (Nat × UInt8)} {lo hi : Nat}
    (none : ∀ b ∈ bytes, b.1 < lo ∨ hi ≤ b.1) {s : Slot} (low : lo ≤ s.addr) (high : s.addr + 32 ≤ hi) :
    Blank (.sparse N bytes) s := by
  intro i lt
  unfold Image.byteAt
  split
  · have absent : bytes.lookup (s.addr + i) = Option.none := by
      rw [List.lookup_eq_none_iff]
      intro b mem
      have := none b mem
      rw [bne_iff_ne]
      omega
    simp [Image.sparse, absent]
  · rfl

/-- A sparse directory: its first `k` slots are in use, the bytes of the others are not listed. -/
theorem usedThenBlank_sparse {bytes : List (Nat × UInt8)} (k lo hi : Nat) {ss : List Slot}
    (slots : (∀ s ∈ ss.take k, Image.first (.sparse N bytes) s ≠ 0) ∧
      (∀ s ∈ ss.drop k, lo ≤ s.addr ∧ s.addr + 32 ≤ hi) ∧ ∀ b ∈ bytes, b.1 < lo ∨ hi ≤ b.1) :
    UsedThenBlank (.sparse N bytes) ss := by
  obtain ⟨used, free, none⟩ := slots
  exact ⟨k, used, fun s mem => blank_sparse none (free s mem).1 (free s mem).2⟩

/-- The header fields of a volume of `N` sectors with 224 root entries. -/
def headerBytes (N : Nat) : List (Nat × UInt8) :=
  [(12, 2), (14, 1), (17, 224), (19, N.toUInt8), (20, (N / 256).toUInt8)]

/-- A directory entry at offset `a`: name field, attribute, first cluster. -/
def entryBytes (a : Nat) (name : List UInt8) (attr : UInt8) (flc : Nat) : List (Nat × UInt8) :=
  (List.range 11).map (fun i => (a + i, name.getD i 0x20)) ++
    [(a + 11, attr), (a + 26, flc.toUInt8), (a + 27, (flc / 256).toUInt8)]

/-- The bytes of `sampleVolume`. -/
def sampleBytes : List (Nat × UInt8) :=
  headerBytes 40 ++ [(515, 0x03), (516, 0xF0), (517, 0xFF), (518, 0xFF), (519, 0x0F)] ++
    entryBytes 9728 [0x4C] 0x08 0 ++ entryBytes 9760 [0xE5, 0x58] 0x20 9 ++
    entryBytes 9792 [0x44] 0x10 2 ++ entryBytes 9824 [0x41] 0x20 6 ++
    entryBytes 16896 [0x2E] 0x10 2 ++ entryBytes 16928 [0x2E, 0x2E] 0x10 0 ++
    entryBytes 16960 [0x45] 0x10 4 ++ (List.range 13).map (fun i => (16992 + 32 * i, 0xE5)) ++
    entryBytes 17408 [0x42] 0x20 7 ++
    entryBytes 17920 [0x2E] 0x10 4 ++ entryBytes 17952 [0x2E, 0x2E] 0x10 2 ++
    entryBytes 17984 [0x43] 0x20 8

/-- A volume of 40 sectors with a label, a deleted entry, a file `A` and a directory
`D` in its root; `D` has the full cluster 2 and cluster 3, and holds a directory `E`
and a file `B`; `E` holds a file `C`. -/
def sampleVolume : Image := .sparse 40 sampleBytes

/-- Its directory tree. -/
def sampleTree : Forest Dir :=
  .cons ⟨rootSlot 2, [2, 3]⟩ (.cons ⟨⟨16960, true⟩, [4]⟩ .nil .nil) .nil

theorem sampleVolume_usedThenBlank : ∀ d ∈ sampleTree.nodes, UsedThenBlank sampleVolume d.slots := by
  intro d mem
  simp only [sampleTree, Forest.nodes, List.append_nil, List.mem_cons, List.not_mem_nil, or_false] at mem
  rcases mem with rfl | rfl
  · exact usedThenBlank_sparse 17 17440 17920 (by decide +kernel)
  · exact usedThenBlank_sparse 3 18016 18432 (by decide +kernel)

theorem sampleVolume_wellFormed : WellFormed sampleVolume 40 4 sampleTree where
  layout := by decide +kernel
  ends := by decide +kernel
  fits := by decide
  noDot := by decide +kernel
  unfolds := by decide +kernel
  disjoint := by decide
  blank d mem := (sampleVolume_usedThenBlank d mem).blankAfterFree

end CSC360.Disk
