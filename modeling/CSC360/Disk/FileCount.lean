import CSC360.Disk.Count
import CSC360.Disk.Volume

/-!
# diskinfo's file count on well-formed volumes

On a well-formed volume whose directory chains use cluster numbers up to `0xFF0`,
`print_num_of_files` terminates and counts every live file entry of every
reachable directory once. The bound is the one of the chain loops
(`next_loc <= 0xff0`); a volume large enough to have a cluster `0xFF1` shows that
it is needed.
-/

namespace CSC360.Disk.DiskInfo
open CSC360.Base

variable {p : Image} {N n : Nat} {tree : Forest Dir}

theorem fileCount_eq_countP (ss : List Slot) : fileCount p ss = ss.countP (LiveFile p ·) := by
  unfold fileCount
  exact List.countP_congr fun s _ => by simp [kind_eq_file]

/-- An `int` counts the files of a well-formed volume. -/
theorem counter_files (wf : WellFormed p N n tree) (low : ∀ d ∈ tree.nodes, ∀ c ∈ d.chain, c ≤ 0xFF0) :
    counter (fileCount p (scanned (rootSlots 0 n) tree)) = fileCount p (scanned (rootSlots 0 n) tree) := by
  have few := wf.slots_few low
  have files : fileCount p (scanned (rootSlots 0 n) tree) ≤ _ := List.countP_le_length
  rw [counter_eq]
  exact (Image.toInt32_eq_iff _).2 (by omega)

/-- The run settles on the number of live file entries among the scanned slots. -/
theorem printNumOfFiles_wellFormed (wf : WellFormed p N n tree) (low : ∀ d ∈ tree.nodes, ∀ c ∈ d.chain, c ≤ 0xFF0) :
    Settles (printNumOfFiles p) (.ok ((scanned (rootSlots 0 n) tree).countP (LiveFile p ·))) := by
  rw [← fileCount_eq_countP, ← counter_files wf low]
  exact printNumOfFiles_settles wf.ends (wf.walk low) wf.readable

/-- **The file count is exact.** The run settles on the number of live file
entries among the scanned slots; these are the slots of the root directory and of
all directories reachable from it, and none of them occurs twice. -/
theorem file_count_exact (wf : WellFormed p N n tree)
    (low : ∀ d ∈ tree.nodes, ∀ c ∈ d.chain, c ≤ 0xFF0) :
    Settles (printNumOfFiles p) (.ok ((scanned (rootSlots 0 n) tree).countP (LiveFile p ·))) ∧
      ((scanned (rootSlots 0 n) tree).map Slot.addr).Nodup ∧
      ∀ s, s ∈ scanned (rootSlots 0 n) tree ↔ Reachable (Opens p N) Dir.slots (rootSlots 0 n) s :=
  ⟨printNumOfFiles_wellFormed wf low, wf.addr_nodup, fun _ => wf.unfolds.mem_places_iff deterministic_opens⟩

/-- On the sample volume the files `A`, `B` and `C` are counted. -/
theorem file_count_sample :
    (∀ d ∈ sampleTree.nodes, ∀ c ∈ d.chain, c ≤ 0xFF0) ∧
      Settles (printNumOfFiles sampleVolume) (.ok 3) := by
  have low : ∀ d ∈ sampleTree.nodes, ∀ c ∈ d.chain, c ≤ 0xFF0 := by decide +kernel
  have count : (scanned (rootSlots 0 4) sampleTree).countP (LiveFile sampleVolume ·) = 3 := by decide +kernel
  have settles := (file_count_exact sampleVolume_wellFormed low).1
  rw [count] at settles
  exact ⟨low, settles⟩

/-- A volume of 4113 sectors: the root holds one directory, at cluster `0xFF1`,
which holds one file. -/
def highChain : Image :=
  .sparse 4113 (headerBytes 4113 ++ [(6633, 0xF0), (6634, 0xFF)] ++
    entryBytes 9728 [0x44] 0x10 0xFF1 ++ entryBytes 2105344 [0x46] 0x20 2)

/-- Its directory tree. -/
def highTree : Forest Dir := .cons ⟨rootSlot 0, [0xFF1]⟩ .nil .nil

theorem highChain_wellFormed : WellFormed highChain 4113 1 highTree where
  layout := by decide +kernel
  ends := by decide +kernel
  fits := by decide
  noDot := by decide +kernel
  unfolds := by decide +kernel
  disjoint := by decide
  blank d mem := by
    obtain rfl := List.mem_singleton.1 mem
    apply UsedThenBlank.blankAfterFree
    exact usedThenBlank_sparse 1 2105376 2105856 (by decide +kernel)

/-- The count misses the file behind cluster `0xFF1`. -/
theorem file_count_misses_high_chain :
    WellFormed highChain 4113 1 highTree ∧
      (scanned (rootSlots 0 1) highTree).countP (LiveFile highChain ·) = 1 ∧
      Settles (printNumOfFiles highChain) (.ok 0) := by
  refine ⟨highChain_wellFormed, by decide +kernel, ?_⟩
  have walk : Walk highChain (rootSlots 0 1) (.cons ⟨rootSlot 0, []⟩ .nil .nil) :=
    .enter ⟨rfl, by decide +kernel, .stop (by decide +kernel)⟩ .nil .nil
  have none : fileCount highChain (scanned (rootSlots 0 1) (.cons ⟨rootSlot 0, []⟩ .nil .nil)) = 0 := by decide +kernel
  have settles := printNumOfFiles_settles highChain_wellFormed.ends walk (by decide +kernel)
  rwa [none, counter_zero] at settles

end CSC360.Disk.DiskInfo
