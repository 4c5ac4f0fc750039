import CSC360.Disk.Leaks

/-!
# When file contents do not matter

`contents_irrelevant_iff`: rewriting the clusters that belong to no directory leaves
the output of both programs alone exactly when every scan of the root directory ends
before the first such cluster, or the image does.
-/

namespace CSC360.Disk
open CSC360.Base

variable {p p' : Image} {N n c₀ : Nat} {tree : Forest Dir}

/-! ## The scans end before the free cluster -/

/-- A slot the scans get to lies before a free slot. -/
theorem reached_le {i j : Nat} (reached : Reached p i) (free : p.first (rootSlot j) = 0) : i ≤ j := by
  by_contra above
  exact reached j (by omega) free

namespace Volume

variable (vol : Volume p N n tree)
include vol

theorem reached_inRoot {i : Nat} (reached : Reached p (i + 1)) : i < n ∨ n = 224 := by
  rcases vol.ends with full | ⟨_, free⟩
  · exact .inr full
  · exact .inl (reached_le reached free)

theorem same_of_free (same : SameBytes (fixed tree) p p') (free : FirstFree tree c₀)
    (slot : SlotFree p c₀) (sector : SectorFree p c₀) : SameOutput p p' := by
  have dirs := (vol.sameClusters same).sameDirs vol.closed
  obtain ⟨last, inside, isFree⟩ := slot
  have covers : ∀ i, Reached p i → Covers (fixed tree) (rootSlot i) := fun i reached =>
    covers_rootSlot free (Nat.lt_of_le_of_lt (reached_le reached isFree) inside)
  have good : ∀ i, Reached p (i + 1) → p.classify (rootSlot i) = .ok .dir →
      Good (dirClusters tree) (p.flc (rootSlot i)) := by
    intro i reached isDir
    have below := reached_le reached isFree
    exact vol.good_of_rootSlot free (by omega) (vol.reached_inRoot reached) (classify_eq_ok.1 isDir).2.symm
  have start : Reached p 0 := fun j lt => absurd lt (Nat.not_lt_zero j)
  refine ⟨.of_eq fun fuel => ?_, same_totalDiskSize same, vol.same_countEmpty same, .of_eq fun fuel => ?_,
    .of_eq fun fuel => ?_⟩
  · exact same_labelLoop same covers start none
  · exact same_rootLoop (fun i reached => same.slot (covers i reached))
      (fun i reached isDir => dirs.countBelow (good i reached isDir)) start 0
  · have sectors : ∀ j, j < 19 → (∀ i, i < j → p.byteAt (SECTOR_SIZE * 19 + SECTOR_SIZE * i) ≠ 0) →
        CoversSector (fixed tree) (SECTOR_SIZE * 19 + SECTOR_SIZE * j) := by
      intro j lt used
      rcases sector with all | ⟨k, below, isFree⟩
      · exact covers_sector free (by omega)
      · have : j ≤ k := by
          by_contra above
          exact used k (by omega) isFree
        exact covers_sector free (by omega)
    rw [DiskList.printEntireImage, DiskList.printEntireImage,
      same_printRoot same.size fun j lt used => same.sectorSlot (sectors j lt used),
      ← same_maxRootEntries same, vol.limit]
    refine bind_congr fun st => congrArg (fun st => st >>= _) ?_
    exact same_enterLoop same.size (fun i _ reached => same.slot (covers i reached))
      (fun i _ reached isDir => dirs.listBelow (good i reached isDir)) rfl start st

/-- If the free cluster lies behind the image, all bytes are fixed. -/
theorem eq_of_small (vol' : Volume p' N n tree) (same : SameBytes (fixed tree) p p') (free : FirstFree tree c₀)
    (small : N ≤ 31 + c₀) : p = p' := by
  have everywhere : ∀ a, p.byteAt a = p'.byteAt a := by
    intro a
    by_cases inside : a < N * SECTOR_SIZE
    · simp only [SECTOR_SIZE] at inside
      have low := free.low
      have sector := covers_sector free (show a / 512 - 19 < 12 + c₀ by omega)
      by_cases root : a < 33 * SECTOR_SIZE
      · exact same.byte a (fixed_low root)
      · have at' : a = SECTOR_SIZE * 19 + SECTOR_SIZE * (a / 512 - 19) + a % 512 := by
          simp only [SECTOR_SIZE] at root ⊢
          omega
        rw [at']
        exact same.byte _ (sector _ (by omega))
    · rw [vol.tail a (Nat.le_of_not_lt inside), vol'.tail a (Nat.le_of_not_lt inside)]
  obtain ⟨size, byte⟩ := p
  obtain ⟨size', byte'⟩ := p'
  obtain rfl : size = size' := same.size
  congr
  funext a
  have := everywhere a.val
  simpa [Image.byteAt, a.isLt] using this

end Volume

/-- **File contents do not matter** exactly when the image ends before the first
cluster that belongs to no directory, or the scans of the root directory do. -/
theorem contents_irrelevant_iff (vol : Volume p N n tree) (free : FirstFree tree c₀) :
    ContentsIrrelevant p N n tree ↔ N ≤ 31 + c₀ ∨ SlotFree p c₀ ∧ SectorFree p c₀ := by
  constructor
  · intro irrelevant
    rcases Nat.lt_or_ge (31 + c₀) N with big | small
    · refine .inr ⟨?_, ?_⟩
      · by_contra noFree
        exact vol.label_leaks big free noFree irrelevant
      · by_contra noFree
        exact vol.listing_leaks big free noFree irrelevant
    · exact .inl small
  · rintro (small | ⟨slot, sector⟩) p' vol' same
    · obtain rfl := vol.eq_of_small vol' same free small
      exact ⟨.of_eq fun _ => rfl, rfl, rfl, .of_eq fun _ => rfl, .of_eq fun _ => rfl⟩
    · exact vol.same_of_free same free slot sector

/-- On the sample volume the scans end in the first root sectors, before cluster 5. -/
theorem contents_irrelevant_sample : ContentsIrrelevant sampleVolume 40 4 sampleTree := by
  have vol : Volume sampleVolume 40 4 sampleTree :=
    { layout := sampleVolume_wellFormed.layout
      tail := fun a behind => Image.byteAt_behind behind
      total := by decide +kernel
      limit := by decide +kernel
      fat := by decide +kernel
      used := by decide +kernel
      ends := .inr (by decide +kernel)
      unfolds := sampleVolume_wellFormed.unfolds
      disjoint := sampleVolume_wellFormed.disjoint
      dots := by decide +kernel }
  have free : FirstFree sampleTree 5 := by
    refine ⟨by decide, ?_, fun c low below => ?_⟩
    · rintro ⟨d, node, mem⟩
      have all : ∀ d ∈ sampleTree.nodes, 5 ∉ d.chain := by decide +kernel
      exact all d node mem
    · obtain rfl | rfl | rfl : c = 2 ∨ c = 3 ∨ c = 4 := by omega
      · exact ⟨⟨rootSlot 2, [2, 3]⟩, by decide +kernel, by decide⟩
      · exact ⟨⟨rootSlot 2, [2, 3]⟩, by decide +kernel, by decide⟩
      · exact ⟨⟨⟨16960, true⟩, [4]⟩, by decide +kernel, by decide⟩
  refine (contents_irrelevant_iff vol free).2 (.inr ⟨⟨4, by decide, by decide +kernel⟩, .inr ⟨1, by decide, ?_⟩⟩)
  decide +kernel

/-- A volume without directories whose 224 root slots are all in use. -/
def fullRoot : Image where
  size := 40 * SECTOR_SIZE
  byte a := if 9728 ≤ a.val ∧ a.val < 16896 ∧ a.val % 32 = 0 then 0xE5 else ((headerBytes 40).lookup a.val).getD 0

theorem fullRoot_volume : Volume fullRoot 40 224 .nil where
  layout := by decide +kernel
  tail a behind := Image.byteAt_behind behind
  total := by decide +kernel
  limit := by decide +kernel
  fat := by decide +kernel
  used := by decide +kernel
  ends := .inl rfl
  unfolds := by decide +kernel
  disjoint := by decide
  dots := by simp [Forest.nodes]

theorem firstFree_nil : FirstFree .nil 2 where
  low := Nat.le_refl 2
  free := by simp [dirClusters, Forest.nodes]
  below c low lt := by omega

/-- A label scan that returns does so with more fuel. -/
theorem labelLoop_more : ∀ {fuel i : Nat} {label l : Option (List UInt8)},
    DiskInfo.labelLoop p fuel i label = .ok l → DiskInfo.labelLoop p (fuel + 1) i label = .ok l := by
  intro fuel
  induction fuel with
  | zero => intro i label l h; simp [DiskInfo.labelLoop] at h
  | succ fuel ih =>
    intro i label l h
    rw [DiskInfo.labelLoop, bind_eq_ok] at h ⊢
    obtain ⟨b, read, h⟩ := h
    refine ⟨b, read, ?_⟩
    by_cases free : b = 0
    · rwa [if_pos free] at h ⊢
    · rw [if_neg free, bind_eq_ok] at h ⊢
      obtain ⟨_, touched, h⟩ := h
      refine ⟨_, touched, ?_⟩
      split
      · rename_i isLabel
        rw [if_pos isLabel] at h
        exact ih h
      · rename_i noLabel
        rw [if_neg noLabel] at h
        exact ih h

theorem printDiskLabel_settles {fuel : Nat} {l : Option (List UInt8)}
    (h : DiskInfo.printDiskLabel p fuel = .ok l) : Settles (DiskInfo.printDiskLabel p) (.ok l) := by
  refine ⟨fuel, fun more le => ?_⟩
  induction le with
  | refl => exact h
  | step _ ih => exact labelLoop_more ih

/-- With a full root directory, diskinfo takes its label from cluster 2. -/
theorem label_from_file_contents :
    Volume fullRoot 40 224 .nil ∧ Volume (fullRoot.patch 2 (labelBytes 0x41)) 40 224 .nil ∧
      SameBytes (fixed .nil) fullRoot (fullRoot.patch 2 (labelBytes 0x41)) ∧
      Settles (DiskInfo.printDiskLabel fullRoot) (.ok none) ∧
      Settles (DiskInfo.printDiskLabel (fullRoot.patch 2 (labelBytes 0x41))) (.ok (some (List.replicate 8 0x41))) := by
  have same : SameBytes (fixed .nil) fullRoot (fullRoot.patch 2 (labelBytes 0x41)) := same_patch firstFree_nil _
  refine ⟨fullRoot_volume, fullRoot_volume.patch (by decide) firstFree_nil _, same, ?_, ?_⟩
  · exact printDiskLabel_settles (by decide +kernel : DiskInfo.printDiskLabel fullRoot 225 = .ok none)
  · exact printDiskLabel_settles (by decide +kernel :
      DiskInfo.printDiskLabel (fullRoot.patch 2 (labelBytes 0x41)) 226 = .ok (some (List.replicate 8 0x41)))

end CSC360.Disk
