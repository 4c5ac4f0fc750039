import CSC360.Disk.BoundedPaths
import CSC360.Disk.PathHeader

/-!
# The path buffers

**A run that returns does so with buffers of given sizes exactly if each root directory's tree fits**:
`dir_path` must have room for the names of all directories of the tree, not only for those of a path
(`path_buffers_iff`). With the sizes that are allocated that is so only where the root has no
directory at all.
-/

namespace CSC360.Disk.DiskList
open CSC360.Base

variable {p : Image}

theorem pathsFit_allocated (f : Forest Dir) : PathsFit .allocated p f ↔ f = .nil := by
  cases f with
  | nil => exact iff_of_true trivial rfl
  | cons d kids rest =>
    have some := List.length_pos_iff.2 (component_ne_nil (p := p) d.entry)
    refine iff_of_false ?_ nofun
    rintro ⟨⟨own, -⟩, -⟩
    have one : (component p d.entry).length + 1 ≤ 1 := own
    omega

/-- **The path buffers** suffice exactly if each root directory's tree fits. -/
theorem path_buffers_iff {m : Nat} {f : Forest Dir} (scan : RootScan p 0 (maxRootEntries p) m)
    (walk : Walk p (rootSlots 0 m) f) {fuel : Nat} {out : List Item}
    (listed : printEntireImage p fuel = .ok out) :
    (∀ b, printEntireImageIn b p fuel = .ok out ↔ PathsFit b p f) ∧
      (∀ b out', printEntireImageIn b p fuel = .ok out' → out' = out) ∧
      (printEntireImageIn .allocated p fuel = .ok out ↔ f = .nil) := by
  have fit := printEntireImageIn_iff scan walk listed
  refine ⟨fit, fun b out' run => ?_, (fit .allocated).trans (pathsFit_allocated f)⟩
  exact Except.ok.inj ((printEntireImageIn_ok run).symm.trans listed)

theorem path_buffers_siblings : ∃ out, printEntireImage siblings 4 = .ok out ∧
    (∀ b, printEntireImageIn b siblings 4 = .ok out ↔ PathsFit b siblings siblingsTree) ∧
    (∀ b out', printEntireImageIn b siblings 4 = .ok out' → out' = out) ∧
    (printEntireImageIn .allocated siblings 4 = .ok out ↔ siblingsTree = .nil) := by
  have scan : RootScan siblings 0 (maxRootEntries siblings) 1 :=
    ⟨by decide +kernel, by decide +kernel, by decide +kernel⟩
  have walk := siblings_wellFormed.walk (by decide +kernel)
  have returns : (printEntireImage siblings 4).isOk = true := by decide +kernel
  cases listed : printEntireImage siblings 4 with
  | error stop =>
    rw [listed] at returns
    cases returns
  | ok out => exact ⟨out, rfl, path_buffers_iff scan walk listed⟩

/-- Room for each path is not enough. -/
example : (∀ path ∈ siblingsTree.branches.map (pathOf siblings), path.length + 1 ≤ 6) ∧
    ¬ PathsFit ⟨6, 13⟩ siblings siblingsTree := by decide +kernel

end CSC360.Disk.DiskList
