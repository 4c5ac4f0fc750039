import CSC360.Disk.Sections

/-!
# disklist's path headers

The path buffer is set at each root directory and only ever appended to below it.
The header of a directory therefore spells the components of all directories
visited before it in the same root directory's tree. This is the directory's path
exactly when no directory below a root directory has a live sibling, and when no
name field has a NUL before its first space (`headers_right_iff`).
-/

namespace CSC360.Disk.DiskList
open CSC360.Base

variable {p : Image}

/-- The paths of the headers. -/
def headers (out : List Item) : List (List UInt8) :=
  out.filterMap fun
    | .header dirPath => some dirPath
    | _ => none

/-- The path that names a directory: the components on the way down to it. -/
def pathOf (p : Image) (branch : List Dir) : List UInt8 :=
  Forest.spell (fun d => component p d.entry) branch

theorem headers_append (out out' : List Item) : headers (out ++ out') = headers out ++ headers out' :=
  List.filterMap_append

theorem headers_sectors (l : List Nat) :
    headers (l.flatMap fun a => sectorLines p a ++ [.newline]) = [] := by
  simp only [headers, List.filterMap_eq_nil_iff, List.mem_flatMap, List.mem_append, sectorLines, entryLine]
  rintro item ⟨a, _, ⟨s, _, mem⟩ | mem⟩
  · cases isKind : p.kind s with
    | skip => simp [isKind] at mem
    | file => simp only [isKind, List.mem_singleton] at mem; rw [mem, fileLine]
    | dir => simp only [isKind, List.mem_singleton] at mem; rw [mem, dirLine]
  · simp only [List.mem_singleton] at mem
    rw [mem]

theorem headers_chainLines (cs : List Nat) : headers (chainLines p cs) = [] := by
  have sectors := headers_sectors (p := p) (cs.map clusterAddr)
  rwa [List.flatMap_map] at sectors

theorem headers_visit (path : Printer → Slot → List UInt8) (st : Printer) (d : Dir) :
    headers (st.visit p path d).out = headers st.out ++ [path st d.entry] := by
  simp only [Printer.visit, Printer.header, Printer.print, headers_append, headers_chainLines, List.append_nil]
  rfl

/-- The buffer grows by one component with each visit. -/
theorem headers_visits (ds : List Dir) (st : Printer) :
    headers (ds.foldl (Printer.visit p (appendPath p)) st).out =
      headers st.out ++ Forest.accumulated (fun d => cstr (component p d.entry)) st.dirPath ds := by
  induction ds generalizing st with
  | nil => simp [Forest.accumulated]
  | cons d ds ih =>
    rw [List.foldl_cons, ih, headers_visit, List.append_assoc]
    rfl

/-- The headers of a forest whose trees start with a new path. -/
def treeHeaders (p : Image) : Forest Dir → List (List UInt8)
  | .nil => []
  | .cons d kids rest =>
    Forest.accumulated (fun d => cstr (component p d.entry)) [] (d :: kids.nodes) ++ treeHeaders p rest

theorem headers_visitTrees (f : Forest Dir) (st : Printer) :
    headers (st.visitTrees p (resetPath p) f).out = headers st.out ++ treeHeaders p f := by
  induction f generalizing st with
  | nil => simp [Printer.visitTrees, treeHeaders]
  | cons d kids rest _ ih =>
    rw [Printer.visitTrees, ih, headers_visits, headers_visit, treeHeaders]
    simp only [List.append_assoc]
    rfl

theorem headers_output (f : Forest Dir) :
    headers ((rootPrinter p).visitTrees p (resetPath p) f).out = treeHeaders p f := by
  rw [headers_visitTrees, rootPrinter, headers_append, rootLines, headers_sectors]
  rfl

/-! ## NUL bytes in names -/

theorem component_ne_nil (s : Slot) : component p s ≠ [] := by
  simp [component]

theorem zero_not_mem_cstr (bs : List UInt8) : 0 ∉ cstr bs := by
  intro mem
  simpa using List.mem_takeWhile_imp mem

/-- What accumulates from C strings has no NUL. -/
theorem zero_not_mem_accumulated (ds : List Dir) : ∀ {acc : List UInt8}, 0 ∉ acc →
    ∀ path ∈ Forest.accumulated (fun d => cstr (component p d.entry)) acc ds, 0 ∉ path := by
  induction ds with
  | nil => intro acc _ path mem; simp [Forest.accumulated] at mem
  | cons d ds ih =>
    intro acc noNul path mem
    have next : 0 ∉ acc ++ cstr (component p d.entry) := by
      rw [List.mem_append, not_or]
      exact ⟨noNul, zero_not_mem_cstr _⟩
    rcases List.mem_cons.1 mem with rfl | mem
    · exact next
    · exact ih next path mem

theorem zero_not_mem_treeHeaders (f : Forest Dir) : ∀ path ∈ treeHeaders p f, 0 ∉ path := by
  induction f with
  | nil => simp [treeHeaders]
  | cons d kids rest _ ih =>
    intro path mem
    rcases List.mem_append.1 mem with mem | mem
    · exact zero_not_mem_accumulated _ (by simp) path mem
    · exact ih path mem

/-! ## The headers -/

/-- No directory name has a NUL before its first space. -/
def NamesSolid (p : Image) (f : Forest Dir) : Prop := ∀ d ∈ f.nodes, 0 ∉ nameField p d.entry 0 11

instance (f : Forest Dir) : Decidable (NamesSolid p f) :=
  inferInstanceAs (Decidable (∀ d ∈ f.nodes, 0 ∉ nameField p d.entry 0 11))

theorem cstr_component {s : Slot} (noNul : 0 ∉ nameField p s 0 11) : cstr (component p s) = component p s := by
  apply cstr_eq_self
  rw [component, List.mem_append, not_or]
  exact ⟨noNul, by decide⟩

/-- With solid names, the headers are right when no directory below a root
directory has a sibling. -/
theorem treeHeaders_eq_iff {f : Forest Dir} (solid : NamesSolid p f) :
    treeHeaders p f = f.branches.map (pathOf p) ↔ f.LinearTrees := by
  induction f with
  | nil => simp [treeHeaders, Forest.branches, Forest.LinearTrees]
  | cons d kids rest _ ihRest =>
    have solidRest : NamesSolid p rest := fun e mem => solid e (by simp [Forest.nodes, mem])
    have same : ∀ e ∈ d :: kids.nodes, cstr (component p e.entry) = component p e.entry := fun e mem =>
      cstr_component (solid e (by simp only [Forest.nodes, List.mem_cons, List.mem_append] at mem ⊢; tauto))
    have tree : Forest.accumulated (fun d => component p d.entry) [] (d :: kids.nodes) =
        (Forest.cons d kids .nil).branches.map (pathOf p) ↔ kids.Linear := by
      have whole := Forest.accumulated_eq_branches_iff (f := .cons d kids .nil)
        (fun e _ => component_ne_nil (p := p) e.entry) []
      simp only [Forest.nodes, Forest.Linear, and_true, List.append_nil, List.nil_append] at whole
      exact whole
    have lengths : (Forest.accumulated (fun d => component p d.entry) [] (d :: kids.nodes)).length =
        ((Forest.cons d kids .nil).branches.map (pathOf p)).length := by
      rw [Forest.length_accumulated, List.length_map, Forest.length_branches]
      simp [Forest.nodes]
    have parts : (Forest.cons d kids rest).branches.map (pathOf p) =
        (Forest.cons d kids .nil).branches.map (pathOf p) ++ rest.branches.map (pathOf p) := by
      simp [Forest.branches]
    rw [treeHeaders, Forest.accumulated_congr same, parts, Forest.LinearTrees, ← ihRest solidRest, ← tree]
    constructor
    · exact fun h => List.append_inj h lengths
    · rintro ⟨first, second⟩
      rw [first, second]

/-- Right headers show that the names are solid. -/
theorem namesSolid_of_headers {f : Forest Dir} (right : treeHeaders p f = f.branches.map (pathOf p)) :
    NamesSolid p f := by
  intro d node isNul
  obtain ⟨branch, inBranches, inBranch⟩ := Forest.mem_branches node
  apply zero_not_mem_treeHeaders f (pathOf p branch)
  · rw [right]
    exact List.mem_map_of_mem inBranches
  · refine List.mem_flatMap.2 ⟨d, inBranch, ?_⟩
    exact List.mem_append_left _ isNul

/-- **The path headers are right** exactly when, among the visited directories, none
below a root directory has a sibling and no name has a NUL before its first space. -/
theorem headers_right_iff {m : Nat} {f : Forest Dir} (scan : RootScan p 0 (maxRootEntries p) m)
    (walk : Walk p (rootSlots 0 m) f) {fuel : Nat} {out : List Item}
    (listed : printEntireImage p fuel = .ok out) :
    headers out = f.branches.map (pathOf p) ↔ NamesSolid p f ∧ f.LinearTrees := by
  obtain ⟨m', f', scan', walk', _, rfl⟩ := printEntireImage_ok listed
  obtain rfl := scan.unique scan'
  obtain rfl := walk.unique deterministic_enters walk'
  rw [headers_output]
  constructor
  · intro right
    have solid := namesSolid_of_headers right
    exact ⟨solid, (treeHeaders_eq_iff solid).1 right⟩
  · rintro ⟨solid, linear⟩
    exact (treeHeaders_eq_iff solid).2 linear

/-- On the sample volume, where the tree is a branch, the headers are right. -/
theorem headers_right_sample : ∃ out, printEntireImage sampleVolume 4 = .ok out ∧
    headers out = sampleTree.branches.map (pathOf sampleVolume) := by
  have scan : RootScan sampleVolume 0 (maxRootEntries sampleVolume) 4 :=
    ⟨by decide +kernel, by decide +kernel, by decide +kernel⟩
  have walk := sampleVolume_wellFormed.walk (by decide +kernel)
  have returns : (printEntireImage sampleVolume 4).isOk = true := by decide +kernel
  cases listed : printEntireImage sampleVolume 4 with
  | error stop =>
    rw [listed] at returns
    cases returns
  | ok out =>
    refine ⟨out, rfl, (headers_right_iff scan walk listed).2 ⟨by decide +kernel, ?_⟩⟩
    exact ⟨⟨trivial, rfl⟩, trivial⟩

/-- A volume with a directory `A` in the root that holds the directories `B` and `C`. -/
def siblings : Image :=
  .sparse 40 (headerBytes 40 ++ [(515, 0xFF), (516, 0xFF), (517, 0xFF), (518, 0xFF), (519, 0x0F)] ++
    entryBytes 9728 [0x41] 0x10 2 ++ entryBytes 16896 [0x42] 0x10 3 ++ entryBytes 16928 [0x43] 0x10 4)

/-- Its directory tree. -/
def siblingsTree : Forest Dir :=
  .cons ⟨rootSlot 0, [2]⟩ (.cons ⟨⟨16896, true⟩, [3]⟩ .nil (.cons ⟨⟨16928, true⟩, [4]⟩ .nil .nil)) .nil

theorem siblings_wellFormed : WellFormed siblings 40 1 siblingsTree where
  layout := by decide +kernel
  ends := by decide +kernel
  fits := by decide
  noDot := by decide +kernel
  unfolds := by decide +kernel
  disjoint := by decide
  blank d mem := by
    simp only [siblingsTree, Forest.nodes, List.nil_append, List.append_nil, List.mem_cons, List.not_mem_nil,
      or_false] at mem
    apply UsedThenBlank.blankAfterFree
    rcases mem with rfl | rfl | rfl
    · exact usedThenBlank_sparse 2 16960 17408 (by decide +kernel)
    · exact usedThenBlank_sparse 0 17408 17920 (by decide +kernel)
    · exact usedThenBlank_sparse 0 17920 18432 (by decide +kernel)

/-- The header of `C` is `/A/B/C/` instead of `/A/C/`. -/
theorem header_keeps_sibling :
    WellFormed siblings 40 1 siblingsTree ∧
      siblingsTree.branches.map (pathOf siblings) =
        [[0x41, 0x2F], [0x41, 0x2F, 0x42, 0x2F], [0x41, 0x2F, 0x43, 0x2F]] ∧
      ∃ out, Settles (printEntireImage siblings) (.ok out) ∧
        headers out = [[0x41, 0x2F], [0x41, 0x2F, 0x42, 0x2F], [0x41, 0x2F, 0x42, 0x2F, 0x43, 0x2F]] :=
  ⟨siblings_wellFormed, by decide +kernel, _, .of_add 4 fun _ => rfl, by decide +kernel⟩

end CSC360.Disk.DiskList
