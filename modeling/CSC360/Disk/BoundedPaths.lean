import CSC360.Disk.Listing

/-!
# disklist with path buffers of given sizes

disklist builds the paths of its headers in two buffers: `dir_path`, which `print_entire_image`
fills for each directory of the root and `parse_sub` appends to, and `temp2`, which `parse_sub` fills
for each directory below. Both are allocated with one byte, and `malloc` may give more. The definitions
of this file are those of `DiskList` with buffers of given sizes, and a store outside them is a fault:
what the program does from there on is undefined (`Prints`).

A run that returns with such buffers returns what it does with buffers that are large enough
(`printEntireImageIn_ok`), and it does so exactly if each root directory's tree fits (`printEntireImageIn_iff`).
The buffers of `print_filename`, which hold at most 13 bytes, are not among them.
-/

namespace CSC360.Disk.DiskList
open CSC360.Base

variable {p : Image}

/-- The sizes of the buffers. -/
structure PathBuffers where
  dirPath : Nat
  temp2 : Nat

/-- `malloc(sizeof(char))` -/
def PathBuffers.allocated : PathBuffers := ⟨1, 1⟩

/-- Why a run with the buffers does not return. -/
inductive Crash where
  | stop (stop : Stop)
  | storeOutside (out : List Item)
  deriving DecidableEq, Repr

/-- `parse_sub` stores the component and its NUL in `temp2`, and `strcat` puts both behind the path. -/
def appendFits (b : PathBuffers) (p : Image) (st : Printer) (s : Slot) : Prop :=
  (component p s).length + 1 ≤ b.temp2 ∧ (appendPath p st s).length + 1 ≤ b.dirPath

/-- `print_entire_image` stores the component and its NUL in `dir_path`. -/
def resetFits (b : PathBuffers) (p : Image) (_ : Printer) (s : Slot) : Prop :=
  (component p s).length + 1 ≤ b.dirPath

instance (b : PathBuffers) (st : Printer) : DecidablePred (appendFits b p st) :=
  fun _ => inferInstanceAs (Decidable (_ ∧ _))

instance (b : PathBuffers) (st : Printer) : DecidablePred (resetFits b p st) :=
  fun _ => inferInstanceAs (Decidable (_ ≤ _))

/-- `descend` where the path is stored if it fits. -/
def descendIn (p : Image) (path : Printer → Slot → List UInt8) (fits : Printer → Slot → Prop)
    [∀ st, DecidablePred (fits st)] (parseSub : Nat → Printer → Except Crash Printer) (st : Printer) (s : Slot) :
    Except Crash Printer := do
  match ← (st.checked (p.classify s)).mapError .stop with
  | .dir =>
    if fits st s then
      let st := { st with dirPath := path st s }
      parseSub (p.flc s) st.header
    else .error (.storeOutside st.out)
  | _ => pure st

def parseSubIn (b : PathBuffers) (p : Image) : Nat → Nat → Printer → Except Crash Printer
  | 0, _, st => .error (.stop (st.stop .outOfFuel))
  | fuel + 1, flc, st => do
    let st ← clusterLoop p (fun st fault => .stop (Printer.stop st fault))
      (fun c st => (listSector p (clusterAddr c) st).mapError .stop) (fuel + 1) flc st
    clusterLoop p (fun st fault => .stop (Printer.stop st fault))
      (fun c st => (clusterSlots c).foldlM (descendIn p (appendPath p) (appendFits b p) (parseSubIn b p fuel)) st)
      (fuel + 1) flc st

def rootLoopIn (b : PathBuffers) (p : Image) (parseSub : Nat → Printer → Except Crash Printer) :
    Nat → Nat → Printer → Except Crash Printer
  | 0, i, st => do
    let _ ← (st.checked (p.read (rootSlot i).addr)).mapError .stop
    pure st
  | left + 1, i, st => do
    let c ← (st.checked (p.read (rootSlot i).addr)).mapError .stop
    if c = 0x00 then pure st else do
      let st ← descendIn p (resetPath p) (resetFits b p) parseSub st (rootSlot i)
      rootLoopIn b p parseSub left (i + 1) st

def printEntireImageIn (b : PathBuffers) (p : Image) (fuel : Nat) : Except Crash (List Item) := do
  let st ← (printRoot p 19 (SECTOR_SIZE * 19) ⟨[.root], []⟩).mapError .stop
  let st ← rootLoopIn b p (parseSubIn b p fuel) (maxRootEntries p) 0 st
  pure st.out

/-- What `disklist` may print: the output of a run that returns, and anything at all once it has stored
outside a buffer. -/
inductive Prints (b : PathBuffers) (p : Image) (fuel : Nat) : List Item → Prop where
  | returned {out} : printEntireImageIn b p fuel = .ok out → Prints b p fuel out
  | undefined {before out} : printEntireImageIn b p fuel = .error (.storeOutside before) → Prints b p fuel out

/-! ## The buffers change no result -/

/-- The computation with the buffers does the same, unless it stores outside them. -/
abbrev Within {α : Type} : Except Crash α → Except Stop α → Prop :=
  Related Eq (fun crash stop => crash = .stop stop) fun crash => ∃ out, crash = .storeOutside out

theorem within_mapError {α : Type} (x : Except Stop α) : Within (x.mapError .stop) x := by
  cases x with
  | ok a => exact .ok rfl
  | error stop => exact .error rfl

theorem within_bind {α β : Type} {x : Except Crash α} {y : Except Stop α} {f : α → Except Crash β}
    {g : α → Except Stop β} (first : Within x y) (next : ∀ a, Within (f a) (g a)) : Within (x >>= f) (y >>= g) :=
  first.bind fun a _ same => same ▸ next a

theorem Within.returns {α : Type} {x : Except Crash α} {y : Except Stop α} (within : Within x y) {a : α}
    (run : x = .ok a) : y = .ok a := by
  obtain ⟨_, returns, rfl⟩ := Related.returns within run
  exact returns

theorem listChainIn_iff {cs : List Nat} {st r : Printer} :
    cs.foldlM (fun st c => (listSector p (clusterAddr c) st).mapError Crash.stop) st = .ok r ↔
      cs.foldlM (fun st c => listSector p (clusterAddr c) st) st = .ok r := by
  rw [foldlM_mapError (fun st c => listSector p (clusterAddr c) st), mapError_eq_ok]

section Descend

variable {path : Printer → Slot → List UInt8} {fits : Printer → Slot → Prop} [∀ st, DecidablePred (fits st)]
variable {sub : Nat → Printer → Except Stop Printer} {subIn : Nat → Printer → Except Crash Printer}
variable {s : Slot} {st r : Printer}

theorem descendIn_within (nested : ∀ c st, Within (subIn c st) (sub c st)) (st : Printer) (s : Slot) :
    Within (descendIn p path fits subIn st s) (descend p path sub st s) := by
  rw [descendIn, descend]
  refine within_bind (within_mapError _) fun kind => ?_
  cases kind with
  | skip | file => exact .ok rfl
  | dir =>
    simp only
    split
    · exact nested _ _
    · exact .undefined ⟨_, rfl⟩

theorem descendIn_leaf (readable : Readable p s) (leaf : p.kind s ≠ .dir) (st : Printer) :
    descendIn p path fits subIn st s = .ok st := by
  rw [descendIn, classify_eq_ok.2 ⟨readable, rfl⟩, checked_ok, mapError_ok, ok_bind]
  cases isKind : p.kind s with
  | skip | file => rfl
  | dir => exact absurd isKind leaf

theorem descendIn_dir (readable : Readable p s) (isDir : p.kind s = .dir) :
    descendIn p path fits subIn st s = .ok r ↔
      fits st s ∧ subIn (p.flc s) { st with dirPath := path st s }.header = .ok r := by
  rw [descendIn, classify_eq_ok.2 ⟨readable, isDir.symm⟩, checked_ok, mapError_ok, ok_bind]
  simp only
  split
  · rename_i fit
    exact (and_iff_right fit).symm
  · rename_i full
    exact ⟨nofun, fun both => absurd both.1 full⟩

end Descend

theorem parseSubIn_within (b : PathBuffers) : ∀ (fuel c : Nat) (st : Printer),
    Within (parseSubIn b p fuel c st) (parseSub p fuel c st) := by
  intro fuel
  induction fuel with
  | zero => exact fun c st => .error rfl
  | succ fuel ih =>
    intro c st
    rw [parseSubIn, parseSub]
    refine within_bind ?_ fun st => ?_
    · exact related_clusterLoop (fun c a b same => same ▸ within_mapError _) (fun a b fault same => same ▸ rfl) rfl
    · refine related_clusterLoop (fun c a b same => ?_) (fun a b fault same => same ▸ rfl) rfl
      exact Related.foldlM (fun a b s same => same ▸ descendIn_within ih a s) _ same

/-! ## What has to fit -/

/-- The paths fit on the way through the trees. -/
def TreesFit (b : PathBuffers) (p : Image) (path : Printer → Slot → List UInt8) (fits : Printer → Slot → Prop) :
    Forest Dir → Printer → Prop
  | .nil, _ => True
  | .cons d kids rest, st =>
    fits st d.entry ∧ TreesFit b p (appendPath p) (appendFits b p) kids (st.visit p path d) ∧
      TreesFit b p path fits rest ((st.visit p path d).visitTrees p (appendPath p) kids)

/-- A scan returns with the buffers if the paths of its walk fit, and if its nested scans do. -/
theorem descendIn_iff {b : PathBuffers} {fuel : Nat}
    (nested : ∀ c st r cs f, parseSub p fuel c st = .ok r → Follows p c cs → Walk p (cs.flatMap clusterSlots) f →
      (parseSubIn b p fuel c st = .ok r ↔
        TreesFit b p (appendPath p) (appendFits b p) f (st.print (chainLines p cs))))
    {ss : List Slot} {f : Forest Dir} (walk : Walk p ss f) :
    ∀ (path : Printer → Slot → List UInt8) (fits : Printer → Slot → Prop) [∀ st, DecidablePred (fits st)]
      {st r : Printer}, ss.foldlM (descend p path (parseSub p fuel)) st = .ok r →
        (ss.foldlM (descendIn p path fits (parseSubIn b p fuel)) st = .ok r ↔ TreesFit b p path fits f st) := by
  induction walk with
  | nil =>
    intro path fits _ st r run
    exact ⟨fun _ => trivial, fun _ => Except.ok.inj run ▸ rfl⟩
  | @leaf s ss f leaf _ ih =>
    intro path fits _ st r run
    rw [List.foldlM_cons, bind_eq_ok] at run
    obtain ⟨st', first, rest⟩ := run
    have here := descend_readable first
    obtain rfl := Except.ok.inj ((descend_leaf here leaf st).symm.trans first)
    rw [List.foldlM_cons, descendIn_leaf here leaf, ok_bind]
    exact ih path fits rest
  | @enter s ss d kids rest entered below _ _ ihRest =>
    intro path fits _ st r run
    rw [List.foldlM_cons, bind_eq_ok] at run
    obtain ⟨st', first, later⟩ := run
    have here := descend_readable first
    have parsed := first
    rw [descend_dir here entered.kind] at parsed
    obtain ⟨cs, g, follows, walk, -, state⟩ := parseSub_ok parsed
    obtain rfl := follows.unique entered.chain
    obtain rfl := walk.unique deterministic_enters below
    have visited : { st with dirPath := path st s }.header.print (chainLines p d.chain) = st.visit p path d := by
      rw [Printer.visit, entered.entry]
    rw [visited] at state
    have inside := nested _ _ _ _ _ parsed entered.chain below
    rw [visited] at inside
    rw [TreesFit, entered.entry, Printer.visitTrees_append, ← state, ← ihRest path fits later, ← inside, ← and_assoc,
      ← descendIn_dir here entered.kind, List.foldlM_cons, bind_eq_ok]
    constructor
    · rintro ⟨st'', firstIn, laterIn⟩
      have same := (descendIn_within (parseSubIn_within b fuel) st s).returns firstIn
      obtain rfl := Except.ok.inj (first.symm.trans same)
      exact ⟨firstIn, laterIn⟩
    · rintro ⟨firstIn, laterIn⟩
      exact ⟨st', firstIn, laterIn⟩

theorem parseSubIn_iff (b : PathBuffers) : ∀ {fuel c : Nat} {st r : Printer} {cs : List Nat} {f : Forest Dir},
    parseSub p fuel c st = .ok r → Follows p c cs → Walk p (cs.flatMap clusterSlots) f →
      (parseSubIn b p fuel c st = .ok r ↔
        TreesFit b p (appendPath p) (appendFits b p) f (st.print (chainLines p cs))) := by
  intro fuel
  induction fuel with
  | zero => intro c st r cs f run; simp [parseSub] at run
  | succ fuel ih =>
    intro c st r cs f run follows walk
    rw [parseSub, bind_eq_ok] at run
    obtain ⟨st', listed, run⟩ := run
    obtain ⟨ds, follows', len, listed⟩ := clusterLoop_ok listed
    obtain rfl := follows'.unique follows
    rw [clusterLoop_eq follows' len, ← foldlM_flatMap, listChain_ok listed] at run
    rw [parseSubIn, clusterLoop_eq follows' len, listChainIn_iff.2 listed, ok_bind, clusterLoop_eq follows' len,
      ← foldlM_flatMap, listChain_ok listed]
    exact descendIn_iff (fun _ _ _ _ _ => ih) walk _ _ run

/-! ## The root directory -/

theorem rootLoopIn_iff {b : PathBuffers} {subIn : Nat → Printer → Except Crash Printer} : ∀ {left i m : Nat},
    RootScan p i left m → ∀ {st r : Printer}, rootLoopIn b p subIn left i st = .ok r ↔
      (rootSlots i m).foldlM (descendIn p (resetPath p) (resetFits b p) subIn) st = .ok r := by
  intro left
  induction left with
  | zero =>
    intro i m scan st r
    obtain rfl : m = 0 := by rcases scan.stop with all | ⟨lt, _⟩ <;> omega
    have inside : (rootSlot i).addr + 1 ≤ p.size := scan.inside
    rw [rootLoopIn, Image.read_of_le inside, checked_ok, mapError_ok]
    rfl
  | succ left ih =>
    intro i m scan st r
    have inside : (rootSlot i).addr + 1 ≤ p.size := by
      have := scan.inside
      simp only [rootSlot] at this ⊢
      omega
    rw [rootLoopIn, Image.read_of_le inside, checked_ok, mapError_ok, ok_bind]
    cases m with
    | zero =>
      have free : p.byteAt (rootSlot i).addr = 0 := by
        rcases scan.stop with all | ⟨_, free⟩
        · omega
        · exact free
      rw [if_pos free]
      rfl
    | succ m =>
      have used : p.byteAt (rootSlot i).addr ≠ 0 := scan.used 0 (by omega)
      rw [if_neg used, rootSlots_succ, List.foldlM_cons, bind_eq_ok, bind_eq_ok]
      exact exists_congr fun st => and_congr_right fun _ => ih scan.tail

theorem rootLoopIn_within (b : PathBuffers) {sub : Nat → Printer → Except Stop Printer}
    {subIn : Nat → Printer → Except Crash Printer} (nested : ∀ c st, Within (subIn c st) (sub c st)) :
    ∀ (left i : Nat) (st : Printer), Within (rootLoopIn b p subIn left i st) (rootLoop p sub left i st) := by
  intro left
  induction left with
  | zero =>
    intro i st
    rw [rootLoopIn, rootLoop]
    exact within_bind (within_mapError _) fun _ => .ok rfl
  | succ left ih =>
    intro i st
    rw [rootLoopIn, rootLoop]
    refine within_bind (within_mapError _) fun c => ?_
    by_cases free : c = 0x00
    · rw [if_pos free, if_pos free]
      exact .ok rfl
    · rw [if_neg free, if_neg free, enterRootSlot]
      exact within_bind (descendIn_within nested st _) fun st => ih (i + 1) st

/-- A run with the buffers is the run with large ones, unless it stores outside them. -/
theorem printEntireImageIn_within (b : PathBuffers) (fuel : Nat) :
    Within (printEntireImageIn b p fuel) (printEntireImage p fuel) := by
  rw [printEntireImageIn, printEntireImage]
  refine within_bind (within_mapError _) fun st => within_bind ?_ fun st => .ok rfl
  exact rootLoopIn_within b (parseSubIn_within b fuel) _ _ st

/-- **The buffers change no result.** -/
theorem printEntireImageIn_ok {b : PathBuffers} {fuel : Nat} {out : List Item}
    (run : printEntireImageIn b p fuel = .ok out) : printEntireImage p fuel = .ok out :=
  (printEntireImageIn_within b fuel).returns run

/-! ## What fits, in numbers -/

/-- The names of the directories, as they come to stand in `dir_path`. -/
def joined (p : Image) (ds : List Dir) : List UInt8 := ds.flatMap fun d => cstr (component p d.entry)

/-- Each root directory's tree fits: the names of all its directories together into `dir_path`, each of
the names below the root directory into `temp2`. -/
def PathsFit (b : PathBuffers) (p : Image) : Forest Dir → Prop
  | .nil => True
  | .cons d kids rest =>
    ((component p d.entry).length + 1 ≤ b.dirPath ∧ (joined p (d :: kids.nodes)).length + 1 ≤ b.dirPath ∧
      ∀ e ∈ kids.nodes, (component p e.entry).length + 1 ≤ b.temp2) ∧ PathsFit b p rest

theorem visit_dirPath (path : Printer → Slot → List UInt8) (st : Printer) (d : Dir) :
    (st.visit p path d).dirPath = path st d.entry := rfl

theorem visitTrees_dirPath (st : Printer) (f : Forest Dir) :
    (st.visitTrees p (appendPath p) f).dirPath = st.dirPath ++ joined p f.nodes := by
  have visits : ∀ (ds : List Dir) (st : Printer),
      (ds.foldl (Printer.visit p (appendPath p)) st).dirPath = st.dirPath ++ joined p ds := by
    intro ds
    induction ds with
    | nil => exact fun st => (List.append_nil _).symm
    | cons d ds ih =>
      intro st
      rw [List.foldl_cons, ih, visit_dirPath, appendPath, List.append_assoc]
      rfl
  rw [Printer.visitTrees_append, visits]

instance PathsFit.decidable (b : PathBuffers) : DecidablePred (PathsFit b p)
  | .nil => inferInstanceAs (Decidable True)
  | .cons _ _ rest =>
    have : Decidable (PathsFit b p rest) := PathsFit.decidable b rest
    inferInstanceAs (Decidable (_ ∧ _))

/-- Where the path is only appended to, it is longest in the end. -/
theorem treesFit_append {b : PathBuffers} (f : Forest Dir) {st : Printer} (room : st.dirPath.length + 1 ≤ b.dirPath) :
    TreesFit b p (appendPath p) (appendFits b p) f st ↔
      (∀ e ∈ f.nodes, (component p e.entry).length + 1 ≤ b.temp2) ∧
        (st.dirPath ++ joined p f.nodes).length + 1 ≤ b.dirPath := by
  induction f generalizing st with
  | nil => simpa [TreesFit, Forest.nodes, joined] using room
  | cons d kids rest ihKids ihRest =>
    have own : (appendPath p st d.entry).length = st.dirPath.length + (cstr (component p d.entry)).length :=
      List.length_append
    have all : (joined p (Forest.cons d kids rest).nodes).length =
        (cstr (component p d.entry)).length + ((joined p kids.nodes).length + (joined p rest.nodes).length) := by
      rw [Forest.nodes, joined, List.flatMap_cons, List.flatMap_append, List.length_append, List.length_append]
      rfl
    rw [TreesFit, appendFits, List.length_append, all, Forest.nodes, List.forall_mem_cons, List.forall_mem_append, own]
    constructor
    · rintro ⟨⟨name, here⟩, below, behind⟩
      rw [ihKids (by rw [visit_dirPath, own]; exact here), List.length_append, visit_dirPath, own] at below
      rw [ihRest (by rw [visitTrees_dirPath, List.length_append, visit_dirPath, own]; exact below.2),
        visitTrees_dirPath, List.length_append, List.length_append, visit_dirPath, own] at behind
      exact ⟨⟨name, below.1, behind.1⟩, by omega⟩
    · rintro ⟨⟨name, namesBelow, namesBehind⟩, fits⟩
      have here : st.dirPath.length + (cstr (component p d.entry)).length + 1 ≤ b.dirPath := by omega
      have below : st.dirPath.length + (cstr (component p d.entry)).length + (joined p kids.nodes).length + 1 ≤
          b.dirPath := by omega
      refine ⟨⟨name, here⟩, ?_, ?_⟩
      · rw [ihKids (by rw [visit_dirPath, own]; exact here), List.length_append, visit_dirPath, own]
        exact ⟨namesBelow, below⟩
      · rw [ihRest (by rw [visitTrees_dirPath, List.length_append, visit_dirPath, own]; exact below),
          visitTrees_dirPath, List.length_append, List.length_append, visit_dirPath, own]
        exact ⟨namesBehind, by omega⟩

theorem treesFit_reset {b : PathBuffers} (f : Forest Dir) (st : Printer) :
    TreesFit b p (resetPath p) (resetFits b p) f st ↔ PathsFit b p f := by
  induction f generalizing st with
  | nil => exact Iff.rfl
  | cons d kids rest _ ih =>
    have short : (cstr (component p d.entry)).length ≤ (component p d.entry).length :=
      (List.takeWhile_sublist _).length_le
    have all : (joined p (d :: kids.nodes)).length =
        (cstr (component p d.entry)).length + (joined p kids.nodes).length := by
      rw [joined, List.flatMap_cons, List.length_append]
      rfl
    rw [TreesFit, PathsFit, ih, ← and_assoc, resetFits]
    refine and_congr_left fun _ => and_congr_right fun own => ?_
    rw [treesFit_append kids (by rw [visit_dirPath, resetPath]; omega), visit_dirPath, resetPath,
      List.length_append, all, and_comm]

/-- A run that returns does so with the buffers exactly if each root directory's tree fits. -/
theorem printEntireImageIn_iff {m : Nat} {f : Forest Dir} (scan : RootScan p 0 (maxRootEntries p) m)
    (walk : Walk p (rootSlots 0 m) f) {fuel : Nat} {out : List Item}
    (listed : printEntireImage p fuel = .ok out) (b : PathBuffers) :
    printEntireImageIn b p fuel = .ok out ↔ PathsFit b p f := by
  rw [printEntireImage, bind_eq_ok] at listed
  obtain ⟨st, root, listed⟩ := listed
  rw [bind_eq_ok] at listed
  obtain ⟨st', loop, listed⟩ := listed
  rw [rootLoop_eq scan] at loop
  have inside := descendIn_iff (fun _ _ _ _ _ => parseSubIn_iff b) walk (resetPath p) (resetFits b p) loop
  rw [treesFit_reset] at inside
  rw [printEntireImageIn, root, mapError_ok, ok_bind, ← inside, ← rootLoopIn_iff scan, bind_eq_ok]
  constructor
  · rintro ⟨r, loopIn, -⟩
    have same := (rootLoopIn_within b (parseSubIn_within b fuel) _ _ st).returns loopIn
    rw [rootLoop_eq scan] at same
    obtain rfl := Except.ok.inj (loop.symm.trans same)
    exact loopIn
  · exact fun loopIn => ⟨st', loopIn, congrArg Except.ok (Except.ok.inj listed)⟩

/-- What such a run prints with the buffers is its output if each root directory's tree fits, and
undefined otherwise. -/
theorem prints_iff {m : Nat} {f : Forest Dir} (scan : RootScan p 0 (maxRootEntries p) m)
    (walk : Walk p (rootSlots 0 m) f) {fuel : Nat} {out : List Item}
    (listed : printEntireImage p fuel = .ok out) (b : PathBuffers) (shown : List Item) :
    Prints b p fuel shown ↔ (PathsFit b p f → shown = out) := by
  have fits := printEntireImageIn_iff scan walk listed b
  rcases (printEntireImageIn_within b fuel).returns_or listed with ⟨_, run, rfl⟩ | ⟨_, run, before, rfl⟩
  · constructor
    · rintro (returns | undefined) _
      · exact Except.ok.inj (returns.symm.trans run)
      · cases run.symm.trans undefined
    · intro same
      rw [same (fits.1 run)]
      exact .returned run
  · have full : ¬ PathsFit b p f := fun fit => by cases run.symm.trans (fits.2 fit)
    exact iff_of_true (.undefined run) fun fit => absurd fit full

end CSC360.Disk.DiskList
