import CSC360.Disk.Walk
import CSC360.Disk.DiskList

/-!
# What disklist prints

`disklist.c` in terms of the walk: `parse_sub` visits the directories of the walk
in depth-first pre-order, and each visit appends one component to the path
buffer, prints a header from the buffer and lists the directory's clusters
(`Printer.visit`). Nothing is ever removed from the buffer, so what a directory's
header shows depends only on the directories visited before it. As for counting
there is a rule for finite walks (`printEntireImage_settles`) and its converse for
runs that return (`printEntireImage_ok`).
-/

namespace CSC360.Disk.DiskList
open CSC360.Base

variable {p : Image}

/-- The slots of the sector at offset `a`, as a subdirectory scan sees them. -/
def sectorSlots (a : Nat) : List Slot := (List.range 16).map fun i => ⟨a + 32 * i, true⟩

/-- The line printed for a slot, if any. -/
def entryLine (p : Image) (s : Slot) : List Item :=
  match p.kind s with
  | .skip => []
  | .file => [fileLine p s]
  | .dir => [dirLine p s]

/-- The slots before the first `0x00` slot. -/
def usedSlots (p : Image) (ss : List Slot) : List Slot := ss.takeWhile fun s => p.first s ≠ 0

/-- The lines `print_directory` prints for a sector. -/
def sectorLines (p : Image) (a : Nat) : List Item :=
  (usedSlots p (sectorSlots a)).flatMap (entryLine p)

/-- What the first loop of `parse_sub` prints for a chain. -/
def chainLines (p : Image) (cs : List Nat) : List Item :=
  cs.flatMap fun c => sectorLines p (clusterAddr c) ++ [.newline]

/-- The sectors the first loop of `print_entire_image` prints from offset `a` on. -/
def rootSectors (p : Image) : Nat → Nat → List Nat
  | 0, _ => []
  | left + 1, a => if p.byteAt a = 0x00 then [] else a :: rootSectors p left (a + SECTOR_SIZE)

/-- What the first loop of `print_entire_image` prints. -/
def rootLines (p : Image) : List Item :=
  (rootSectors p 19 (SECTOR_SIZE * 19)).flatMap fun a => sectorLines p a ++ [.newline]

/-- The visit of one directory: the buffer becomes `path`, then header and listing. -/
def Printer.visit (p : Image) (path : Printer → Slot → List UInt8) (st : Printer) (d : Dir) : Printer :=
  let st := { st with dirPath := path st d.entry }
  st.header.print (chainLines p d.chain)

/-- The visits of a forest's trees: `path` is used at their roots, below them the
components are appended. -/
def Printer.visitTrees (p : Image) (path : Printer → Slot → List UInt8) (st : Printer) :
    Forest Dir → Printer
  | .nil => st
  | .cons d kids rest =>
    (kids.nodes.foldl (Printer.visit p (appendPath p)) (st.visit p path d)).visitTrees p path rest

theorem Printer.visitTrees_append (st : Printer) (f : Forest Dir) :
    st.visitTrees p (appendPath p) f = f.nodes.foldl (Printer.visit p (appendPath p)) st := by
  induction f generalizing st with
  | nil => rfl
  | cons d kids rest _ ih =>
    rw [Printer.visitTrees, ih]
    simp only [Forest.nodes, List.foldl_cons, List.foldl_append]

/-- `print_directory` of the sector at `a` stays inside the mapping: the sector
does, and if all its slots are in use so does the byte after it. -/
structure Listable (p : Image) (a : Nat) : Prop where
  sector : a + 512 ≤ p.size
  next : (∃ s ∈ sectorSlots a, p.first s = 0) ∨ a + 513 ≤ p.size

/-! ## One sector -/

theorem usedSlots_cons_free {s : Slot} {ss : List Slot} (free : p.first s = 0) :
    usedSlots p (s :: ss) = [] := by
  simp [usedSlots, free]

theorem usedSlots_cons_used {s : Slot} {ss : List Slot} (used : p.first s ≠ 0) :
    usedSlots p (s :: ss) = s :: usedSlots p ss := by
  simp [usedSlots, used]

theorem checked_ok {α : Type} (st : Printer) (a : α) : st.checked (.ok a) = .ok a := rfl

theorem checked_eq_ok {α : Type} {st : Printer} {x : Except Fault α} {a : α} :
    st.checked x = .ok a ↔ x = .ok a :=
  mapError_eq_ok

@[simp] theorem print_nil (st : Printer) : st.print [] = st := by
  simp [Printer.print]

@[simp] theorem print_print (st : Printer) (l l' : List Item) : (st.print l).print l' = st.print (l ++ l') := by
  simp [Printer.print]

theorem printEntry_eq {s : Slot} (inside : s.addr + 32 ≤ p.size) (st : Printer) :
    printEntry p s st = .ok (st.print (entryLine p s)) := by
  have readable : Readable p s := by unfold Readable; omega
  rw [printEntry, classify_eq_ok.2 ⟨readable, rfl⟩, checked_ok, ok_bind, entryLine]
  cases p.kind s with
  | skip => rw [print_nil]; rfl
  | file => simp only [Image.touch_eq_ok.2 inside, checked_ok, ok_bind]; rfl
  | dir => rfl

theorem printEntry_ok {s : Slot} {st r : Printer} (h : printEntry p s st = .ok r) :
    r = st.print (entryLine p s) := by
  rw [printEntry, bind_eq_ok] at h
  obtain ⟨kind, isKind, h⟩ := h
  obtain ⟨_, rfl⟩ := classify_eq_ok.1 (checked_eq_ok.1 isKind)
  rw [entryLine]
  cases isKind : p.kind s with
  | skip => rw [isKind] at h; rw [print_nil]; exact (Except.ok.inj h).symm
  | file =>
    rw [isKind] at h
    obtain ⟨_, _, h⟩ := bind_eq_ok.1 h
    exact (Except.ok.inj h).symm
  | dir => rw [isKind] at h; exact (Except.ok.inj h).symm

/-- The slots of the loop of `print_directory` at `temp`, with `left` to come. -/
def slotsFrom (left temp : Nat) : List Slot := (List.range left).map fun i => ⟨temp + 32 * i, true⟩

theorem slotsFrom_succ (left temp : Nat) :
    slotsFrom (left + 1) temp = ⟨temp, true⟩ :: slotsFrom left (temp + 32) := by
  simp only [slotsFrom, List.range_succ_eq_map, List.map_cons, List.map_map, Function.comp_def,
    Nat.mul_zero, Nat.add_zero, Nat.mul_succ]
  congr 1
  exact List.map_congr_left fun i _ => by congr 1; omega

theorem printSlots_eq : ∀ {left temp : Nat} {st : Printer}, temp + 32 * left ≤ p.size →
    ((∃ s ∈ slotsFrom left temp, p.first s = 0) ∨ temp + 32 * left + 1 ≤ p.size) →
    printSlots p left temp st =
      .ok (st.print ((usedSlots p (slotsFrom left temp)).flatMap (entryLine p))) := by
  intro left
  induction left with
  | zero =>
    intro temp st _ next
    have inside : temp + 1 ≤ p.size := by simpa [slotsFrom] using next
    rw [printSlots, Image.read_of_le inside, checked_ok, ok_bind]
    exact congrArg Except.ok (print_nil st).symm
  | succ left ih =>
    intro temp st sector next
    rw [printSlots, Image.read_of_le (by omega), checked_ok, ok_bind, slotsFrom_succ]
    by_cases free : p.first ⟨temp, true⟩ = 0x00
    · rw [if_pos (show p.byteAt temp = 0x00 from free), usedSlots_cons_free free]
      exact congrArg Except.ok (print_nil st).symm
    · have later : (∃ s ∈ slotsFrom left (temp + 32), p.first s = 0) ∨
          temp + 32 + 32 * left + 1 ≤ p.size := by
        rcases next with ⟨s, mem, isFree⟩ | next
        · rw [slotsFrom_succ] at mem
          rcases List.mem_cons.1 mem with rfl | mem
          · exact absurd isFree free
          · exact .inl ⟨s, mem, isFree⟩
        · exact .inr (by omega)
      have here : printEntry p ⟨temp, true⟩ st = .ok (st.print (entryLine p ⟨temp, true⟩)) :=
        printEntry_eq (by simp only; omega) st
      rw [if_neg (show ¬ p.byteAt temp = 0x00 from free), usedSlots_cons_used free, here, ok_bind,
        ih (by omega) later, print_print]
      rfl

theorem printSlots_ok : ∀ {left temp : Nat} {st r : Printer}, printSlots p left temp st = .ok r →
    r = st.print ((usedSlots p (slotsFrom left temp)).flatMap (entryLine p)) := by
  intro left
  induction left with
  | zero =>
    intro temp st r h
    obtain ⟨_, _, h⟩ := bind_eq_ok.1 (printSlots.eq_1 p temp st ▸ h)
    exact (Except.ok.inj h).symm.trans (print_nil st).symm
  | succ left ih =>
    intro temp st r h
    rw [printSlots, bind_eq_ok] at h
    obtain ⟨b, read, h⟩ := h
    obtain ⟨_, rfl⟩ := Image.read_eq_ok.1 (checked_eq_ok.1 read)
    rw [slotsFrom_succ]
    by_cases free : p.first ⟨temp, true⟩ = 0x00
    · rw [if_pos (show p.byteAt temp = 0x00 from free)] at h
      rw [usedSlots_cons_free free]
      exact (Except.ok.inj h).symm.trans (print_nil st).symm
    · rw [if_neg (show ¬ p.byteAt temp = 0x00 from free), bind_eq_ok] at h
      obtain ⟨st', first, h⟩ := h
      rw [usedSlots_cons_used free, List.flatMap_cons, ih h, printEntry_ok first, print_print]

theorem listSector_eq {a : Nat} (h : Listable p a) (st : Printer) :
    listSector p a st = .ok (st.print (sectorLines p a ++ [.newline])) := by
  have lines : printDirectory p a st = .ok (st.print (sectorLines p a)) :=
    printSlots_eq h.sector (h.next.imp_right fun next => by omega)
  rw [listSector, lines, ok_bind, print_print]
  rfl

theorem listSector_ok {a : Nat} {st r : Printer} (h : listSector p a st = .ok r) :
    r = st.print (sectorLines p a ++ [.newline]) := by
  obtain ⟨st', printed, h⟩ := bind_eq_ok.1 h
  have lines : st' = st.print (sectorLines p a) := printSlots_ok printed
  rw [← print_print, ← lines]
  exact (Except.ok.inj h).symm

/-! ## A chain -/

theorem chainLines_cons (c : Nat) (cs : List Nat) :
    chainLines p (c :: cs) = sectorLines p (clusterAddr c) ++ [.newline] ++ chainLines p cs := rfl

theorem listChain_eq {cs : List Nat} (listable : ∀ c ∈ cs, Listable p (clusterAddr c)) :
    ∀ {st : Printer}, cs.foldlM (fun st c => listSector p (clusterAddr c) st) st =
      .ok (st.print (chainLines p cs)) := by
  induction cs with
  | nil => exact fun {st} => congrArg Except.ok (print_nil st).symm
  | cons c cs ih =>
    intro st
    rw [List.foldlM_cons, listSector_eq (listable c (by simp)) st, ok_bind,
      ih fun c mem => listable c (List.mem_cons_of_mem _ mem), print_print, chainLines_cons]

theorem listChain_ok {cs : List Nat} : ∀ {st r : Printer},
    cs.foldlM (fun st c => listSector p (clusterAddr c) st) st = .ok r →
      r = st.print (chainLines p cs) := by
  induction cs with
  | nil => intro st r h; cases h; exact (print_nil st).symm
  | cons c cs ih =>
    intro st r h
    rw [List.foldlM_cons, bind_eq_ok] at h
    obtain ⟨st', first, h⟩ := h
    rw [ih h, listSector_ok first, print_print, chainLines_cons]

/-! ## The recursion -/

/-- `parse_sub` on a chain: the listing pass, then one fold over its slots. -/
theorem parseSub_succ {c fuel : Nat} {cs : List Nat} {st : Printer} (follows : Follows p c cs)
    (len : cs.length < fuel + 1) (listable : ∀ k ∈ cs, Listable p (clusterAddr k)) :
    parseSub p (fuel + 1) c st =
      (cs.flatMap clusterSlots).foldlM (enterSlot p (parseSub p fuel))
        (st.print (chainLines p cs)) := by
  rw [parseSub, clusterLoop_eq follows len, listChain_eq listable, ok_bind,
    clusterLoop_eq follows len, foldlM_flatMap]

section Descend

variable {path : Printer → Slot → List UInt8} {sub : Nat → Printer → Except Stop Printer} {s : Slot}

/-- The scan passes over slots that are no directories. -/
theorem descend_leaf (readable : Readable p s) (leaf : p.kind s ≠ .dir) (st : Printer) :
    descend p path sub st s = .ok st := by
  rw [descend, classify_eq_ok.2 ⟨readable, rfl⟩, checked_ok, ok_bind]
  cases isKind : p.kind s with
  | skip | file => rfl
  | dir => exact absurd isKind leaf

theorem descend_dir (readable : Readable p s) (isDir : p.kind s = .dir) (st : Printer) :
    descend p path sub st s = sub (p.flc s) { st with dirPath := path st s }.header := by
  rw [descend, classify_eq_ok.2 ⟨readable, isDir.symm⟩, checked_ok, ok_bind]

theorem descend_readable {st r : Printer} (run : descend p path sub st s = .ok r) : Readable p s := by
  rw [descend, bind_eq_ok] at run
  obtain ⟨kind, isKind, _⟩ := run
  exact (classify_eq_ok.1 (checked_eq_ok.1 isKind)).1

end Descend

/-- **Listing a finite walk** visits its trees. -/
theorem descend_settles {ss : List Slot} {f : Forest Dir} (walk : Walk p ss f) :
    ∀ path : Printer → Slot → List UInt8, (∀ s ∈ scanned ss f, Readable p s) →
      (∀ d ∈ f.nodes, ∀ c ∈ d.chain, Listable p (clusterAddr c)) →
      ∃ bound, ∀ fuel, bound ≤ fuel → ∀ st,
        ss.foldlM (descend p path (parseSub p fuel)) st = .ok (st.visitTrees p path f) := by
  induction walk with
  | nil => exact fun _ _ _ => ⟨0, fun _ _ _ => rfl⟩
  | @leaf s ss f leaf _ ih =>
    intro path readable listable
    obtain ⟨bound, run⟩ := ih path (fun s mem => readable s (mem_scanned_leaf.2 (.inr mem))) listable
    have here : Readable p s := readable s (mem_scanned_leaf.2 (.inl rfl))
    refine ⟨bound, fun fuel le st => ?_⟩
    rw [List.foldlM_cons, descend_leaf here leaf, ok_bind, run fuel le st]
  | @enter s ss d kids rest entered _ _ ihKids ihRest =>
    intro path readable listable
    have inNodes : ∀ e, e ∈ kids.nodes ∨ e ∈ rest.nodes → e ∈ (Forest.cons d kids rest).nodes := by
      intro e mem
      simp only [Forest.nodes, List.mem_cons, List.mem_append]
      exact .inr mem
    obtain ⟨boundKids, runKids⟩ := ihKids (appendPath p)
      (fun t mem => readable t (mem_scanned_enter.2 (.inr (.inl mem))))
      fun e mem => listable e (inNodes e (.inl mem))
    obtain ⟨boundRest, runRest⟩ := ihRest path
      (fun t mem => readable t (mem_scanned_enter.2 (.inr (.inr mem))))
      fun e mem => listable e (inNodes e (.inr mem))
    have here : Readable p s := readable s (mem_scanned_enter.2 (.inl rfl))
    refine ⟨max (max boundKids boundRest) d.chain.length + 1, fun fuel le st => ?_⟩
    obtain ⟨fuel, rfl⟩ : ∃ k, fuel = k + 1 := ⟨fuel - 1, by omega⟩
    have nested : ∀ st, parseSub p (fuel + 1) (p.flc s) st =
        .ok (kids.nodes.foldl (Printer.visit p (appendPath p)) (st.print (chainLines p d.chain))) := by
      intro st
      rw [parseSub_succ entered.chain (by omega) (listable d (by simp [Forest.nodes])),
        ← Printer.visitTrees_append]
      exact runKids fuel (by omega) _
    rw [List.foldlM_cons, descend_dir here entered.kind, nested, ok_bind, runRest (fuel + 1) (by omega)]
    simp only [Printer.visitTrees, Printer.visit, entered.entry]

/-- A result of `parse_sub` is the visit of a finite, readable walk. -/
def Visited (p : Image) (c : Nat) (st r : Printer) : Prop :=
  ∃ cs f, Follows p c cs ∧ Walk p (cs.flatMap clusterSlots) f ∧
    (∀ s ∈ scanned (cs.flatMap clusterSlots) f, Readable p s) ∧
    r = f.nodes.foldl (Printer.visit p (appendPath p)) (st.print (chainLines p cs))

/-- A scan that returns has visited its walk, if the nested scans have. -/
theorem descend_ok_of {path : Printer → Slot → List UInt8} {sub : Nat → Printer → Except Stop Printer}
    (visited : ∀ c st r, sub c st = .ok r → Visited p c st r) :
    ∀ {ss : List Slot} {st r : Printer}, ss.foldlM (descend p path sub) st = .ok r →
      ∃ f, Walk p ss f ∧ (∀ s ∈ scanned ss f, Readable p s) ∧ r = st.visitTrees p path f := by
  intro ss
  induction ss with
  | nil =>
    intro st r h
    cases h
    exact ⟨.nil, .nil, by simp [places, Forest.nodes], rfl⟩
  | cons s ss ih =>
    intro st r h
    rw [List.foldlM_cons, bind_eq_ok] at h
    obtain ⟨st', first, h⟩ := h
    obtain ⟨f, walk, readable, rfl⟩ := ih h
    have here := descend_readable first
    by_cases isDir : p.kind s = .dir
    · rw [descend_dir here isDir] at first
      obtain ⟨cs, kids, follows, below, readableBelow, rfl⟩ := visited _ _ _ first
      refine ⟨.cons ⟨s, cs⟩ kids f, .enter ⟨rfl, isDir, follows⟩ below walk, ?_, rfl⟩
      intro t mem
      rcases mem_scanned_enter.1 mem with rfl | mem | mem
      · exact here
      · exact readableBelow t mem
      · exact readable t mem
    · rw [descend_leaf here isDir, Except.ok.injEq] at first
      refine ⟨f, .leaf isDir walk, fun t mem => ?_, by rw [first]⟩
      rcases mem_scanned_leaf.1 mem with rfl | mem
      · exact here
      · exact readable t mem

theorem parseSub_ok : ∀ {fuel c : Nat} {st r : Printer}, parseSub p fuel c st = .ok r →
    Visited p c st r := by
  intro fuel
  induction fuel with
  | zero => intro c st r h; simp [parseSub] at h
  | succ fuel ih =>
    intro c st r h
    rw [parseSub, bind_eq_ok] at h
    obtain ⟨st', listed, h⟩ := h
    obtain ⟨cs, follows, _, listed⟩ := clusterLoop_ok listed
    obtain ⟨ds, follows', _, run⟩ := clusterLoop_ok h
    obtain rfl := follows.unique follows'
    rw [← foldlM_flatMap] at run
    obtain ⟨f, walk, readable, rfl⟩ := descend_ok_of (fun _ _ _ => ih) run
    exact ⟨cs, f, follows, walk, readable, by rw [listChain_ok listed, Printer.visitTrees_append]⟩

/-! ## The root directory -/

/-- The second root loop scans `m` slots from `i` on: it stops at its limit or at a `0x00` slot. -/
structure RootScan (p : Image) (i left m : Nat) : Prop where
  used : ∀ j, j < m → p.first (rootSlot (i + j)) ≠ 0
  stop : m = left ∨ m < left ∧ p.first (rootSlot (i + m)) = 0
  inside : (rootSlot (i + m)).addr + 1 ≤ p.size

theorem RootScan.tail {i left m : Nat} (h : RootScan p i (left + 1) (m + 1)) :
    RootScan p (i + 1) left m where
  used j lt := by rw [Nat.add_right_comm]; exact h.used (j + 1) (by omega)
  stop := by
    rw [Nat.add_right_comm]
    rcases h.stop with all | ⟨lt, free⟩
    · exact .inl (by omega)
    · exact .inr ⟨by omega, free⟩
  inside := by rw [Nat.add_right_comm]; exact h.inside

theorem RootScan.cons {i left m : Nat} (h : RootScan p (i + 1) left m)
    (used : p.first (rootSlot i) ≠ 0) : RootScan p i (left + 1) (m + 1) where
  used j lt := by
    rcases j with _ | j
    · exact used
    · rw [← Nat.add_assoc, Nat.add_right_comm]
      exact h.used j (by omega)
  stop := by
    rw [← Nat.add_assoc, Nat.add_right_comm]
    rcases h.stop with all | ⟨lt, free⟩
    · exact .inl (by omega)
    · exact .inr ⟨by omega, free⟩
  inside := by rw [← Nat.add_assoc, Nat.add_right_comm]; exact h.inside

/-- The second root loop scans a unique number of slots. -/
theorem RootScan.unique {i left m n : Nat} (h : RootScan p i left m) (h' : RootScan p i left n) : m = n := by
  rcases Nat.lt_trichotomy m n with lt | eq | gt
  · rcases h.stop with rfl | ⟨_, free⟩
    · have := h'.stop
      omega
    · exact absurd free (h'.used m lt)
  · exact eq
  · rcases h'.stop with rfl | ⟨_, free⟩
    · have := h.stop
      omega
    · exact absurd free (h.used n gt)

theorem rootLoop_eq {sub : Nat → Printer → Except Stop Printer} : ∀ {left i m : Nat} {st : Printer},
    RootScan p i left m →
      rootLoop p sub left i st = (rootSlots i m).foldlM (enterRootSlot p sub) st := by
  intro left
  induction left with
  | zero =>
    intro i m st scan
    obtain rfl : m = 0 := by rcases scan.stop with all | ⟨lt, _⟩ <;> omega
    have inside : (rootSlot i).addr + 1 ≤ p.size := scan.inside
    rw [rootLoop, Image.read_of_le inside, checked_ok]
    rfl
  | succ left ih =>
    intro i m st scan
    have inside : (rootSlot i).addr + 1 ≤ p.size := by
      have := scan.inside
      simp only [rootSlot] at this ⊢
      omega
    rw [rootLoop, Image.read_of_le inside, checked_ok, ok_bind]
    cases m with
    | zero =>
      have free : p.byteAt (rootSlot i).addr = 0 := by
        rcases scan.stop with all | ⟨_, free⟩
        · omega
        · exact free
      rw [if_pos free]
      rfl
    | succ m =>
      have used : p.byteAt (rootSlot i).addr ≠ 0 := scan.used 0 (by omega)
      rw [if_neg used, rootSlots_succ, List.foldlM_cons]
      exact bind_congr fun st => ih scan.tail

theorem rootLoop_ok {sub : Nat → Printer → Except Stop Printer} : ∀ {left i : Nat} {st r : Printer},
    rootLoop p sub left i st = .ok r →
      ∃ m, RootScan p i left m ∧ (rootSlots i m).foldlM (enterRootSlot p sub) st = .ok r := by
  intro left
  induction left with
  | zero =>
    intro i st r h
    rw [rootLoop, bind_eq_ok] at h
    obtain ⟨b, read, h⟩ := h
    obtain ⟨inside, rfl⟩ := Image.read_eq_ok.1 (checked_eq_ok.1 read)
    exact ⟨0, ⟨by simp, .inl rfl, inside⟩, h⟩
  | succ left ih =>
    intro i st r h
    rw [rootLoop, bind_eq_ok] at h
    obtain ⟨b, read, h⟩ := h
    obtain ⟨inside, rfl⟩ := Image.read_eq_ok.1 (checked_eq_ok.1 read)
    by_cases free : p.byteAt (rootSlot i).addr = 0
    · rw [if_pos free] at h
      exact ⟨0, ⟨by simp, .inr ⟨by omega, free⟩, inside⟩, h⟩
    · rw [if_neg free, bind_eq_ok] at h
      obtain ⟨st', first, h⟩ := h
      obtain ⟨m, scan, run⟩ := ih h
      refine ⟨m + 1, scan.cons free, ?_⟩
      rw [rootSlots_succ, List.foldlM_cons, first]
      exact run

theorem printRoot_eq : ∀ {left a : Nat} {st : Printer}, (∀ b ∈ rootSectors p left a, Listable p b) →
    ((rootSectors p left a).length < left → a + SECTOR_SIZE * (rootSectors p left a).length + 1 ≤ p.size) →
    printRoot p left a st =
      .ok (st.print ((rootSectors p left a).flatMap fun a => sectorLines p a ++ [.newline])) := by
  intro left
  induction left with
  | zero => exact fun {a st} _ _ => congrArg Except.ok (print_nil st).symm
  | succ left ih =>
    intro a st listable inside
    by_cases free : p.byteAt a = 0x00
    · rw [rootSectors, if_pos free] at inside ⊢
      have here : a + 1 ≤ p.size := by simpa using inside
      rw [printRoot, Image.read_of_le here, checked_ok, ok_bind, if_pos free]
      exact congrArg Except.ok (print_nil st).symm
    · rw [rootSectors, if_neg free] at listable inside ⊢
      have here : Listable p a := listable a (by simp)
      have sector := here.sector
      rw [printRoot, Image.read_of_le (by omega), checked_ok, ok_bind, if_neg free, listSector_eq here,
        ok_bind, ih (fun b mem => listable b (List.mem_cons_of_mem _ mem)) ?_, print_print, List.flatMap_cons]
      intro lt
      have := inside (by rw [List.length_cons]; omega)
      simp only [List.length_cons, Nat.mul_succ] at this
      omega

theorem printRoot_ok : ∀ {left a : Nat} {st r : Printer}, printRoot p left a st = .ok r →
    r = st.print ((rootSectors p left a).flatMap fun a => sectorLines p a ++ [.newline]) := by
  intro left
  induction left with
  | zero =>
    intro a st r h
    cases h
    exact (print_nil st).symm
  | succ left ih =>
    intro a st r h
    rw [printRoot, bind_eq_ok] at h
    obtain ⟨b, read, h⟩ := h
    obtain ⟨_, rfl⟩ := Image.read_eq_ok.1 (checked_eq_ok.1 read)
    rw [rootSectors]
    by_cases free : p.byteAt a = 0x00
    · rw [if_pos free] at h ⊢
      cases h
      exact (print_nil st).symm
    · rw [if_neg free, bind_eq_ok] at h
      obtain ⟨st', first, h⟩ := h
      rw [ih h, listSector_ok first, if_neg free, print_print, List.flatMap_cons]

/-- The printer after the root section. -/
def rootPrinter (p : Image) : Printer := ⟨[.root] ++ rootLines p, []⟩

/-- **The output for a finite walk** of the scanned root slots. -/
theorem printEntireImage_settles {m : Nat} {f : Forest Dir} (scan : RootScan p 0 (maxRootEntries p) m)
    (walk : Walk p (rootSlots 0 m) f) (readable : ∀ s ∈ scanned (rootSlots 0 m) f, Readable p s)
    (listable : ∀ d ∈ f.nodes, ∀ c ∈ d.chain, Listable p (clusterAddr c))
    (root : ∀ b ∈ rootSectors p 19 (SECTOR_SIZE * 19), Listable p b)
    (inside : (rootSectors p 19 (SECTOR_SIZE * 19)).length < 19 →
      SECTOR_SIZE * 19 + SECTOR_SIZE * (rootSectors p 19 (SECTOR_SIZE * 19)).length + 1 ≤ p.size) :
    Settles (printEntireImage p) (.ok ((rootPrinter p).visitTrees p (resetPath p) f).out) := by
  obtain ⟨bound, run⟩ := descend_settles walk (resetPath p) readable listable
  refine ⟨bound, fun fuel le => ?_⟩
  rw [printEntireImage, printRoot_eq root inside, ok_bind, rootLoop_eq scan, enterRootSlot,
    run fuel le, ok_bind]
  rfl

/-- A run of `print_entire_image` that returns has visited a finite walk of the root. -/
theorem printEntireImage_ok {fuel : Nat} {out : List Item} (h : printEntireImage p fuel = .ok out) :
    ∃ m f, RootScan p 0 (maxRootEntries p) m ∧ Walk p (rootSlots 0 m) f ∧
      (∀ s ∈ scanned (rootSlots 0 m) f, Readable p s) ∧ out = ((rootPrinter p).visitTrees p (resetPath p) f).out := by
  obtain ⟨st, first, h⟩ := bind_eq_ok.1 h
  obtain ⟨st', second, h⟩ := bind_eq_ok.1 h
  obtain ⟨m, scan, run⟩ := rootLoop_ok second
  obtain ⟨f, walk, readable, rfl⟩ := descend_ok_of (fun _ _ _ => parseSub_ok) run
  refine ⟨m, f, scan, walk, readable, ?_⟩
  rw [← Except.ok.inj h, printRoot_ok first]
  rfl

end CSC360.Disk.DiskList
