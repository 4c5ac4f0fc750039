import CSC360.Base.PrefixCode
import CSC360.Base.Printf
import CSC360.Disk.BoundedPaths
import CSC360.Disk.PathHeader
import CSC360.Disk.Names

/-!
# disklist's output as text

The bytes `disklist.c` writes for its items: entry lines in columns, headers and the root
line with a rule below them, and an empty line after each sector. **The text determines the
items** if no name or path that is shown contains a newline (`text_determines_items`): which
line is which, the sizes (negative ones and those wider than their column too), the names and
the time stamps can all be read off it.
-/

namespace CSC360.Disk.DiskList
open CSC360.Base

/-- Characters as bytes. -/
def ascii (cs : List Char) : List UInt8 := cs.map fun c => c.toNat.toUInt8

/-- `printf("%10d", n)` -/
def printf10d (n : Int) : List UInt8 := List.replicate (10 - (printInt n).length) 0x20 ++ ascii (printInt n)

/-- `printf("%02d", n)` -/
def printf02d (n : Nat) : List UInt8 := ascii ((Nat.toDigits 10 n).leftpad 2 '0')

/-- `" %d-%02d-%02d "` and `"%02d:%02d"` of `print_datetime` -/
def Stamp.text (stamp : Stamp) : List UInt8 :=
  0x20 :: (ascii (Nat.toDigits 10 stamp.year) ++ 0x2D :: (printf02d stamp.month ++ 0x2D :: (printf02d stamp.day ++
    0x20 :: (printf02d stamp.hours ++ 0x3A :: printf02d stamp.minutes))))

/-- `"=================="` -/
def rule : List UInt8 := List.replicate 18 0x3D

/-- The line of an item, the first one if there are two. -/
def Item.line : Item → List UInt8
  | .root => [0x52, 0x6F, 0x6F, 0x74]
  | .header dirPath => 0x2F :: dirPath
  | .file size fullname stamp => 0x46 :: 0x20 :: (printf10d size ++ printf20s fullname ++ stamp.text)
  | .dir subdirName stamp => 0x44 :: 0x20 :: (printf10d 0 ++ printf20s subdirName ++ stamp.text)
  | .newline => []

/-- What is printed below that line. -/
def Item.below : Item → List UInt8
  | .root | .header _ => rule ++ [0x0A]
  | .file .. | .dir .. | .newline => []

def Item.text (item : Item) : List UInt8 := item.line ++ 0x0A :: item.below

/-- The text of the output. -/
def text (out : List Item) : List UInt8 := out.flatMap Item.text

/-- The name or the path an item shows. -/
def Item.shown : Item → List UInt8
  | .header name | .file _ name _ | .dir name _ => name
  | .root | .newline => []

/-! ## Numbers -/

theorem ascii_injective {cs ds : List Char} (small : ∀ c ∈ cs, c.toNat < 256) (small' : ∀ c ∈ ds, c.toNat < 256)
    (same : ascii cs = ascii ds) : cs = ds := by
  induction cs generalizing ds with
  | nil => exact (List.map_eq_nil_iff.1 same.symm).symm
  | cons c cs ih =>
    cases ds with
    | nil => cases same
    | cons d ds =>
      obtain ⟨head, tail⟩ := List.cons.inj same
      have hc := small c List.mem_cons_self
      have hd := small' d List.mem_cons_self
      have sameNat : c.toNat % 256 = d.toNat % 256 := congrArg UInt8.toNat head
      rw [Nat.mod_eq_of_lt hc, Nat.mod_eq_of_lt hd] at sameNat
      have behind := ih (fun e mem => small e (List.mem_cons_of_mem c mem))
        (fun e mem => small' e (List.mem_cons_of_mem d mem)) tail
      rw [behind, Char.ext (UInt32.toNat_inj.1 sameNat)]

theorem ascii_digits_injective {cs ds : List Char} (digit : ∀ c ∈ cs, c.isDigit = true)
    (digit' : ∀ c ∈ ds, c.isDigit = true) (same : ascii cs = ascii ds) : cs = ds := by
  have small : ∀ c : Char, c.isDigit = true → c.toNat < 256 := fun c digit => by
    have bounds := isDigit_toNat digit
    omega
  exact ascii_injective (fun c mem => small c (digit c mem)) (fun c mem => small c (digit' c mem)) same

theorem ascii_printInt_injective {m n : Int} (same : ascii (printInt m) = ascii (printInt n)) : m = n := by
  have small : ∀ {k : Int}, ∀ c ∈ printInt k, c.toNat < 256 := by
    intro k c mem
    rcases mem_printInt mem with rfl | digit
    · decide
    · have bounds := isDigit_toNat digit
      omega
  exact printInt_injective (ascii_injective small small same)

theorem printf02d_injective {m n : Nat} (same : printf02d m = printf02d n) : m = n := by
  have sameDigits := ascii_digits_injective (digits_leftpad m 2) (digits_leftpad n 2) same
  rw [← ofDigitChars_leftpad m 2, sameDigits, ofDigitChars_leftpad]

theorem length_printf02d {n : Nat} (small : n < 100) : (printf02d n).length = 2 := by
  have short := (Nat.length_toDigits_le_iff (b := 10) (n := n) (k := 2) (by decide) (by decide)).2 small
  rw [printf02d, ascii, List.length_map, List.length_leftpad]
  omega

/-- Nothing but printable characters. -/
def Visible (bs : List UInt8) : Prop := ∀ b ∈ bs, 0x20 ≤ b

theorem visible_digits {cs : List Char} (digit : ∀ c ∈ cs, c.isDigit = true) : Visible (ascii cs) := by
  intro b mem
  obtain ⟨c, inNumber, rfl⟩ := List.mem_map.1 mem
  have bounds := isDigit_toNat (digit c inNumber)
  show 32 ≤ c.toNat % 256
  omega

/-- The characters of a number, as bytes, are `-` and digits. -/
theorem mem_ascii_printInt {n : Int} {b : UInt8} (mem : b ∈ ascii (printInt n)) : 0x2D ≤ b := by
  obtain ⟨c, inNumber, rfl⟩ := List.mem_map.1 mem
  rcases mem_printInt inNumber with rfl | digit
  · decide
  · have bounds := isDigit_toNat digit
    show 45 ≤ c.toNat % 256
    omega

theorem visible_spaces (k : Nat) : Visible (List.replicate k 0x20) := fun b mem => by
  rw [List.eq_of_mem_replicate mem]
  decide

theorem visible_printf10d (n : Int) : Visible (printf10d n) :=
  List.forall_mem_append.2 ⟨visible_spaces _, fun _ mem =>
    UInt8.le_trans (show (0x20 : UInt8) ≤ 0x2D by decide) (mem_ascii_printInt mem)⟩

/-! ## Time stamps -/

/-- The numbers of a time stamp have at most the digits their fields provide for. -/
structure Stamp.Fits (stamp : Stamp) : Prop where
  year : 1000 ≤ stamp.year ∧ stamp.year < 10000
  month : stamp.month < 100
  day : stamp.day < 100
  hours : stamp.hours < 100
  minutes : stamp.minutes < 100

/-- The bit fields of an entry hold no larger numbers. -/
theorem printDatetime_fits (p : Image) (s : Slot) : (printDatetime p s).Fits := by
  have field : ∀ word mask shift : Nat, (word &&& mask) >>> shift ≤ mask >>> shift := by
    intro word mask shift
    rw [Nat.shiftRight_eq_div_pow, Nat.shiftRight_eq_div_pow]
    exact Nat.div_le_div_right Nat.and_le_right
  constructor
  · have years := field (p.word (s.addr + 16)) 0xFE00 9
    show 1000 ≤ _ + 1980 ∧ _ + 1980 < 10000
    omega
  · exact lt_of_le_of_lt (field _ 0x1E0 5) (by decide)
  · exact lt_of_le_of_lt Nat.and_le_right (by decide)
  · exact lt_of_le_of_lt (field _ 0xF800 11) (by decide)
  · exact lt_of_le_of_lt (field _ 0x7E0 5) (by decide)

section Stamps

variable {stamp stamp' : Stamp}

theorem Stamp.Fits.length_year (fits : stamp.Fits) : (ascii (Nat.toDigits 10 stamp.year)).length = 4 := by
  have short := (Nat.length_toDigits_le_iff (b := 10) (n := stamp.year) (k := 4) (by decide) (by decide)).2 fits.year.2
  have long := (Nat.length_toDigits_le_iff (b := 10) (n := stamp.year) (k := 3) (by decide) (by decide)).not.2
    (Nat.not_lt.2 fits.year.1)
  rw [ascii, List.length_map]
  omega

theorem Stamp.Fits.length_text (fits : stamp.Fits) : stamp.text.length = 17 := by
  simp only [Stamp.text, List.length_cons, List.length_append, fits.length_year, length_printf02d fits.month,
    length_printf02d fits.day, length_printf02d fits.hours, length_printf02d fits.minutes]

theorem Stamp.Fits.text_injective (fits : stamp.Fits) (fits' : stamp'.Fits) (same : stamp.text = stamp'.text) :
    stamp = stamp' := by
  rw [Stamp.text, Stamp.text] at same
  obtain ⟨year, same⟩ := List.append_inj (List.cons.inj same).2 (by rw [fits.length_year, fits'.length_year])
  obtain ⟨month, same⟩ := List.append_inj (List.cons.inj same).2
    (by rw [length_printf02d fits.month, length_printf02d fits'.month])
  obtain ⟨day, same⟩ := List.append_inj (List.cons.inj same).2
    (by rw [length_printf02d fits.day, length_printf02d fits'.day])
  obtain ⟨hours, same⟩ := List.append_inj (List.cons.inj same).2
    (by rw [length_printf02d fits.hours, length_printf02d fits'.hours])
  have years := toDigits_injective (ascii_digits_injective (digits_toDigits _).2 (digits_toDigits _).2 year)
  have minutes := printf02d_injective (List.cons.inj same).2
  obtain ⟨y, m, d, h, n⟩ := stamp
  rw [Stamp.mk.injEq]
  exact ⟨years, printf02d_injective month, printf02d_injective day, printf02d_injective hours, minutes⟩

theorem Stamp.visible_text (stamp : Stamp) : Visible stamp.text := by
  simp only [Visible, Stamp.text, List.forall_mem_cons, List.forall_mem_append]
  have two : ∀ n, Visible (printf02d n) := fun n => visible_digits (digits_leftpad n 2)
  exact ⟨by decide, visible_digits (digits_toDigits _).2, by decide, two _, by decide, two _, by decide, two _,
    by decide, two _⟩

end Stamps

/-! ## Lines -/

/-- A name as the entry lines have it: short, without spaces. -/
structure InColumn (name : List UInt8) : Prop where
  noSpace : 0x20 ∉ name
  short : name.length < 20

theorem nameField_length (p : Image) (s : Slot) (lo n : Nat) : (nameField p s lo n).length ≤ n := by
  have cut := (List.takeWhile_sublist (p := (· ≠ (0x20 : UInt8)))
    (l := (List.range n).map fun i => p.byteAt (s.addr + lo + i))).length_le
  rwa [List.length_map, List.length_range] at cut

theorem nameField_noSpace (p : Image) (s : Slot) (lo n : Nat) : 0x20 ∉ nameField p s lo n := by
  intro mem
  have notSpace := List.mem_takeWhile_imp mem
  simp at notSpace

theorem cstr_sublist (bs : List UInt8) : (cstr bs).Sublist bs := List.takeWhile_sublist _

theorem inColumn_printSubdirName (p : Image) (s : Slot) : InColumn (printSubdirName p s) where
  noSpace mem := nameField_noSpace p s 0 11 ((cstr_sublist _).mem mem)
  short := by
    have cut := (cstr_sublist (nameField p s 0 11)).length_le
    have field := nameField_length p s 0 11
    rw [printSubdirName]
    omega

theorem inColumn_printFilename (p : Image) (s : Slot) : InColumn (printFilename p s) := by
  have base : 0x20 ∉ cstr (nameField p s 0 8) := fun mem => nameField_noSpace p s 0 8 ((cstr_sublist _).mem mem)
  have ext : 0x20 ∉ cstr (nameField p s 8 3) := fun mem => nameField_noSpace p s 8 3 ((cstr_sublist _).mem mem)
  have baseLength := (cstr_sublist (nameField p s 0 8)).length_le.trans (nameField_length p s 0 8)
  have extLength := (cstr_sublist (nameField p s 8 3)).length_le.trans (nameField_length p s 8 3)
  rw [printFilename]
  split
  · refine ⟨fun mem => ?_, ?_⟩
    · rcases List.mem_append.1 mem with front | inExt
      · rcases List.mem_append.1 front with inBase | dot
        · exact base inBase
        · cases List.mem_singleton.1 dot
      · exact ext inExt
    · simp only [List.length_append, List.length_singleton]
      omega
  · exact ⟨base, by omega⟩

/-- What stands behind the letter of an entry line, and that its parts can be told apart. -/
theorem columns_injective {size size' : Int} {name name' : List UInt8} {stamp stamp' : Stamp}
    (inColumn : InColumn name) (inColumn' : InColumn name') (fits : stamp.Fits) (fits' : stamp'.Fits)
    (same : printf10d size ++ printf20s name ++ stamp.text = printf10d size' ++ printf20s name' ++ stamp'.text) :
    size = size' ∧ name = name' ∧ stamp = stamp' := by
  obtain ⟨front, stamps⟩ := List.append_inj' same (by rw [fits.length_text, fits'.length_text])
  have gap : ∀ {n : List UInt8}, InColumn n → ∃ rest, printf20s n = 0x20 :: rest := by
    intro n col
    have short := col.short
    refine ⟨List.replicate (19 - n.length) 0x20 ++ n, ?_⟩
    rw [printf20s, show 20 - n.length = 19 - n.length + 1 by omega, List.replicate_succ, List.cons_append]
  have sizes : size = size' := by
    obtain ⟨rest, here⟩ := gap inColumn
    obtain ⟨rest', here'⟩ := gap inColumn'
    rw [here, here', printf10d, printf10d, List.append_assoc, List.append_assoc] at front
    have noSpace : ∀ n, 0x20 ∉ ascii (printInt n) := fun n mem => absurd (mem_ascii_printInt mem) (by decide)
    have nonempty : ∀ n, ascii (printInt n) ≠ [] := fun n nil => printInt_ne_nil n (List.map_eq_nil_iff.1 nil)
    exact ascii_printInt_injective
      (column_unique (noSpace size) (noSpace size') (nonempty size) (nonempty size') front)
  subst sizes
  have names := (printf20s_injective inColumn.noSpace inColumn'.noSpace).1 (List.append_cancel_left front)
  exact ⟨rfl, names, fits.text_injective fits' stamps⟩

/-- An item as `disklist.c` prints it, with nothing in its name that ends the line. -/
def Item.Printable : Item → Prop
  | .root | .newline => True
  | .header dirPath => 0x0A ∉ dirPath
  | .file _ name stamp | .dir name stamp => 0x0A ∉ name ∧ InColumn name ∧ stamp.Fits

theorem Item.Printable.line_free {item : Item} (printable : item.Printable) : 0x0A ∉ item.line := by
  have visible : ∀ {bs : List UInt8}, Visible bs → 0x0A ∉ bs := fun vis mem => absurd (vis _ mem) (by decide)
  have columns : ∀ (size : Int) {name : List UInt8} (stamp : Stamp), 0x0A ∉ name →
      0x0A ∉ printf10d size ++ printf20s name ++ stamp.text := by
    intro size name stamp free mem
    simp only [List.mem_append, printf20s] at mem
    rcases mem with (inSize | inPadding | inName) | inStamp
    · exact visible (visible_printf10d size) inSize
    · exact visible (visible_spaces _) inPadding
    · exact free inName
    · exact visible stamp.visible_text inStamp
  cases item with
  | root => decide
  | newline => decide
  | header dirPath => exact fun mem => (List.mem_cons.1 mem).elim (by decide) printable
  | file size name stamp | dir name stamp =>
    intro mem
    rcases List.mem_cons.1 mem with letter | mem
    · cases letter
    · rcases List.mem_cons.1 mem with space | mem
      · cases space
      · exact columns _ stamp printable.1 mem

theorem Item.Printable.line_injective {a b : Item} (printable : a.Printable) (printable' : b.Printable)
    (same : a.line = b.line) : a = b := by
  cases a <;> cases b <;> try cases same
  case root.root => rfl
  case newline.newline => rfl
  case header.header dirPath => rfl
  case file.file size name stamp size' name' stamp' =>
    obtain ⟨rfl, rfl, rfl⟩ := columns_injective printable.2.1 printable'.2.1 printable.2.2 printable'.2.2
      (List.cons.inj (List.cons.inj same).2).2
    rfl
  case dir.dir name stamp name' stamp' =>
    obtain ⟨-, rfl, rfl⟩ := columns_injective printable.2.1 printable'.2.1 printable.2.2 printable'.2.2
      (List.cons.inj (List.cons.inj same).2).2
    rfl

theorem text_prefixFree : PrefixFree Item.Printable Item.text :=
  prefixFree_of_line (fun _ => rfl) (fun _ => Item.Printable.line_free) fun _ _ => Item.Printable.line_injective

/-! ## Outputs -/

/-- Only a newline in its name keeps an item from being printable. -/
def Item.Regular (item : Item) : Prop := 0x0A ∉ item.shown → item.Printable

section Outputs

variable {p : Image}

theorem regular_entryLine (s : Slot) : ∀ item ∈ entryLine p s, item.Regular := by
  intro item mem free
  rw [entryLine] at mem
  split at mem
  · cases mem
  · rw [List.mem_singleton.1 mem] at free ⊢
    exact ⟨free, inColumn_printFilename p s, printDatetime_fits p s⟩
  · rw [List.mem_singleton.1 mem] at free ⊢
    exact ⟨free, inColumn_printSubdirName p s, printDatetime_fits p s⟩

theorem regular_sector (a : Nat) : ∀ item ∈ sectorLines p a ++ [.newline], item.Regular := by
  intro item mem
  rcases List.mem_append.1 mem with entry | blank
  · obtain ⟨s, -, line⟩ := List.mem_flatMap.1 entry
    exact regular_entryLine s item line
  · rw [List.mem_singleton.1 blank]
    exact fun _ => trivial

theorem regular_sectors (sectors : List Nat) :
    ∀ item ∈ sectors.flatMap fun a => sectorLines p a ++ [.newline], item.Regular := by
  intro item mem
  obtain ⟨a, -, inSector⟩ := List.mem_flatMap.1 mem
  exact regular_sector a item inSector

theorem regular_chainLines (cs : List Nat) : ∀ item ∈ chainLines p cs, item.Regular := by
  intro item mem
  obtain ⟨c, -, inSector⟩ := List.mem_flatMap.1 mem
  exact regular_sector (clusterAddr c) item inSector

theorem regular_visit (path : Printer → Slot → List UInt8) {st : Printer} (d : Dir)
    (regular : ∀ item ∈ st.out, item.Regular) : ∀ item ∈ (st.visit p path d).out, item.Regular := by
  intro item mem
  rcases List.mem_append.1 mem with front | lines
  · rcases List.mem_append.1 front with before | header
    · exact regular item before
    · rw [List.mem_singleton.1 header]
      exact fun free => free
  · exact regular_chainLines d.chain item lines

theorem regular_visits (ds : List Dir) : ∀ {st : Printer}, (∀ item ∈ st.out, item.Regular) →
    ∀ item ∈ (ds.foldl (Printer.visit p (appendPath p)) st).out, item.Regular := by
  induction ds with
  | nil => exact fun regular => regular
  | cons d ds ih => exact fun regular => ih (regular_visit (appendPath p) d regular)

theorem regular_visitTrees (path : Printer → Slot → List UInt8) (f : Forest Dir) : ∀ {st : Printer},
    (∀ item ∈ st.out, item.Regular) → ∀ item ∈ (st.visitTrees p path f).out, item.Regular := by
  induction f with
  | nil => exact fun regular => regular
  | cons d kids rest _ ih => exact fun regular => ih (regular_visits kids.nodes (regular_visit path d regular))

theorem regular_output {fuel : Nat} {out : List Item} (listed : printEntireImage p fuel = .ok out) :
    ∀ item ∈ out, item.Regular := by
  obtain ⟨m, f, -, -, -, rfl⟩ := printEntireImage_ok listed
  apply regular_visitTrees
  intro item mem
  rcases List.mem_cons.1 mem with rfl | line
  · exact fun _ => trivial
  · exact regular_sectors _ item line

/-- No name and no path that is shown contains a newline. -/
def OneLineNames (out : List Item) : Prop := ∀ item ∈ out, 0x0A ∉ item.shown

instance (out : List Item) : Decidable (OneLineNames out) := inferInstanceAs (Decidable (∀ item ∈ out, _))

/-- **The text determines the items**: two runs of disklist that store nothing past their path buffers
write the same bytes if and only if they print the same lines. -/
theorem text_determines_items {q : Image} {b b' : PathBuffers} {fuel fuel' : Nat} {out out' : List Item}
    (listed : printEntireImageIn b p fuel = .ok out) (listed' : printEntireImageIn b' q fuel' = .ok out')
    (names : OneLineNames out) (names' : OneLineNames out') : text out = text out' ↔ out = out' := by
  have printable : ∀ item ∈ out, item.Printable := fun item mem =>
    regular_output (printEntireImageIn_ok listed) item mem (names item mem)
  have printable' : ∀ item ∈ out', item.Printable := fun item mem =>
    regular_output (printEntireImageIn_ok listed') item mem (names' item mem)
  have nonempty : ∀ item : Item, item.text ≠ [] := fun _ => List.append_ne_nil_of_right_ne_nil _ (List.cons_ne_nil _ _)
  exact text_prefixFree.flatMap_inj nonempty printable printable'

/-- The two sample volumes are listed by different bytes. -/
theorem text_determines_items_samples : ∃ out out', printEntireImageIn ⟨24, 24⟩ sampleVolume 4 = .ok out ∧
    printEntireImageIn ⟨24, 24⟩ siblings 4 = .ok out' ∧ (text out = text out' ↔ out = out') := by
  have runs : ((printEntireImageIn ⟨24, 24⟩ sampleVolume 4).toOption.any fun out => decide (OneLineNames out)) = true := by
    decide +kernel
  have runs' : ((printEntireImageIn ⟨24, 24⟩ siblings 4).toOption.any fun out => decide (OneLineNames out)) = true := by
    decide +kernel
  cases listed : printEntireImageIn ⟨24, 24⟩ sampleVolume 4 with
  | error crash => rw [listed] at runs; cases runs
  | ok out =>
    cases listed' : printEntireImageIn ⟨24, 24⟩ siblings 4 with
    | error crash => rw [listed'] at runs'; cases runs'
    | ok out' =>
      rw [listed] at runs
      rw [listed'] at runs'
      exact ⟨out, out', rfl, rfl, text_determines_items listed listed' (of_decide_eq_true runs) (of_decide_eq_true runs')⟩

/-- A size wider than its column. -/
example : text [.file (-2147483648) [0x41] ⟨2015, 11, 9, 7, 5⟩] =
    ascii "F -2147483648                   A 2015-11-09 07:05\n".toList := by decide

end Outputs

end CSC360.Disk.DiskList
