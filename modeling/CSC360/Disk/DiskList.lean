import CSC360.Disk.Image
import Mathlib.Data.List.TakeWhile

/-!
# `disklist.c`

The functions of `disklist.c`, one definition each. The output is the list of
what is printed (`Item`), one item for each header, each entry line and each
blank line after a sector; a run that faults has printed what it carries
(`Stop`). The path buffer `dir_path` is part of the printer's state, since
`parse_sub` appends to the one buffer all levels share. A C string ends at its
first NUL (`cstr`).

String buffers are taken as large enough here, though each is allocated with
one byte. Those of the names need up to 13 bytes; those of the paths, which
need room for a whole tree, have given sizes in `BoundedPaths`.
-/

namespace CSC360.Disk.DiskList

/-- The C string in a buffer that holds `bs` and a terminator. -/
def cstr (bs : List UInt8) : List UInt8 := bs.takeWhile (· ≠ 0)

theorem cstr_eq_self {bs : List UInt8} (noNul : 0 ∉ bs) : cstr bs = bs := by
  rw [cstr, List.takeWhile_eq_self_iff]
  intro b mem
  simpa using fun isNul : b = 0 => noNul (isNul ▸ mem)

/-- The date and time of a slot, as printed. -/
structure Stamp where
  year : Nat
  month : Nat
  day : Nat
  hours : Nat
  minutes : Nat
  deriving DecidableEq, Repr

/-- One piece of output. -/
inductive Item where
  /-- `"Root"` and its rule. -/
  | root
  /-- `"/%s"` of the path buffer and the rule below it. -/
  | header (dirPath : List UInt8)
  /-- An `F` line: size, name, time stamp. -/
  | file (size : Int) (fullname : List UInt8) (stamp : Stamp)
  /-- A `D` line: name, time stamp (the size column is 0). -/
  | dir (subdirName : List UInt8) (stamp : Stamp)
  /-- The blank line after a sector. -/
  | newline
  deriving DecidableEq, Repr

/-- The bytes of a name field from offset `lo` on, up to its first space or `n` of them. -/
def nameField (p : Image) (s : Slot) (lo n : Nat) : List UInt8 :=
  ((List.range n).map fun i => p.byteAt (s.addr + lo + i)).takeWhile (· ≠ 0x20)

/-- `print_filename`: the string it prints. Its three buffers have one byte each and store at most 9, 4 and 13. -/
def printFilename (p : Image) (s : Slot) : List UInt8 :=
  let filename := cstr (nameField p s 0 8)
  let extension := cstr (nameField p s 8 3)
  if extension.length > 0 then filename ++ [0x2E] ++ extension else filename

/-- `print_subdir_name`: the string it prints. A name field without a space puts its NUL one past the end of
`subdir_name`, whose 11 bytes are taken as 12. -/
def printSubdirName (p : Image) (s : Slot) : List UInt8 :=
  cstr (nameField p s 0 11)

/-- The path component of a directory: the name field up to the first space, then `'/'`. -/
def component (p : Image) (s : Slot) : List UInt8 :=
  nameField p s 0 11 ++ [0x2F]

/-- `print_datetime`. -/
def printDatetime (p : Image) (s : Slot) : Stamp :=
  let time := p.word (s.addr + 14)
  let date := p.word (s.addr + 16)
  { year := (date &&& 0xFE00) >>> 9 + 1980
    month := (date &&& 0x1E0) >>> 5
    day := date &&& 0x1F
    hours := (time &&& 0xF800) >>> 11
    minutes := (time &&& 0x7E0) >>> 5 }

/-- `filesize`: the bytes 28 to 31 of a slot as an `int`. -/
def filesize (p : Image) (s : Slot) : Int :=
  let byte i : Nat := (p.byteAt (s.addr + i)).toNat
  Image.toInt32 (byte 28 + byte 29 <<< 8 + byte 30 <<< 16 + byte 31 <<< 24 : Nat)

/-- The line `print_directory` prints for a file slot. -/
def fileLine (p : Image) (s : Slot) : Item :=
  .file (filesize p s) (printFilename p s) (printDatetime p s)

/-- The line `print_directory` prints for a directory slot. -/
def dirLine (p : Image) (s : Slot) : Item :=
  .dir (printSubdirName p s) (printDatetime p s)

/-- What has been printed, and the C string in the `dir_path` buffer. -/
structure Printer where
  out : List Item
  dirPath : List UInt8
  deriving DecidableEq, Repr

/-- A run that does not return: why, and what has been printed. -/
structure Stop where
  fault : Fault
  out : List Item
  deriving DecidableEq, Repr

/-- The fault `fault` stops the printing. -/
def Printer.stop (st : Printer) (fault : Fault) : Stop := ⟨fault, st.out⟩

/-- A computation without output; its fault stops the printing. -/
def Printer.checked {α : Type} (st : Printer) (x : Except Fault α) : Except Stop α := x.mapError st.stop

/-- Print. -/
def Printer.print (st : Printer) (items : List Item) : Printer := { st with out := st.out ++ items }

/-- The body of `print_directory`'s loop. -/
def printEntry (p : Image) (s : Slot) (st : Printer) : Except Stop Printer := do
  match ← st.checked (p.classify s) with
  | .skip => pure st
  | .file => do
    st.checked (p.touch s.addr 32)
    pure (st.print [fileLine p s])
  | .dir => pure (st.print [dirLine p s])

/-- The loop of `print_directory` at offset `temp`, with `left` slots before
`temp - path` is 512. The loop test reads `temp[0]` before it compares, so the
byte after the sector is read when all its slots are in use. -/
def printSlots (p : Image) : Nat → Nat → Printer → Except Stop Printer
  | 0, temp, st => do
    let _ ← st.checked (p.read temp)
    pure st
  | left + 1, temp, st => do
    let b ← st.checked (p.read temp)
    if b = 0x00 then pure st else do
      let st ← printEntry p ⟨temp, true⟩ st
      printSlots p left (temp + 32) st

/-- `print_directory`. -/
def printDirectory (p : Image) (path : Nat) (st : Printer) : Except Stop Printer :=
  printSlots p 16 path st

/-- `print_directory` of a sector and the blank line after it. -/
def listSector (p : Image) (path : Nat) (st : Printer) : Except Stop Printer := do
  let st ← printDirectory p path st
  pure (st.print [.newline])

/-- The printing of a section header from the buffer. -/
def Printer.header (st : Printer) : Printer := st.print [.header st.dirPath]

/-- One slot of a descending scan: at a directory the buffer becomes `path`, the
header is printed from it and the directory parsed. -/
def descend (p : Image) (path : Printer → Slot → List UInt8)
    (parseSub : Nat → Printer → Except Stop Printer) (st : Printer) (s : Slot) : Except Stop Printer := do
  match ← st.checked (p.classify s) with
  | .dir =>
    let st := { st with dirPath := path st s }
    parseSub (p.flc s) st.header
  | _ => pure st

/-- The `strcat` of `parse_sub`: the component goes behind what the buffer holds. -/
def appendPath (p : Image) (st : Printer) (s : Slot) : List UInt8 := st.dirPath ++ cstr (component p s)

/-- The copy of `print_entire_image`: the component overwrites the buffer from its start. -/
def resetPath (p : Image) (_ : Printer) (s : Slot) : List UInt8 := cstr (component p s)

/-- One slot of the second loop of `parse_sub`. -/
def enterSlot (p : Image) := descend p (appendPath p)

/-- `parse_sub`: one pass over the chain prints its sectors, a second one enters
its subdirectories. The fuel bounds the recursion and every chain. -/
def parseSub (p : Image) : Nat → Nat → Printer → Except Stop Printer
  | 0, _, st => .error (st.stop .outOfFuel)
  | fuel + 1, flc, st => do
    let st ← clusterLoop p Printer.stop (fun c st => listSector p (clusterAddr c) st) (fuel + 1) flc st
    clusterLoop p Printer.stop (fun c st => (clusterSlots c).foldlM (enterSlot p (parseSub p fuel)) st)
      (fuel + 1) flc st

/-- `maxRootEntries`. -/
def maxRootEntries (p : Image) : Nat := p.word 17

/-- The first loop of `print_entire_image`, with `left` of its 19 sectors to come. -/
def printRoot (p : Image) : Nat → Nat → Printer → Except Stop Printer
  | 0, _, st => pure st
  | left + 1, printRootAt, st => do
    let b ← st.checked (p.read printRootAt)
    if b = 0x00 then pure st else do
      let st ← listSector p printRootAt st
      printRoot p left (printRootAt + SECTOR_SIZE) st

/-- One slot of the second loop of `print_entire_image`. -/
def enterRootSlot (p : Image) := descend p (resetPath p)

/-- The second loop of `print_entire_image` at root slot `i`, with `left` entries
before `countEntries` is `maxEntries`. -/
def rootLoop (p : Image) (parseSub : Nat → Printer → Except Stop Printer) :
    Nat → Nat → Printer → Except Stop Printer
  | 0, i, st => do
    let _ ← st.checked (p.read (rootSlot i).addr)
    pure st
  | left + 1, i, st => do
    let b ← st.checked (p.read (rootSlot i).addr)
    if b = 0x00 then pure st else do
      let st ← enterRootSlot p parseSub st (rootSlot i)
      rootLoop p parseSub left (i + 1) st

/-- `print_entire_image`. -/
def printEntireImage (p : Image) (fuel : Nat) : Except Stop (List Item) := do
  let st ← printRoot p 19 (SECTOR_SIZE * 19) ⟨[.root], []⟩
  let st ← rootLoop p (parseSub p fuel) (maxRootEntries p) 0 st
  pure st.out

end CSC360.Disk.DiskList
