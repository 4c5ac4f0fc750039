import CSC360.Disk.Image

/-!
# `diskinfo.c`

The functions of `diskinfo.c`, one definition each. The header bytes the program
reads lie before the root directory that every run scans, so only the reads from
the FAT on are checked against the end of the mapping.
-/

namespace CSC360.Disk.DiskInfo

/-- `print_OS_Name`: the bytes stored in `osName`. -/
def printOSName (p : Image) : List UInt8 :=
  (List.range 8).map fun i => p.byteAt (i + 3)

/-- The loop of `print_diskLabel` at root slot `i`; `none` is a `diskLabel` that
no entry has been stored in. The last label entry wins. -/
def labelLoop (p : Image) : Nat → Nat → Option (List UInt8) → Except Fault (Option (List UInt8))
  | 0, _, _ => .error .outOfFuel
  | fuel + 1, i, diskLabel => do
    let b ← p.read (rootSlot i).addr
    if b = 0x00 then pure diskLabel else do
      p.touch (rootSlot i).addr 12
      if p.attr (rootSlot i) ≠ 0x0F ∧ p.attr (rootSlot i) &&& 0x08 = 0x08 then
        labelLoop p fuel (i + 1) (some ((List.range 8).map fun j => p.byteAt ((rootSlot i).addr + j)))
      else labelLoop p fuel (i + 1) diskLabel

/-- `print_diskLabel`. -/
def printDiskLabel (p : Image) (fuel : Nat) : Except Fault (Option (List UInt8)) :=
  labelLoop p fuel 0 none

/-- `totalDiskSize`. -/
def totalDiskSize (p : Image) : Int :=
  Image.toInt32 ((p.word 11 : Int) * (p.word 19 : Int))

/-- `get_free_space_FAT_entry`: the decoder on the table at `SECTOR_SIZE`. -/
def getFreeSpaceFATEntry (p : Image) (n : Nat) : Except Fault Nat :=
  p.getFATEntry SECTOR_SIZE n

/-- `countEmptyFATentries`: the loop runs from 2 up to `SizeOfDisk / SECTOR_SIZE - 31`. -/
def countEmptyFATentries (p : Image) : Except Fault Int := do
  let stop := (totalDiskSize p).tdiv SECTOR_SIZE - 31
  let freeSizeOfDisk ← (List.range (stop - 2).toNat).foldlM (fun (free : Nat) k => do
    let entry ← getFreeSpaceFATEntry p (k + 2)
    pure (if entry = 0x00 then free + 1 else free)) 0
  pure (Image.toInt32 (freeSizeOfDisk * SECTOR_SIZE))

/-- One slot of a counting scan: `parse_sub`'s loop body, and with a root slot
the body of `print_num_of_files`. The count is an `int`, which wraps. -/
def countSlot (p : Image) (parseSub : Nat → Except Fault Int) (totalCount : Int) (s : Slot) :
    Except Fault Int := do
  match ← p.classify s with
  | .skip => pure totalCount
  | .file => pure (Image.toInt32 (totalCount + 1))
  | .dir => do
    let sub ← parseSub (p.flc s)
    pure (Image.toInt32 (totalCount + sub))

/-- `parse_sub`; the fuel bounds the depth of the recursion and every chain. -/
def parseSub (p : Image) : Nat → Nat → Except Fault Int
  | 0, _ => .error .outOfFuel
  | fuel + 1, flc =>
    clusterLoop p (fun _ fault => fault)
      (fun c totalCount => (clusterSlots c).foldlM (countSlot p (parseSub p fuel)) totalCount) (fuel + 1) flc 0

/-- The loop of `print_num_of_files` at root slot `i`. -/
def rootLoop (p : Image) (parseSub : Nat → Except Fault Int) : Nat → Nat → Int → Except Fault Int
  | 0, _, _ => .error .outOfFuel
  | fuel + 1, i, count => do
    let b ← p.read (rootSlot i).addr
    if b = 0x00 then pure count else do
      let count ← countSlot p parseSub count (rootSlot i)
      rootLoop p parseSub fuel (i + 1) count

/-- `print_num_of_files`. -/
def printNumOfFiles (p : Image) (fuel : Nat) : Except Fault Int :=
  rootLoop p (parseSub p fuel) fuel 0 0

/-- What `main` prints, the two names as the bytes stored in their buffers. -/
structure Report where
  osName : List UInt8
  diskLabel : Option (List UInt8)
  totalSize : Int
  freeSize : Int
  files : Int
  numFatCopies : Nat
  sectorsPerFAT : Nat
  deriving DecidableEq, Repr

/-- `main`. -/
def main (p : Image) (fuel : Nat) : Except Fault Report := do
  let diskLabel ← printDiskLabel p fuel
  let freeSize ← countEmptyFATentries p
  let files ← printNumOfFiles p fuel
  pure ⟨printOSName p, diskLabel, totalDiskSize p, freeSize, files, (p.byteAt 16).toNat, p.word 22⟩

end CSC360.Disk.DiskInfo
