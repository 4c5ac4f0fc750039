import CSC360.Base.Packed12
import Mathlib.Data.List.Basic
import Mathlib.Tactic.Common

/-!
# The mapped disk image and its FAT

What `diskinfo.c` and `disklist.c` share: the mapping `p` of the image file, the
12-bit FAT decoder both copy, the classification every directory scan applies to
a 32-byte slot, and the loop that follows a chain of FAT entries.

A read outside the mapping is a fault. The bytes of one field, slot or FAT entry
are checked together (`Image.touch`) at the highest address the code reads and
then taken from `byteAt`. Loops that the image's content decides take fuel.
-/

namespace CSC360.Disk
open CSC360.Base

/-- `#define SECTOR_SIZE 512`. -/
def SECTOR_SIZE : Nat := 512

/-- The mapping: the bytes that can be read from `p` on. These are the `sb.st_size` bytes of the
image file and the zeros up to the end of its last page. -/
structure Image where
  size : Nat
  byte : Fin size → UInt8

/-- Why a run does not return. -/
inductive Fault where
  /-- A read outside the mapping, at this offset from `p`. -/
  | outside (offset : Int)
  /-- The fuel does not suffice; never a result of the program itself. -/
  | outOfFuel
  deriving DecidableEq, Repr

namespace Image

/-- The byte at offset `a`, 0 outside the mapping. -/
def byteAt (p : Image) (a : Nat) : UInt8 :=
  if h : a < p.size then p.byte ⟨a, h⟩ else 0

theorem byteAt_behind {p : Image} {a : Nat} (behind : p.size ≤ a) : p.byteAt a = 0 :=
  dif_neg (Nat.not_lt.2 behind)

/-- The little-endian `p[a] + (p[a + 1] << 8)`. -/
def word (p : Image) (a : Nat) : Nat :=
  (p.byteAt a).toNat + (p.byteAt (a + 1)).toNat <<< 8

/-- The reads of `n` bytes from offset `a` on stay inside the mapping. -/
def touch (p : Image) (a n : Nat) : Except Fault Unit :=
  if a + n ≤ p.size then .ok () else .error (.outside a)

/-- The read `p[a]`. -/
def read (p : Image) (a : Nat) : Except Fault UInt8 := do
  p.touch a 1
  pure (p.byteAt a)

/-- The 12-bit entry `n` of the table whose entry bytes are at `o` and `o + 1`:
the even and the odd case of `get_FAT_entry`. -/
def decodeEntry (p : Image) (o n : Nat) : Nat :=
  if n % 2 = 0 then
    let low4bits := (p.byteAt (o + 1)).toNat &&& 0x0F
    let _8bits := (p.byteAt o).toNat &&& 0xFF
    low4bits <<< 8 + _8bits
  else
    let high4bits := (p.byteAt o).toNat &&& 0xF0
    let _8bits := (p.byteAt (o + 1)).toNat &&& 0xFF
    high4bits >>> 4 + _8bits <<< 4

/-- Two's complement wrap of a 32-bit `int`. -/
def toInt32 (x : Int) : Int := Int.bmod x 4294967296

/-- The `int` expression `(3 * n) / 2`; the product wraps for indices from 715827883 on. -/
def entryOffset (n : Nat) : Int := (toInt32 (3 * n)).tdiv 2

/-- `get_FAT_entry` (both programs) on the table at offset `base` from `p`. -/
def getFATEntry (p : Image) (base : Int) (n : Nat) : Except Fault Nat :=
  let o := base + entryOffset n
  if 0 ≤ o ∧ o + 2 ≤ p.size then .ok (p.decodeEntry o.toNat n) else .error (.outside o)

/-- `reserved_sectors` of both mains, as the offset of `fat_table_location`. -/
def fatTableLocation (p : Image) : Int :=
  toInt32 ((p.word 11 : Int) * (p.word 14 : Int))

end Image

/-- A directory slot as a scan sees it: its offset, and whether the scan has the
`temp[0] == '.'` test (the scans of subdirectories have it, the root scans do not). -/
structure Slot where
  addr : Nat
  dots : Bool
  deriving DecidableEq, Repr

/-- What a scan takes a slot for. -/
inductive Kind where
  | skip
  | file
  | dir
  deriving DecidableEq, Repr

namespace Image

/-- `temp[0]`. -/
def first (p : Image) (s : Slot) : UInt8 := p.byteAt s.addr

/-- `temp[11]`. -/
def attr (p : Image) (s : Slot) : UInt8 := p.byteAt (s.addr + 11)

/-- `temp[26] + (temp[27] << 8)`. -/
def flc (p : Image) (s : Slot) : Nat := p.word (s.addr + 26)

/-- The `continue` test of a directory scan, then its file test. -/
def kind (p : Image) (s : Slot) : Kind :=
  if p.flc s = 0x00 ∨ p.flc s = 0x01 ∨ p.attr s = 0x0F ∨ p.attr s &&& 0x08 ≠ 0 ∨
      (s.dots = true ∧ p.first s = 0x2E) ∨ p.first s = 0xE5 then .skip
  else if p.attr s &&& 0x10 = 0 then .file
  else .dir

/-- Classify a slot, reading `temp[0]`, `temp[11]`, `temp[26]` and `temp[27]`. -/
def classify (p : Image) (s : Slot) : Except Fault Kind := do
  p.touch s.addr 28
  pure (p.kind s)

end Image

/-- Slot `i` of the root directory, which starts at sector 19. -/
def rootSlot (i : Nat) : Slot := ⟨SECTOR_SIZE * 19 + 32 * i, false⟩

/-- The offset of cluster `c`. -/
def clusterAddr (c : Nat) : Nat := (31 + c) * SECTOR_SIZE

/-- A cluster below the end of the sectors lies in the image. -/
theorem cluster_inside {p : Image} {N c : Nat} (size : N * SECTOR_SIZE ≤ p.size) (inside : 31 + c < N) :
    clusterAddr c + 512 ≤ p.size := by
  have next : (31 + c + 1) * SECTOR_SIZE ≤ N * SECTOR_SIZE := Nat.mul_le_mul_right _ inside
  rw [Nat.succ_mul] at next
  exact Nat.le_trans next size

/-- The slots of `for (int i = 0; i < 512; i += 32)` at cluster `c`. -/
def clusterSlots (c : Nat) : List Slot :=
  (List.range 16).map fun i => ⟨clusterAddr c + 32 * i, true⟩

/-- `while (next_loc <= 0xff0) { body; next_loc = get_FAT_entry(..., next_loc); }`,
the loop of diskinfo's `parse_sub` and both loops of disklist's. A fault of its own
stops the run in state `st` with `stop st`. -/
def clusterLoop {ε σ : Type} (p : Image) (stop : σ → Fault → ε) (body : Nat → σ → Except ε σ) :
    Nat → Nat → σ → Except ε σ
  | 0, _, st => .error (stop st .outOfFuel)
  | fuel + 1, nextLoc, st =>
    if nextLoc ≤ 0xff0 then do
      let st ← body nextLoc st
      let nextLoc ← (p.getFATEntry p.fatTableLocation nextLoc).mapError (stop st)
      clusterLoop p stop body fuel nextLoc st
    else pure st

/-- The clusters the loop visits from `c` on: every FAT entry up to `0xff0` is followed. -/
inductive Follows (p : Image) : Nat → List Nat → Prop where
  | stop {c} : 0xff0 < c → Follows p c []
  | link {c next cs} : c ≤ 0xff0 → p.getFATEntry p.fatTableLocation c = .ok next →
      Follows p next cs → Follows p c (c :: cs)

/-! ## `int` arithmetic -/

/-- An `int` is the number `n` exactly if `n` is small enough and what it stands for is `n` up to multiples of 2^32. -/
theorem Image.toInt32_eq_natCast {m n : Nat} :
    Image.toInt32 m = n ↔ m % 4294967296 = n % 4294967296 ∧ n < 2147483648 := by
  have wraps : Image.toInt32 m = if (m : Int) % 4294967296 < 2147483648 then (m : Int) % 4294967296
      else (m : Int) % 4294967296 - 4294967296 := by
    unfold Image.toInt32
    rw [Int.bmod_def]
    rfl
  rw [wraps]
  split
  · omega
  · omega

theorem Image.toInt32_eq_iff (x : Nat) : Image.toInt32 x = x ↔ x < 2147483648 :=
  toInt32_eq_natCast.trans (and_iff_right rfl)

/-- A sum may be wrapped at every addition or at its end. -/
theorem Image.toInt32_add (x y : Int) : Image.toInt32 (Image.toInt32 x + Image.toInt32 y) = Image.toInt32 (x + y) := by
  unfold Image.toInt32
  rw [Int.bmod_add_bmod, Int.add_bmod_bmod]

section Reads

variable {p : Image} {a n : Nat} {s : Slot}

@[simp] theorem Image.touch_eq_ok : p.touch a n = .ok () ↔ a + n ≤ p.size := by
  unfold Image.touch
  split <;> simp [*]

theorem Image.read_of_le (h : a + 1 ≤ p.size) : p.read a = .ok (p.byteAt a) := by
  simp [Image.read, Image.touch_eq_ok.2 h, bind, Except.bind, pure, Except.pure]

theorem Image.read_eq_ok {b : UInt8} : p.read a = .ok b ↔ a + 1 ≤ p.size ∧ b = p.byteAt a := by
  unfold Image.read Image.touch
  by_cases h : a + 1 ≤ p.size <;> simp [h, bind, Except.bind, pure, Except.pure, eq_comm]

theorem Image.word_lt : p.word a < 65536 := by
  have lo := (p.byteAt a).toNat_lt
  have hi := (p.byteAt (a + 1)).toNat_lt
  rw [Image.word, Nat.shiftLeft_eq]
  omega

theorem and_240_shiftRight (x : Nat) (h : x < 256) : (x &&& 0xF0) >>> 4 = x / 16 := by
  rw [Nat.shiftRight_and_distrib, Nat.shiftRight_eq_div_pow]
  exact (Nat.and_two_pow_sub_one_eq_mod (x / 16) 4).trans (by omega)

/-- The decoder reads the table packed from `base` on. -/
theorem Image.decodeEntry_eq (base : Nat) :
    p.decodeEntry (base + 3 * n / 2) n = Packed12.entry (fun a => p.byteAt (base + a)) n := by
  unfold Image.decodeEntry Packed12.entry
  simp only [← Nat.add_assoc]
  have lo := (p.byteAt (base + 3 * n / 2)).toNat_lt
  generalize (p.byteAt (base + 3 * n / 2)).toNat = b0 at lo ⊢
  have hi := (p.byteAt (base + 3 * n / 2 + 1)).toNat_lt
  generalize (p.byteAt (base + 3 * n / 2 + 1)).toNat = b1 at hi ⊢
  have low8 (x : Nat) : x &&& 0xFF = x % 256 := Nat.and_two_pow_sub_one_eq_mod x 8
  have low4 (x : Nat) : x &&& 0x0F = x % 16 := Nat.and_two_pow_sub_one_eq_mod x 4
  split
  · simp only [low8, low4, Nat.shiftLeft_eq]
    omega
  · simp only [and_240_shiftRight b0 lo, low8, Nat.shiftLeft_eq]
    omega

theorem Image.entryOffset_eq (small : 3 * n < 2147483648) : Image.entryOffset n = (3 * n / 2 : Nat) := by
  unfold Image.entryOffset Image.toInt32
  rw [Int.bmod_eq_of_le (by omega) (by omega)]
  exact Int.ofNat_tdiv (3 * n) 2

/-- `get_FAT_entry` with an index whose product does not wrap. -/
theorem Image.getFATEntry_eq {base : Int} (small : 3 * n < 2147483648) :
    p.getFATEntry base n =
      if 0 ≤ base + (3 * n / 2 : Nat) ∧ base + (3 * n / 2 : Nat) + 2 ≤ p.size then
        .ok (p.decodeEntry (base + (3 * n / 2 : Nat)).toNat n)
      else .error (.outside (base + (3 * n / 2 : Nat))) := by
  unfold Image.getFATEntry
  rw [Image.entryOffset_eq small]

end Reads

end CSC360.Disk
