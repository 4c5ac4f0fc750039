import CSC360.Disk.Volume
import CSC360.Disk.DiskList

/-!
# Printed names

`print_filename` separates base and extension by a dot, so two legal 8.3 names never
look the same. `print_subdir_name` and the path components run base and extension
together and stop at the first space: the extension is lost when the base is short.
Two names look different everywhere exactly when their bases differ or fill all
eight bytes (`names_differ_iff`).
-/

namespace CSC360.Disk.DiskList
open CSC360.Base

/-- The bytes of a slot from offset `lo` on, `n` of them. -/
def slotBytes (p : Image) (s : Slot) (lo n : Nat) : List UInt8 :=
  (List.range n).map fun i => p.byteAt (s.addr + lo + i)

/-- Bytes that may stand in a name. -/
def NameBytes (bs : List UInt8) : Prop := ∀ b ∈ bs, b ≠ 0x20 ∧ b ≠ 0x2E ∧ b ≠ 0

/-- The name field of the slot spells base `base` and extension `ext`, both padded with spaces. -/
structure Spells (p : Image) (s : Slot) (base ext : List UInt8) : Prop where
  baseField : slotBytes p s 0 8 = base ++ List.replicate (8 - base.length) 0x20
  extField : slotBytes p s 8 3 = ext ++ List.replicate (3 - ext.length) 0x20
  baseBytes : NameBytes base
  extBytes : NameBytes ext
  nonempty : base ≠ []

/-- The slot has a legal 8.3 name. -/
def LegalName (p : Image) (s : Slot) : Prop := ∃ base ext, Spells p s base ext

/-- `printf("%20s", name)`. -/
def printf20s (name : List UInt8) : List UInt8 := List.replicate (20 - name.length) 0x20 ++ name

/-- The names of the two slots look different wherever they are printed. -/
structure NamesDiffer (p q : Image) (s t : Slot) : Prop where
  file : printf20s (printFilename p s) ≠ printf20s (printFilename q t)
  subdir : printf20s (printSubdirName p s) ≠ printf20s (printSubdirName q t)
  rootPath : ∀ st, resetPath p st s ≠ resetPath q st t
  path : ∀ st, appendPath p st s ≠ appendPath q st t

instance (bs : List UInt8) : Decidable (NameBytes bs) := inferInstanceAs (Decidable (∀ b ∈ bs, _))

variable {p q : Image} {s t : Slot} {base ext base' ext' : List UInt8}

theorem NameBytes.append (h : NameBytes base) (h' : NameBytes ext) : NameBytes (base ++ ext) := by
  intro b mem
  rcases List.mem_append.1 mem with left | right
  · exact h b left
  · exact h' b right

theorem NameBytes.takeWhile_space (h : NameBytes base) (rest : List UInt8) :
    (base ++ rest).takeWhile (· ≠ 0x20) = base ++ rest.takeWhile (· ≠ 0x20) := by
  apply List.takeWhile_append_of_pos
  intro b mem
  simpa using (h b mem).1

theorem NameBytes.cstr (h : NameBytes base) : DiskList.cstr base = base :=
  cstr_eq_self fun mem => (h 0 mem).2.2 rfl

theorem takeWhile_spaces (k : Nat) (rest : List UInt8) :
    (List.replicate (k + 1) 0x20 ++ rest).takeWhile (· ≠ 0x20) = [] := by
  rw [List.replicate_succ, List.cons_append]
  exact List.takeWhile_cons_of_neg (by simp)

/-- Padding is undone by cutting at the first space. -/
theorem NameBytes.takeWhile_padded (h : NameBytes base) (k : Nat) :
    (base ++ List.replicate k 0x20).takeWhile (· ≠ 0x20) = base := by
  rw [h.takeWhile_space]
  cases k with
  | zero => simp
  | succ k =>
    have cut := takeWhile_spaces k []
    rw [List.append_nil] at cut
    rw [cut, List.append_nil]

namespace Spells

theorem base_length (name : Spells p s base ext) : base.length ≤ 8 := by
  have length := congrArg List.length name.baseField
  simp only [slotBytes, List.length_map, List.length_range, List.length_append, List.length_replicate] at length
  omega

theorem baseName (name : Spells p s base ext) : nameField p s 0 8 = base := by
  have cut := name.baseBytes.takeWhile_padded (8 - base.length)
  rwa [← name.baseField] at cut

theorem extName (name : Spells p s base ext) : nameField p s 8 3 = ext := by
  have cut := name.extBytes.takeWhile_padded (3 - ext.length)
  rwa [← name.extField] at cut

/-- The whole field, cut at its first space. -/
theorem wholeName (name : Spells p s base ext) :
    nameField p s 0 11 = if base.length = 8 then base ++ ext else base := by
  have field : slotBytes p s 0 11 = slotBytes p s 0 8 ++ slotBytes p s 8 3 := rfl
  have length := name.base_length
  have whole : nameField p s 0 11 = (slotBytes p s 0 11).takeWhile (· ≠ 0x20) := rfl
  rw [whole, field, name.baseField]
  split
  · rename_i full
    rw [full, Nat.sub_self, List.replicate_zero, List.append_nil, name.baseBytes.takeWhile_space, name.extField,
      name.extBytes.takeWhile_padded]
  · obtain ⟨k, pad⟩ : ∃ k, 8 - base.length = k + 1 := ⟨7 - base.length, by omega⟩
    rw [pad, List.append_assoc, name.baseBytes.takeWhile_space, takeWhile_spaces, List.append_nil]

theorem whole_bytes (name : Spells p s base ext) : NameBytes (nameField p s 0 11) := by
  rw [name.wholeName]
  split
  · exact name.baseBytes.append name.extBytes
  · exact name.baseBytes

theorem printSubdirName (name : Spells p s base ext) :
    DiskList.printSubdirName p s = if base.length = 8 then base ++ ext else base := by
  rw [DiskList.printSubdirName, name.whole_bytes.cstr, name.wholeName]

theorem component (name : Spells p s base ext) :
    DiskList.cstr (DiskList.component p s) = DiskList.printSubdirName p s ++ [0x2F] := by
  rw [DiskList.component, DiskList.printSubdirName, name.whole_bytes.cstr]
  apply cstr_eq_self
  intro mem
  rcases List.mem_append.1 mem with inName | slash
  · exact (name.whole_bytes 0 inName).2.2 rfl
  · cases List.mem_singleton.1 slash

theorem printFilename (name : Spells p s base ext) :
    DiskList.printFilename p s = if ext = [] then base else base ++ 0x2E :: ext := by
  unfold DiskList.printFilename
  rw [name.baseName, name.extName, name.baseBytes.cstr, name.extBytes.cstr]
  by_cases none : ext = []
  · simp [none]
  · simp [none, List.length_pos_iff.2 none]

end Spells

/-! ## Which names look different -/

/-- Padding on the left keeps names without spaces apart. -/
theorem printf20s_injective (h : 0x20 ∉ base) (h' : 0x20 ∉ base') :
    printf20s base = printf20s base' ↔ base = base' := by
  have cut : ∀ {bs : List UInt8}, 0x20 ∉ bs → (printf20s bs).dropWhile (· = 0x20) = bs := by
    intro bs noSpace
    unfold printf20s
    rw [List.dropWhile_append_of_pos (by simp)]
    cases bs with
    | nil => rfl
    | cons b bs =>
      apply List.dropWhile_cons_of_neg
      simpa using fun isSpace : b = 0x20 => noSpace (isSpace ▸ List.mem_cons_self)
  constructor
  · intro same
    rw [← cut h, same, cut h']
  · exact congrArg printf20s

theorem NameBytes.noSpace (h : NameBytes base) : 0x20 ∉ base := fun mem => (h _ mem).1 rfl

/-- Base and extension can be told from the name with its dot. -/
theorem dotted_injective (h : NameBytes base) (h' : NameBytes base')
    (same : (if ext = [] then base else base ++ 0x2E :: ext) = if ext' = [] then base' else base' ++ 0x2E :: ext') :
    base = base' ∧ ext = ext' := by
  have tail : ∀ {b e : List UInt8}, (if e = [] then b else b ++ 0x2E :: e) = b ++ if e = [] then [] else 0x2E :: e := by
    intro b e
    split <;> simp
  have cut : ∀ {b e : List UInt8}, NameBytes b →
      (b ++ if e = [] then [] else 0x2E :: e).takeWhile (· ≠ 0x2E) = b := by
    intro b e bytes
    rw [List.takeWhile_append_of_pos (by simpa using fun x mem => (bytes x mem).2.1)]
    split
    · simp
    · rw [List.takeWhile_cons_of_neg (by simp), List.append_nil]
  rw [tail, tail] at same
  obtain rfl : base = base' := by rw [← cut h (e := ext), same, cut h']
  refine ⟨rfl, ?_⟩
  have rest := List.append_cancel_left same
  split at rest <;> split at rest <;> simp_all

/-- The two bytes runs of the two name fields. -/
theorem Spells.eq_of_fields (name : Spells p s base ext) (name' : Spells q t base' ext')
    (sameBase : base = base') (sameExt : ext = ext') : slotBytes p s 0 11 = slotBytes q t 0 11 := by
  have field : slotBytes p s 0 11 = slotBytes p s 0 8 ++ slotBytes p s 8 3 := rfl
  have field' : slotBytes q t 0 11 = slotBytes q t 0 8 ++ slotBytes q t 8 3 := rfl
  rw [field, field', name.baseField, name.extField, name'.baseField, name'.extField, sameBase, sameExt]

/-- The base fills its field. -/
theorem Spells.full_iff (name : Spells p s base ext) : p.byteAt (s.addr + 7) ≠ 0x20 ↔ base.length = 8 := by
  have at7 : (slotBytes p s 0 8)[7]? = some (p.byteAt (s.addr + 7)) := rfl
  rw [name.baseField] at at7
  have length := name.base_length
  constructor
  · intro notSpace
    by_contra short
    rw [List.getElem?_append_right (by omega), List.getElem?_replicate_of_lt (by omega)] at at7
    exact notSpace (Option.some.inj at7).symm
  · intro full
    rw [List.getElem?_append_left (by omega)] at at7
    exact (name.baseBytes _ (List.mem_of_getElem? at7)).1

theorem Spells.filename_noSpace (name : Spells p s base ext) : 0x20 ∉ DiskList.printFilename p s := by
  rw [name.printFilename]
  split
  · exact name.baseBytes.noSpace
  · intro mem
    rcases List.mem_append.1 mem with inBase | behind
    · exact name.baseBytes.noSpace inBase
    · rcases List.mem_cons.1 behind with dot | inExt
      · cases dot
      · exact name.extBytes.noSpace inExt

theorem Spells.subdir_noSpace (name : Spells p s base ext) : 0x20 ∉ DiskList.printSubdirName p s := by
  rw [DiskList.printSubdirName, name.whole_bytes.cstr]
  exact name.whole_bytes.noSpace

/-- Base and extension run together are the same for the same base, if it is short, and
for the same two. -/
theorem run_together (short : base.length ≤ 8) (short' : base'.length ≤ 8)
    (same : (if base.length = 8 then base ++ ext else base) = if base'.length = 8 then base' ++ ext' else base') :
    base = base' ∧ (base.length = 8 → ext = ext') := by
  split at same
  · rename_i full
    split at same
    · rename_i full'
      obtain ⟨left, right⟩ := List.append_inj same (by omega)
      exact ⟨left, fun _ => right⟩
    · have length := congrArg List.length same
      rw [List.length_append] at length
      omega
  · rename_i partly
    split at same
    · have length := congrArg List.length same
      rw [List.length_append] at length
      omega
    · exact ⟨same, fun full => absurd full partly⟩

/-- **Printed names identify entries** exactly when their bases differ or fill all eight bytes. -/
theorem names_differ_iff (legal : LegalName p s) (legal' : LegalName q t)
    (different : slotBytes p s 0 11 ≠ slotBytes q t 0 11) :
    NamesDiffer p q s t ↔ slotBytes p s 0 8 ≠ slotBytes q t 0 8 ∨ p.byteAt (s.addr + 7) ≠ 0x20 := by
  obtain ⟨base, ext, name⟩ := legal
  obtain ⟨base', ext', name'⟩ := legal'
  rw [name.full_iff]
  constructor
  · intro differ
    by_contra lost
    rw [not_or, not_not] at lost
    have sameBase : base = base' := by rw [← name.baseName, ← name'.baseName]; exact congrArg (List.takeWhile _) lost.1
    apply differ.subdir
    rw [name.printSubdirName, name'.printSubdirName, ← sameBase, if_neg lost.2, if_neg lost.2]
  · intro kept
    have subdir : printSubdirName p s ≠ printSubdirName q t := by
      rw [name.printSubdirName, name'.printSubdirName]
      intro same
      obtain ⟨sameBase, sameExt⟩ := run_together name.base_length name'.base_length same
      rcases kept with bases | full
      · apply bases
        rw [name.baseField, name'.baseField, sameBase]
      · exact different (name.eq_of_fields name' sameBase (sameExt full))
    have component : cstr (component p s) ≠ cstr (component q t) := by
      rw [name.component, name'.component]
      exact fun same => subdir (List.append_cancel_right same)
    constructor
    · rw [Ne, printf20s_injective name.filename_noSpace name'.filename_noSpace, name.printFilename, name'.printFilename]
      intro same
      obtain ⟨sameBase, sameExt⟩ := dotted_injective name.baseBytes name'.baseBytes same
      exact different (name.eq_of_fields name' sameBase sameExt)
    · rwa [Ne, printf20s_injective name.subdir_noSpace name'.subdir_noSpace]
    · exact fun st => component
    · exact fun st same => component (List.append_cancel_left same)

/-- A volume whose root holds the directories `A.TXT`, `A.BIN` and `B.TXT`. -/
def extensions : Image :=
  .sparse 40 (entryBytes 9728 [0x41, 0x20, 0x20, 0x20, 0x20, 0x20, 0x20, 0x20, 0x54, 0x58, 0x54] 0x10 2 ++
    entryBytes 9760 [0x41, 0x20, 0x20, 0x20, 0x20, 0x20, 0x20, 0x20, 0x42, 0x49, 0x4E] 0x10 3 ++
    entryBytes 9792 [0x42, 0x20, 0x20, 0x20, 0x20, 0x20, 0x20, 0x20, 0x54, 0x58, 0x54] 0x10 4)

theorem extensions_legal :
    LegalName extensions (rootSlot 0) ∧ LegalName extensions (rootSlot 1) ∧ LegalName extensions (rootSlot 2) := by
  refine ⟨⟨[0x41], [0x54, 0x58, 0x54], ?_⟩, ⟨[0x41], [0x42, 0x49, 0x4E], ?_⟩, ⟨[0x42], [0x54, 0x58, 0x54], ?_⟩⟩
  all_goals constructor <;> decide +kernel

/-- The names of `A.TXT` and `B.TXT` differ. -/
theorem names_differ_sample :
    NamesDiffer extensions extensions (rootSlot 0) (rootSlot 2) :=
  (names_differ_iff extensions_legal.1 extensions_legal.2.2 (by decide +kernel)).2 (.inl (by decide +kernel))

/-- As directories `A.TXT` and `A.BIN` are both printed as `A`. -/
theorem extension_lost :
    (LegalName extensions (rootSlot 0) ∧ LegalName extensions (rootSlot 1) ∧
      slotBytes extensions (rootSlot 0) 0 11 ≠ slotBytes extensions (rootSlot 1) 0 11) ∧
      (printSubdirName extensions (rootSlot 0) = [0x41] ∧ printSubdirName extensions (rootSlot 1) = [0x41]) ∧
      ¬ NamesDiffer extensions extensions (rootSlot 0) (rootSlot 1) := by
  refine ⟨⟨extensions_legal.1, extensions_legal.2.1, by decide +kernel⟩, ⟨by decide +kernel, by decide +kernel⟩, ?_⟩
  intro differ
  apply differ.subdir
  decide +kernel

end CSC360.Disk.DiskList
