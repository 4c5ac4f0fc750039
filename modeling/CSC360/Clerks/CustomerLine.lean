import CSC360.Base.Floats
import CSC360.Base.TokenArrays
import Mathlib.Logic.Function.Basic

/-!
# Customer lines

`addCustomertoList` cuts a line of the input file at its commas, and the first field at its
colons. The pointers to the fields are stored in `values`, which has as many elements as
the line has characters after the first cut, and in `temp`, which has two. A store
outside an array, or a read of an element that has not been assigned, ends the
computation with a `Fault`.

**A line is read without a fault exactly if it has two parts before its first comma and
two fields behind it, and no more fields than `values` has elements** (`readable_iff`);
a line that was printed from a record is read back as that record (`reads_back`).
-/

namespace CSC360.Clerks

open CSC360.Base Function

def maxSize : Nat := 1024

/-- The C struct `Customer` as the input file gives it. -/
structure CustomerRecord where
  id : Int
  classType : Int
  serviceTime : FloatVal
  arrivalTime : FloatVal
  deriving DecidableEq

/-- `customerArray`; a slot without a record still has the zeros it was initialised with. -/
abbrev CustomerArray := Nat → Option CustomerRecord

/-- `addCustomertoList` up to its store to `customerArray`. -/
def readCustomer (line : List Char) : Except Fault CustomerRecord := do
  let cut := strtok ',' line 0
  let (values, line) ← storeTokens (strlen cut.buf 0) ',' cut
  let first ← element values 0
  let (temp, line) ← storeTokens 2 ':' (strtok ':' line first)
  let id ← element temp 0
  let classType ← element temp 1
  let arrivalTime ← element values 1
  let serviceTime ← element values 2
  return {
    id := toInt (strtol (cstring line id))
    classType := toInt (strtol (cstring line classType))
    arrivalTime := (atof (cstring line arrivalTime)).toFloat
    serviceTime := (atof (cstring line serviceTime)).toFloat }

def addCustomertoList (customerArray : CustomerArray) (line : List Char) (index : Nat) : Except Fault CustomerArray := do
  let n_cust ← readCustomer line
  if index < maxSize then return update customerArray index (some n_cust)
  else throw .storeOutside

/-! ## Which lines are read -/

/-- Two parts in the first field, two fields behind it, and no more fields than there are
characters up to the end of the first one. -/
def Readable (line : List Char) : Prop :=
  let text := cstring line 0
  let fields := words ',' text
  (words ':' (fields.headD [])).length = 2 ∧ 3 ≤ fields.length ∧
    fields.length ≤ (text.takeWhile (· = ',')).length + (fields.headD []).length

instance (line : List Char) : Decidable (Readable line) := inferInstanceAs (Decidable (_ ∧ _))

/-- **The record of a readable line.** -/
theorem readCustomer_eq {line first arrival service id classType : List Char} {more : List (List Char)}
    (fields : words ',' (cstring line 0) = first :: arrival :: service :: more)
    (room : 3 + more.length ≤ ((cstring line 0).takeWhile (· = ',')).length + first.length)
    (parts : words ':' first = [id, classType]) :
    readCustomer line = .ok {
      id := toInt (strtol id)
      classType := toInt (strtol classType)
      arrivalTime := (atof arrival).toFloat
      serviceTime := (atof service).toFloat } := by
  obtain ⟨tokens, buf, cut, stored⟩ := storeTokens_eq (strlen (strtok ',' line 0).buf 0) ',' (Nat.zero_le line.length)
  have texts := cut.texts
  have size := strlen_strtok ',' line
  rw [fields] at texts size
  rw [List.headD_cons] at size
  obtain ⟨a, _, rfl, afterFirst⟩ := eq_cons_of_texts texts
  obtain ⟨b, _, rfl, afterArrival⟩ := eq_cons_of_texts afterFirst
  obtain ⟨c, later, rfl, afterService⟩ := eq_cons_of_texts afterArrival
  have count : later.length = more.length := by rw [← afterService, List.length_map]
  rw [if_pos (by simp only [List.length_cons]; omega)] at stored
  -- the first field is cut again; the others lie behind it
  have name := cut.strings (a, first) (by simp)
  have inside : a ≤ buf.length := by
    apply Nat.le_of_lt
    apply lt_length_of_cstring
    rw [name]
    exact ne_nil_of_mem_words (fields ▸ List.mem_cons_self)
  obtain ⟨order, -⟩ := List.pairwise_cons.1 cut.order
  obtain ⟨pair, buf', cut', stored'⟩ := storeTokens_eq 2 ':' inside
  have texts' := cut'.texts
  rw [name, parts] at texts'
  obtain ⟨d, _, rfl, afterId⟩ := eq_cons_of_texts texts'
  obtain ⟨e, _, rfl, afterClass⟩ := eq_cons_of_texts afterId
  obtain rfl := List.map_eq_nil_iff.1 afterClass
  have behind : ∀ x text, (x, text) ∈ (b, arrival) :: (c, service) :: later → cstring buf' x = text := by
    intro x text mem
    rw [cut'.behind x (by rw [name]; exact Nat.le_of_lt (order (x, text) mem))]
    exact cut.strings (x, text) (List.mem_cons_of_mem _ mem)
  have arrivalString := behind b arrival (by simp)
  have serviceString := behind c service (by simp)
  simp only [readCustomer, stored, ok_bind, List.map_cons, element, List.getElem?_cons_zero, List.getElem?_cons_succ,
    stored', List.map_nil, List.length_cons, List.length_nil, Nat.le_refl, if_true, arrivalString, serviceString,
    cut'.strings (d, id) (by simp), cut'.strings (e, classType) (by simp)]
  rfl

theorem readable_of_ok {line : List Char} {record : CustomerRecord} (read : readCustomer line = .ok record) :
    Readable line := by
  obtain ⟨⟨values, buf⟩, cutLine, read⟩ := bind_eq_ok.1 read
  obtain ⟨a, first, read⟩ := bind_eq_ok.1 read
  obtain ⟨⟨temp, buf'⟩, cutFirst, read⟩ := bind_eq_ok.1 read
  obtain ⟨d, id, read⟩ := bind_eq_ok.1 read
  obtain ⟨e, classType, read⟩ := bind_eq_ok.1 read
  obtain ⟨b, arrivalTime, read⟩ := bind_eq_ok.1 read
  obtain ⟨c, serviceTime, -⟩ := bind_eq_ok.1 read
  obtain ⟨tokens, texts, room, rfl, strings⟩ := storeTokens_ok (Nat.zero_le _) cutLine
  have count : tokens.length = (words ',' (cstring line 0)).length := by rw [← texts, List.length_map]
  have three := lt_of_element serviceTime
  rw [List.length_map, count] at three
  rw [strlen_strtok, count] at room
  have head : ∃ later, tokens = (a, (words ',' (cstring line 0)).headD []) :: later := by
    cases tokens with
    | nil => cases element_eq.1 first
    | cons token tokens =>
      rw [← texts]
      obtain rfl : token.1 = a := Option.some.inj (element_eq.1 first)
      exact ⟨tokens, rfl⟩
  obtain ⟨later, rfl⟩ := head
  have name := strings _ List.mem_cons_self
  have inside : a ≤ buf.length := by
    apply Nat.le_of_lt
    apply lt_length_of_cstring
    rw [name]
    have word : (words ',' (cstring line 0)).headD [] ∈ words ',' (cstring line 0) := by
      rw [← texts]
      exact List.mem_cons_self
    exact ne_nil_of_mem_words word
  obtain ⟨pair, parts, two, rfl, -⟩ := storeTokens_ok inside cutFirst
  rw [name] at parts
  have more := lt_of_element classType
  rw [List.length_map] at more
  refine ⟨?_, three, room⟩
  rw [← parts, List.length_map]
  omega

theorem Readable.ok {line : List Char} (readable : Readable line) : ∃ record, readCustomer line = .ok record := by
  obtain ⟨parts, three, room⟩ := readable
  obtain ⟨first, arrival, service, more, fields⟩ :
      ∃ first arrival service more, words ',' (cstring line 0) = first :: arrival :: service :: more := by
    match words ',' (cstring line 0), three with
    | first :: arrival :: service :: more, _ => exact ⟨first, arrival, service, more, rfl⟩
  rw [fields] at parts room
  obtain ⟨id, classType, parts⟩ := List.length_eq_two.1 parts
  rw [List.length_cons, List.length_cons, List.length_cons, List.headD_cons] at room
  exact ⟨_, readCustomer_eq fields (by omega) parts⟩

/-- **A line is read without a fault exactly if it is readable**. -/
theorem readable_iff (line : List Char) : (∃ record, readCustomer line = .ok record) ↔ Readable line :=
  ⟨fun ⟨_, read⟩ => readable_of_ok read, Readable.ok⟩

/-- `fgets` delivers a blank line as its newline. -/
theorem blank_line_faults :
    ¬ ∀ stream line rest, fgets 1024 stream = some (line, rest) → ∃ record, readCustomer line = .ok record := by
  intro claim
  obtain ⟨record, read⟩ := claim ['\n'] ['\n'] [] (by decide)
  have readable := readable_of_ok read
  revert readable
  decide

/-! ## Printed records -/

/-- The line `id:class,arrival,service`. -/
def customerLine (id classType arrival service : Nat) : List Char :=
  Nat.toDigits 10 id ++ ':' :: Nat.toDigits 10 classType ++ ',' :: (Nat.toDigits 10 arrival ++
    ',' :: Nat.toDigits 10 service)

section Print

variable {id classType arrival service index : Nat} {ending : List Char}

theorem toInt_strtol {n : Nat} (small : n < 2 ^ 31) : toInt (strtol (Nat.toDigits 10 n)) = n := by
  rw [strtol_toDigits, toInt_eq] <;> omega

theorem atof_toDigits {n : Nat} (small : n < 2 ^ 24) (stop : ∀ c ∈ ending.head?, isSpace c = true) :
    (atof (Nat.toDigits 10 n ++ ending)).toFloat = .finite n := by
  have exact : single.round ((n : Int) : Rat) = .finite ((n : Int) : Rat) := by
    apply Format.round_intCast (by decide) (by decide)
    rw [abs_of_nonneg (Int.natCast_nonneg n)]
    exact_mod_cast small
  rw [atof_digits (digits_toDigits n) stop (by rw [decimal_toDigits]; omega), decimal_toDigits, FloatVal.toFloat, exact,
    Int.cast_natCast]

/-- The fields of a printed line; the newline stays with the last one. -/
theorem words_customerLine (newline : ending = [] ∨ ending = ['\n']) :
    words ',' (cstring (customerLine id classType arrival service ++ ending) 0) =
      [Nat.toDigits 10 id ++ ':' :: Nat.toDigits 10 classType, Nat.toDigits 10 arrival,
        Nat.toDigits 10 service ++ ending] := by
  have noNul : nul ∉ ending ∧ ',' ∉ ending := by rcases newline with rfl | rfl <;> decide
  have clean : nul ∉ customerLine id classType arrival service ++ ending := by
    simp [customerLine, notMem_toDigits (c := nul) rfl, noNul.1]
    decide
  have first : ',' ∉ Nat.toDigits 10 id ++ ':' :: Nat.toDigits 10 classType := by
    simp [notMem_toDigits (c := ',') rfl]
  have last : ',' ∉ Nat.toDigits 10 service ++ ending := by simp [notMem_toDigits (c := ',') rfl, noNul.2]
  have shape : customerLine id classType arrival service ++ ending =
      [] ++ (Nat.toDigits 10 id ++ ':' :: Nat.toDigits 10 classType) ++ ',' :: ([] ++ Nat.toDigits 10 arrival ++
        ',' :: ([] ++ (Nat.toDigits 10 service ++ ending))) := by simp [customerLine]
  rw [cstring_of_clean clean, shape, words_more (by simp) (by simp) first,
    words_more (by simp) Nat.toDigits_ne_nil (notMem_toDigits rfl arrival), words_last (by simp) (by simp) last]

theorem words_firstField :
    words ':' (Nat.toDigits 10 id ++ ':' :: Nat.toDigits 10 classType) =
      [Nat.toDigits 10 id, Nat.toDigits 10 classType] := by
  have shape : Nat.toDigits 10 id ++ ':' :: Nat.toDigits 10 classType =
      [] ++ Nat.toDigits 10 id ++ ':' :: ([] ++ Nat.toDigits 10 classType) := by simp
  rw [shape, words_more (by simp) Nat.toDigits_ne_nil (notMem_toDigits rfl id),
    words_last (by simp) Nat.toDigits_ne_nil (notMem_toDigits rfl classType)]

/-- The record that a printed line stands for. -/
def recordOf (id classType arrival service : Nat) : CustomerRecord :=
  ⟨id, classType, .finite service, .finite arrival⟩

theorem readCustomer_customerLine (idSmall : id < 2 ^ 31) (isClass : classType = 0 ∨ classType = 1)
    (arrivalSmall : arrival < 2 ^ 24) (serviceSmall : service < 2 ^ 24) (newline : ending = [] ∨ ending = ['\n']) :
    readCustomer (customerLine id classType arrival service ++ ending) =
      .ok (recordOf id classType arrival service) := by
  have stop : ∀ c ∈ ending.head?, isSpace c = true := by rcases newline with rfl | rfl <;> simp [isSpace]
  have room : 3 ≤ (Nat.toDigits 10 id ++ ':' :: Nat.toDigits 10 classType).length := by
    have some := List.length_pos_iff.2 (Nat.toDigits_ne_nil (n := id) (b := 10))
    have some' := List.length_pos_iff.2 (Nat.toDigits_ne_nil (n := classType) (b := 10))
    rw [List.length_append, List.length_cons]
    omega
  have arrivalRead : (atof (Nat.toDigits 10 arrival ++ [])).toFloat = _ := atof_toDigits arrivalSmall (by simp)
  rw [List.append_nil] at arrivalRead
  rw [readCustomer_eq (words_customerLine newline) (by rw [List.length_nil]; omega) words_firstField,
    toInt_strtol idSmall, toInt_strtol (by omega), arrivalRead, atof_toDigits serviceSmall stop]
  rfl

/-- **Parsing undoes printing**: a customer line, with a newline or without, is stored at the
index as the record it was printed from; no other slot changes, and no array is overrun. -/
theorem reads_back (idSmall : id < 2 ^ 31) (isClass : classType = 0 ∨ classType = 1) (arrivalSmall : arrival < 2 ^ 24)
    (serviceSmall : service < 2 ^ 24) (newline : ending = [] ∨ ending = ['\n']) (valid : index < maxSize)
    (customerArray : CustomerArray) :
    ∃ customerArray',
      addCustomertoList customerArray (customerLine id classType arrival service ++ ending) index = .ok customerArray' ∧
      customerArray' index = some (recordOf id classType arrival service) ∧
      ∀ i ≠ index, customerArray' i = customerArray i := by
  refine ⟨update customerArray index (some (recordOf id classType arrival service)), ?_, update_self _ _ _,
    fun i other => update_of_ne other _ _⟩
  rw [addCustomertoList, readCustomer_customerLine idSmall isClass arrivalSmall serviceSmall newline, ok_bind,
    if_pos valid]
  rfl

theorem reads_back_first :
    ∃ customerArray',
      addCustomertoList (fun _ => none) (customerLine 30 0 144 80 ++ ['\n']) 29 = .ok customerArray' ∧
      customerArray' 29 = some (recordOf 30 0 144 80) ∧ ∀ i ≠ 29, customerArray' i = none :=
  reads_back (by decide) (.inl rfl) (by decide) (by decide) (.inr rfl) (by decide) _

end Print

end CSC360.Clerks
