import CSC360.Clerks.CustomerLine
import CSC360.Clerks.Threads

/-!
# The input file

`main` reads the number of customers from the first line and then one customer from each
line, until it has that many or the file ends; it starts as many customer threads as the
first line says. **The customers of the file are the ones simulated exactly if the
number that `main` has read is neither above the number of lines nor above the slots of
`customerArray`, nor below what the first line says** (`simulation_exact_iff`).
-/

namespace CSC360.Clerks

open CSC360.Base Function

/-- The local variables of `main` and the array at the loop over the lines. -/
structure Loading where
  numflag : Bool
  numCustomers : Int
  index : Nat
  customerArray : CustomerArray

/-- The loop `while(fgets(line, sizeof(line), fp))`. -/
def readFile (fp : List Char) (st : Loading) : Except Fault Loading :=
  match _ : fgets 1024 fp with
  | none => .ok st
  | some (line, fp) =>
    if st.numflag = false then
      readFile fp { st with numCustomers := toInt (strtol (cstring line 0)), numflag := true }
    else if st.index < st.numCustomers then do
      let customerArray ← addCustomertoList st.customerArray line st.index
      readFile fp { st with customerArray, index := st.index + 1 }
    else .ok st
termination_by fp.length
decreasing_by all_goals exact fgets_shorter (show 2 ≤ 1024 by decide) ‹_›

/-- What `main` has loaded, and the slots of the array that the customer threads run on. -/
structure Simulation where
  customerArray : CustomerArray
  loaded : Nat
  customerThreads : List Nat

/-- `main` up to the start of the customer threads. It does not initialise `numCustomers`, which holds
some value until the first line is read. -/
def simulate (numCustomers : Int) (fp : List Char) : Except Fault Simulation := do
  let st ← readFile fp ⟨false, numCustomers, 0, fun _ => none⟩
  return ⟨st.customerArray, st.index, List.range st.numCustomers.toNat⟩

/-! ## Files of customer lines -/

/-- A customer as a well-formed line declares it. -/
structure Declared where
  id : Nat
  classType : Nat
  arrival : Nat
  service : Nat
  idSmall : id < 2 ^ 31
  isClass : classType = 0 ∨ classType = 1
  arrivalSmall : arrival < 2 ^ 24
  serviceSmall : service < 2 ^ 24

def Declared.line (c : Declared) : List Char := customerLine c.id c.classType c.arrival c.service

def Declared.record (c : Declared) : CustomerRecord := recordOf c.id c.classType c.arrival c.service

/-- The lines, each with its newline; the last one with the ending. -/
def fileOf (ending : List Char) : List (List Char) → List Char
  | [] => []
  | [line] => line ++ ending
  | line :: lines => line ++ '\n' :: fileOf ending lines

/-- The number of customers and a line for each customer. -/
def inputFile (n : Nat) (customers : List Declared) (ending : List Char) : List Char :=
  fileOf ending (Nat.toDigits 10 n :: customers.map Declared.line)

/-- What `main` reads for the number `n`. -/
def readCount (n : Nat) : Int := toInt (min 9223372036854775807 n)

/-- The customers of the file are loaded into their slots, and the threads run on them and no others. -/
def Exact (n : Nat) (customers : List Declared) (ending : List Char) : Prop :=
  ∀ numCustomers, ∃ sim, simulate numCustomers (inputFile n customers ending) = .ok sim ∧
    (∀ i c, i < n → customers[i]? = some c → sim.customerArray i = some c.record) ∧
    sim.customerThreads.length = sim.loaded ∧ ∀ i ∈ sim.customerThreads, (sim.customerArray i).isSome

/-! ## Reading a line -/

section Read

variable {line ending : List Char} {lines : List (List Char)}

theorem readFile_nil (st : Loading) : readFile [] st = .ok st := by
  rw [readFile]
  rfl

theorem readFile_some {fp fp' : List Char} {st : Loading} (read : fgets 1024 fp = some (line, fp')) :
    readFile fp st =
      if st.numflag = false then
        readFile fp' { st with numCustomers := toInt (strtol (cstring line 0)), numflag := true }
      else if st.index < st.numCustomers then do
        let customerArray ← addCustomertoList st.customerArray line st.index
        readFile fp' { st with customerArray, index := st.index + 1 }
      else .ok st := by
  rw [readFile]
  split <;> simp_all

/-- `fgets` reads the first line of the file when it fits. -/
theorem fgets_fileOf (newline : ending = [] ∨ ending = ['\n']) (ne : line ≠ []) (oneLine : '\n' ∉ line)
    (fits : line.length ≤ 1022) (lines : List (List Char)) :
    ∃ ending', (ending' = [] ∨ ending' = ['\n']) ∧
      fgets 1024 (fileOf ending (line :: lines)) = some (line ++ ending', fileOf ending lines) := by
  cases lines with
  | nil =>
    rw [fileOf, fileOf]
    refine ⟨ending, newline, ?_⟩
    rcases newline with rfl | rfl
    · rw [List.append_nil]
      exact fgets_last ne oneLine (by omega)
    · exact fgets_line oneLine (by omega) []
  | cons next lines => exact ⟨['\n'], .inr rfl, fgets_line oneLine (by omega) _⟩

theorem Declared.line_ne_nil (c : Declared) : c.line ≠ [] := by simp [Declared.line, customerLine]

theorem Declared.oneLine (c : Declared) : '\n' ∉ c.line := by
  simp [Declared.line, customerLine, notMem_toDigits (c := '\n') rfl]

theorem Declared.line_fits (c : Declared) : c.line.length ≤ 1022 := by
  have id := (Nat.length_toDigits_le_iff (k := 10) (by decide : 1 < 10) (by decide)).2 (Nat.lt_trans c.idSmall (by decide))
  have classType := (Nat.length_toDigits_le_iff (k := 1) (by decide : 1 < 10) (by decide)).2
    (by rcases c.isClass with same | same <;> omega : c.classType < 10 ^ 1)
  have arrival := (Nat.length_toDigits_le_iff (k := 8) (by decide : 1 < 10) (by decide)).2
    (Nat.lt_trans c.arrivalSmall (by decide))
  have service := (Nat.length_toDigits_le_iff (k := 8) (by decide : 1 < 10) (by decide)).2
    (Nat.lt_trans c.serviceSmall (by decide))
  simp only [Declared.line, customerLine, List.length_append, List.length_cons]
  omega

theorem addCustomertoList_line (c : Declared) (newline : ending = [] ∨ ending = ['\n']) (customerArray : CustomerArray)
    (index : Nat) :
    addCustomertoList customerArray (c.line ++ ending) index =
      if index < maxSize then .ok (update customerArray index (some c.record)) else .error .storeOutside := by
  rw [addCustomertoList, Declared.line,
    readCustomer_customerLine c.idSmall c.isClass c.arrivalSmall c.serviceSmall newline, ok_bind]
  split <;> rfl

end Read

/-! ## The loop over the customers -/

section Customers

variable {customers : List Declared} {ending : List Char} {customerArray : CustomerArray} {index : Nat}

/-- The array with the records of the customers from the slot on. -/
def fill (customerArray : CustomerArray) : Nat → List Declared → CustomerArray
  | _, [] => customerArray
  | index, c :: customers => fill (update customerArray index (some c.record)) (index + 1) customers

theorem fill_before {i : Nat} (before : i < index) : fill customerArray index customers i = customerArray i := by
  induction customers generalizing customerArray index with
  | nil => rfl
  | cons c customers ih => rw [fill, ih (Nat.lt_succ_of_lt before), update_of_ne (Nat.ne_of_lt before)]

theorem fill_behind {i : Nat} (behind : index + customers.length ≤ i) :
    fill customerArray index customers i = customerArray i := by
  induction customers generalizing customerArray index with
  | nil => rfl
  | cons c customers ih =>
    rw [List.length_cons] at behind
    rw [fill, ih (by omega), update_of_ne (by omega)]

theorem fill_slot {i : Nat} {c : Declared} (declared : customers[i]? = some c) :
    fill customerArray index customers (index + i) = some c.record := by
  induction customers generalizing customerArray index i with
  | nil => cases declared
  | cons d customers ih =>
    rw [fill]
    cases i with
    | zero =>
      obtain rfl := Option.some.inj declared
      have before : index + 0 < index + 1 := by omega
      rw [fill_before before, Nat.add_zero, update_self]
    | succ i =>
      rw [List.getElem?_cons_succ] at declared
      rw [← Nat.add_assoc, Nat.add_right_comm]
      exact ih declared

/-- **The loop loads the customers in order**, as many as the number allows, until a store misses the array. -/
theorem readFile_customers (newline : ending = [] ∨ ending = ['\n']) (numCustomers : Int) (inside : index ≤ maxSize) :
    readFile (fileOf ending (customers.map Declared.line)) ⟨true, numCustomers, index, customerArray⟩ =
      let loaded := customers.take (numCustomers - index).toNat
      if index + loaded.length ≤ maxSize then
        .ok ⟨true, numCustomers, index + loaded.length, fill customerArray index loaded⟩
      else .error .storeOutside := by
  induction customers generalizing customerArray index with
  | nil =>
    rw [List.map_nil, fileOf, readFile_nil, List.take_nil]
    exact (if_pos inside).symm
  | cons c customers ih =>
    obtain ⟨ending', newline', read⟩ :=
      fgets_fileOf newline c.line_ne_nil c.oneLine c.line_fits (customers.map Declared.line)
    rw [List.map_cons, readFile_some read]
    simp only [Bool.true_eq_false, if_false]
    by_cases more : (index : Int) < numCustomers
    · obtain ⟨rest, count⟩ : ∃ rest, (numCustomers - index).toNat = rest + 1 :=
        ⟨(numCustomers - index).toNat - 1, by omega⟩
      have count' : (numCustomers - (index + 1 : Nat)).toNat = rest := by omega
      rw [if_pos more, addCustomertoList_line c newline', count, List.take_succ_cons]
      by_cases room : index < maxSize
      · have inside' : index + 1 ≤ maxSize := room
        rw [if_pos room, ok_bind, ih inside', count']
        simp only [List.length_cons, fill, Nat.add_assoc, Nat.add_comm 1]
      · rw [if_neg room, error_bind]
        simp only [List.length_cons]
        rw [if_neg (by omega)]
    · have none : (numCustomers - index).toNat = 0 := by omega
      rw [if_neg more, none, List.take_zero]
      exact (if_pos inside).symm

end Customers

/-! ## The first line -/

section First

variable {n : Nat} {customers : List Declared} {ending : List Char}

/-- Where the first line does not fit, the code reads the largest `long` and with it the count -1. -/
theorem readCount_long (long : 1023 ≤ (Nat.toDigits 10 n).length) :
    readCount n = -1 ∧ toInt (strtol ((Nat.toDigits 10 n).take 1023)) = -1 := by
  have digit : ∀ c ∈ (Nat.toDigits 10 n).take 1023, c.isDigit = true := fun c mem =>
    (digits_toDigits n).2 c (List.mem_of_mem_take mem)
  have bound := pow_le_decimal_take (n := n) (k := 1022) (by decide) long
  have large : 10 ^ 19 ≤ Nat.ofDigitChars 10 ((Nat.toDigits 10 n).take 1023) 0 :=
    Nat.le_trans (Nat.pow_le_pow_right (by decide) (by decide)) bound
  have large' : 10 ^ 19 ≤ n := by
    apply Nat.le_of_not_lt
    rw [← Nat.length_toDigits_le_iff (by decide) (by decide)]
    omega
  constructor
  · rw [readCount, Int.min_eq_left (by omega)]
    decide
  · have read : strtol ((Nat.toDigits 10 n).take 1023 ++ []) = _ := strtol_digits ⟨?_, digit⟩ (by simp)
    · rw [List.append_nil, decimal_eq_ofDigitChars digit, Int.min_eq_left (by omega)] at read
      rw [read]
      decide
    · intro none
      have length := congrArg List.length none
      rw [List.length_take_of_le long] at length
      cases length

theorem readFile_full {fp : List Char} {st : Loading} (counted : st.numflag = true)
    (full : ¬ (st.index : Int) < st.numCustomers) : readFile fp st = .ok st := by
  cases read : fgets 1024 fp with
  | none =>
    rw [readFile]
    split <;> simp_all
  | some chunk =>
    obtain ⟨line, fp'⟩ := chunk
    rw [readFile_some read, if_neg (by simp [counted]), if_neg full]

/-- **The loop starts with what the code reads for the first line**, also where the line does not fit. -/
theorem readFile_first (newline : ending = [] ∨ ending = ['\n']) (numCustomers : Int) :
    readFile (inputFile n customers ending) ⟨false, numCustomers, 0, fun _ => none⟩ =
      readFile (fileOf ending (customers.map Declared.line)) ⟨true, readCount n, 0, fun _ => none⟩ := by
  have oneLine := notMem_toDigits (c := '\n') rfl n
  rw [inputFile]
  by_cases fits : (Nat.toDigits 10 n).length ≤ 1022
  · obtain ⟨ending', newline', read⟩ :=
      fgets_fileOf newline Nat.toDigits_ne_nil oneLine fits (customers.map Declared.line)
    have clean : nul ∉ Nat.toDigits 10 n ++ ending' := by
      have other : nul ∉ ending' := by rcases newline' with rfl | rfl <;> decide
      simp [notMem_toDigits (c := nul) rfl, other]
    have stop : ∀ c ∈ ending'.head?, c.isDigit = false := by rcases newline' with rfl | rfl <;> simp
    rw [readFile_some read, if_pos rfl, cstring_of_clean clean, strtol_digits (digits_toDigits n) stop, decimal_toDigits,
      readCount]
  · have long : 1023 ≤ (Nat.toDigits 10 n).length := by omega
    obtain ⟨count, cut⟩ := readCount_long long
    obtain ⟨tail, file⟩ : ∃ tail, fileOf ending (Nat.toDigits 10 n :: customers.map Declared.line) =
        Nat.toDigits 10 n ++ tail := by
      cases customers.map Declared.line with
      | nil => exact ⟨ending, rfl⟩
      | cons line lines => exact ⟨'\n' :: fileOf ending (line :: lines), rfl⟩
    have read : fgets 1024 (Nat.toDigits 10 n ++ tail) = _ := fgets_long Nat.toDigits_ne_nil oneLine (by omega) tail
    have clean : nul ∉ (Nat.toDigits 10 n).take 1023 := fun mem =>
      notMem_toDigits (c := nul) rfl n (List.mem_of_mem_take mem)
    rw [file, readFile_some read, if_pos rfl, cstring_of_clean clean, cut, count, readFile_full rfl (show ¬ (0 : Int) < -1 by decide),
      readFile_full rfl (by decide)]

/-- What `main` has done when it starts the customer threads. -/
theorem simulate_eq (n : Nat) (customers : List Declared) (newline : ending = [] ∨ ending = ['\n'])
    (numCustomers : Int) : simulate numCustomers (inputFile n customers ending) =
      let loaded := customers.take (readCount n).toNat
      if loaded.length ≤ maxSize then
        .ok ⟨fill (fun _ => none) 0 loaded, loaded.length, List.range (readCount n).toNat⟩
      else .error .storeOutside := by
  rw [simulate, readFile_first newline numCustomers, readFile_customers newline _ (Nat.zero_le _)]
  simp only [Int.natCast_zero, Int.sub_zero, Nat.zero_add]
  split <;> rfl

/-- The record in a slot that has been loaded. -/
theorem fill_take {k i : Nat} {c : Declared} (below : i < k) (declared : customers[i]? = some c) :
    fill (fun _ => none) 0 (customers.take k) i = some c.record := by
  rw [← List.getElem?_take_of_lt below] at declared
  have slot : fill (fun _ => none) 0 (customers.take k) (0 + i) = _ := fill_slot declared
  rwa [Nat.zero_add] at slot

/-- The bounds of what `main` reads for the number. -/
def Counted (n : Nat) (customers : List Declared) : Prop :=
  (readCount n).toNat ≤ customers.length ∧ (readCount n).toNat ≤ maxSize ∧
    min n customers.length ≤ (readCount n).toNat

instance (n : Nat) (customers : List Declared) : Decidable (Counted n customers) := inferInstanceAs (Decidable (_ ∧ _))

theorem Exact.counted (newline : ending = [] ∨ ending = ['\n']) (exact : Exact n customers ending) :
    Counted n customers := by
  obtain ⟨sim, returns, slots, started, -⟩ := exact 0
  have length := List.length_take (l := customers) (i := (readCount n).toNat)
  rw [simulate_eq n customers newline 0] at returns
  dsimp only at returns
  split at returns
  · rename_i room
    obtain rfl := Except.ok.inj returns
    dsimp only at slots started
    rw [List.length_range] at started
    refine ⟨by omega, by omega, ?_⟩
    by_contra less
    -- the first customer that is not loaded
    obtain ⟨c, declared⟩ : ∃ c, customers[(readCount n).toNat]? = some c := ⟨_, List.getElem?_eq_getElem (by omega)⟩
    have slot := slots _ c (by omega) declared
    rw [fill_behind (by omega)] at slot
    cases slot
  · cases returns

theorem Counted.exact (newline : ending = [] ∨ ending = ['\n']) (counted : Counted n customers) :
    Exact n customers ending := by
  obtain ⟨lines, room, all⟩ := counted
  have length := List.length_take (l := customers) (i := (readCount n).toNat)
  rw [Nat.min_eq_left lines] at length
  refine fun numCustomers => ⟨_, by rw [simulate_eq n customers newline]; exact if_pos (by omega),
    fun i c below declared => ?_, by rw [List.length_range, length], fun i mem => ?_⟩
  · obtain ⟨inside, -⟩ := List.getElem?_eq_some_iff.1 declared
    exact fill_take (by omega) declared
  · have inside : i < (readCount n).toNat := List.mem_range.1 mem
    obtain ⟨c, declared⟩ : ∃ c, customers[i]? = some c := ⟨_, List.getElem?_eq_getElem (by omega)⟩
    dsimp only
    rw [fill_take inside declared]
    rfl

/-- **Exactly the customers of the file are simulated** just when the number that the code
reads is at most the number of lines and of slots, and leaves out no line that the first
line counts. -/
theorem simulation_exact_iff (n : Nat) (customers : List Declared) (newline : ending = [] ∨ ending = ['\n']) :
    Exact n customers ending ↔
      (readCount n).toNat ≤ customers.length ∧ (readCount n).toNat ≤ maxSize ∧
        min n customers.length ≤ (readCount n).toNat :=
  ⟨fun exact => exact.counted newline, fun counted => Counted.exact newline counted⟩

end First

/-- A customer of the economy class. -/
def economyCustomer : Declared := ⟨1, 0, 0, 50, by decide, .inl rfl, by decide, by decide⟩

theorem simulation_exact_iff_two :
    Exact 2 [economyCustomer] ['\n'] ↔
      (readCount 2).toNat ≤ [economyCustomer].length ∧ (readCount 2).toNat ≤ maxSize ∧
        min 2 [economyCustomer].length ≤ (readCount 2).toNat :=
  simulation_exact_iff 2 [economyCustomer] (.inr rfl)

/-- **A thread can run on a slot that no line has filled**: the first line counts two customers,
and there is one. -/
theorem thread_without_customer :
    ¬ ∀ (n : Nat) (customers : List Declared) (ending : List Char), ending = [] ∨ ending = ['\n'] →
      Exact n customers ending := by
  intro claim
  have counted := (claim 2 [economyCustomer] ['\n'] (.inr rfl)).counted (.inr rfl)
  revert counted
  decide

/-! ## The customers of the threads -/

/-- The customer that the thread on the slot simulates; an unfilled slot has zeros. -/
def Simulation.customer (sim : Simulation) (i : Nat) : Customer :=
  match sim.customerArray i with
  | some record => ⟨record.id, record.classType⟩
  | none => ⟨0, 0⟩

/-- Where the number is right, the threads simulate the declared customers, each of a class. -/
theorem simulated_customers {n : Nat} {customers : List Declared} {ending : List Char}
    (newline : ending = [] ∨ ending = ['\n']) (enough : n ≤ customers.length) (room : n ≤ maxSize)
    (numCustomers : Int) : ∃ sim, simulate numCustomers (inputFile n customers ending) = .ok sim ∧ sim.customerThreads = List.range n ∧
      ∀ i c, i < n → customers[i]? = some c → sim.customer i = ⟨c.id, c.classType⟩ ∧
        (sim.customer i).currQueue ≠ none := by
  have count : readCount n = n := by
    rw [maxSize] at room
    rw [readCount, Int.min_eq_right (by omega), toInt_eq (by omega) (by omega)]
  have length := List.length_take (l := customers) (i := n)
  have returns := simulate_eq n customers newline numCustomers
  rw [count, Int.toNat_natCast] at returns
  refine ⟨_, returns.trans (if_pos (by omega)), rfl, fun i c below declared => ?_⟩
  simp only [Simulation.customer, fill_take below declared]
  refine ⟨rfl, ?_⟩
  rcases c.isClass with same | same <;> simp [Declared.record, recordOf, Customer.currQueue, same]

end CSC360.Clerks
