import CSC360.Base.Fuel
import CSC360.Base.Strings

/-!
# Arrays of tokens

The loop `array[i] = token; i++` over the tokens of a string, in an array of fixed size,
and the reads of the array behind it. A store outside the array, or a read of an
element that has not been assigned, ends the computation with a `Fault`.

If the words of the string fit into the array, **its elements are the words**, each a C
string at the address that has been stored (`element_token`).
-/

namespace CSC360.Base

/-- An access that C does not define. -/
inductive Fault
  /-- a store outside an array -/
  | storeOutside
  /-- a read of an element that no store has assigned -/
  | readUnassigned
  deriving DecidableEq

/-- The body of the loops over the tokens: `array[i] = token; i++`, in an array of `size`
elements of which the first `i` have been assigned. -/
def storeToken (size : Nat) (array : List Nat) (token : Nat) : Except Fault (List Nat) :=
  if array.length < size then .ok (array ++ [token]) else .error .storeOutside

/-- A loop over the tokens from the first call of `strtok` on, and the buffer behind it. -/
def storeTokens (size : Nat) (delim : Char) (cut : Cut) : Except Fault (List Nat × List Char) :=
  eachToken delim (fun array token _ => storeToken size array token) cut []

/-- `array[i]` -/
def element (array : List Nat) (i : Nat) : Except Fault Nat :=
  match array[i]? with
  | some a => .ok a
  | none => .error .readUnassigned

variable {size : Nat} {delim : Char} {tokens : List (Nat × List Char)} {array : List Nat}

theorem foldlM_storeToken (room : array.length ≤ size) :
    tokens.foldlM (fun array token => storeToken size array token.1) array =
      if array.length + tokens.length ≤ size then .ok (array ++ tokens.map Prod.fst) else .error .storeOutside := by
  induction tokens generalizing array with
  | nil =>
    rw [if_pos (by simpa using room), List.map_nil, List.append_nil]
    rfl
  | cons token tokens ih =>
    rw [List.foldlM_cons, storeToken]
    split
    · rename_i below
      have room' : (array ++ [token.1]).length ≤ size := by
        rw [List.length_append]
        exact below
      rw [ok_bind, ih room']
      simp [Nat.add_assoc, Nat.add_comm 1]
    · rename_i full
      rw [error_bind, if_neg]
      simp only [List.length_cons]
      omega

/-- The words of the string fit into the array or not. -/
theorem storeTokens_eq (size : Nat) (delim : Char) {buf : List Char} {p : Nat} (inside : p ≤ buf.length) :
    ∃ tokens buf', Tokens delim buf p tokens buf' ∧
      storeTokens size delim (strtok delim buf p) =
        if tokens.length ≤ size then .ok (tokens.map Prod.fst, buf') else .error .storeOutside := by
  refine ⟨_, _, tokens_of_strtokAll delim inside, ?_⟩
  rw [storeTokens, eachToken_eq, foldlM_storeToken (Nat.zero_le size)]
  simp only [List.length_nil, Nat.zero_add, List.nil_append]
  split <;> rfl

/-- A loop that has stored all its tokens. -/
theorem storeTokens_ok {buf buf' : List Char} {p : Nat} (inside : p ≤ buf.length)
    (stored : storeTokens size delim (strtok delim buf p) = .ok (array, buf')) :
    ∃ tokens : List (Nat × List Char), tokens.map Prod.snd = words delim (cstring buf p) ∧ tokens.length ≤ size ∧
      tokens.map Prod.fst = array ∧ ∀ token ∈ tokens, cstring buf' token.1 = token.2 := by
  obtain ⟨tokens, buf'', cut, run⟩ := storeTokens_eq size delim inside
  rw [stored] at run
  split at run
  · rename_i room
    obtain ⟨rfl, rfl⟩ := Prod.mk.inj (Except.ok.inj run)
    exact ⟨tokens, cut.texts, room, rfl, cut.strings⟩
  · cases run

theorem element_eq {a i : Nat} : element array i = .ok a ↔ array[i]? = some a := by
  unfold element
  cases array[i]? <;> simp

theorem lt_of_element {a i : Nat} (read : element array i = .ok a) : i < array.length := by
  obtain ⟨inside, -⟩ := List.getElem?_eq_some_iff.1 (element_eq.1 read)
  exact inside

theorem eq_cons_of_texts {tokens : List (Nat × List Char)} {word : List Char} {texts : List (List Char)}
    (map : tokens.map Prod.snd = word :: texts) :
    ∃ a later, tokens = (a, word) :: later ∧ later.map Prod.snd = texts := by
  obtain ⟨⟨a, w⟩, later, rfl, rfl, rest⟩ := List.map_eq_cons_iff.1 map
  exact ⟨a, later, rfl, rest⟩

/-- **The elements are the words of the string.** -/
theorem element_token {buf buf' : List Char} {p i : Nat} {word : List Char} (cut : Tokens delim buf p tokens buf')
    (found : (words delim (cstring buf p))[i]? = some word) :
    ∃ a, element (tokens.map Prod.fst) i = .ok a ∧ cstring buf' a = word := by
  rw [← cut.texts, List.getElem?_map] at found
  obtain ⟨token, inside, rfl⟩ := Option.map_eq_some_iff.1 found
  refine ⟨token.1, ?_, cut.strings token (List.mem_of_getElem? inside)⟩
  rw [element_eq, List.getElem?_map, inside, Option.map_some]

end CSC360.Base
