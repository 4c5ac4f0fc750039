import Mathlib.Data.List.TakeWhile

/-!
# Texts that can be read back

A code gives each symbol a word; a text is the words of a list of symbols, one behind the
other. Where no word begins another one the text determines the symbols
(`PrefixFree.flatMap_inj`). Words whose first line tells them apart are such a code
(`prefixFree_of_line`).
-/

namespace CSC360.Base

variable {α β : Type}

/-- What follows a word in a text does not matter for which word it is. -/
def PrefixFree (domain : α → Prop) (word : α → List β) : Prop :=
  ∀ a b, domain a → domain b → ∀ rest rest', word a ++ rest = word b ++ rest' → a = b

/-- **A text determines its symbols.** -/
theorem PrefixFree.flatMap_inj {domain : α → Prop} {word : α → List β} (code : PrefixFree domain word)
    (nonempty : ∀ a, word a ≠ []) {l l' : List α} (inDomain : ∀ a ∈ l, domain a) (inDomain' : ∀ a ∈ l', domain a) :
    l.flatMap word = l'.flatMap word ↔ l = l' := by
  refine ⟨fun same => ?_, congrArg _⟩
  induction l generalizing l' with
  | nil =>
    cases l' with
    | nil => rfl
    | cons b l' =>
      rw [List.flatMap_nil, List.flatMap_cons] at same
      exact absurd (List.append_eq_nil_iff.1 same.symm).1 (nonempty b)
  | cons a l ih =>
    cases l' with
    | nil =>
      rw [List.flatMap_nil, List.flatMap_cons] at same
      exact absurd (List.append_eq_nil_iff.1 same).1 (nonempty a)
    | cons b l' =>
      rw [List.flatMap_cons, List.flatMap_cons] at same
      obtain rfl : a = b := code a b (inDomain a List.mem_cons_self) (inDomain' b List.mem_cons_self) _ _ same
      have behind := List.append_cancel_left same
      rw [ih (fun c mem => inDomain c (List.mem_cons_of_mem a mem))
        (fun c mem => inDomain' c (List.mem_cons_of_mem a mem)) behind]

section Lines

variable [DecidableEq β] {stop : β}

/-- A line ends where the text has its first end-of-line. -/
theorem line_unique {line line' rest rest' : List β} (free : stop ∉ line) (free' : stop ∉ line')
    (same : line ++ stop :: rest = line' ++ stop :: rest') : line = line' := by
  have cut : ∀ {l r : List β}, stop ∉ l → (l ++ stop :: r).takeWhile (· ≠ stop) = l := by
    intro l r free
    have inside : ∀ b ∈ l, decide (b ≠ stop) = true := fun b mem =>
      decide_eq_true fun isStop : b = stop => free (isStop ▸ mem)
    rw [List.takeWhile_append_of_pos inside, List.takeWhile_cons_of_neg (by simp), List.append_nil]
  rw [← cut free, same, cut free']

/-- The first lines of the words tell the symbols apart. -/
theorem prefixFree_of_line {domain : α → Prop} {word first behind : α → List β}
    (split : ∀ a, word a = first a ++ stop :: behind a) (free : ∀ a, domain a → stop ∉ first a)
    (injective : ∀ a b, domain a → domain b → first a = first b → a = b) : PrefixFree domain word := by
  intro a b inDomain inDomain' rest rest' same
  rw [split, split, List.append_assoc, List.append_assoc, List.cons_append, List.cons_append] at same
  exact injective a b inDomain inDomain' (line_unique (free a inDomain) (free b inDomain') same)

/-- Columns filled up on the left: the padding goes, then the entry ends at the next filler. -/
theorem column_unique {filler : β} {entry entry' next next' : List β} {k k' : Nat}
    (free : filler ∉ entry) (free' : filler ∉ entry') (nonempty : entry ≠ []) (nonempty' : entry' ≠ [])
    (same : List.replicate k filler ++ (entry ++ filler :: next) =
      List.replicate k' filler ++ (entry' ++ filler :: next')) : entry = entry' := by
  have trim : ∀ {j : Nat} {e n : List β}, filler ∉ e → e ≠ [] →
      (List.replicate j filler ++ (e ++ filler :: n)).dropWhile (· = filler) = e ++ filler :: n := by
    intro j e n free nonempty
    rw [List.dropWhile_append_of_pos (by simp)]
    obtain ⟨b, e, rfl⟩ := List.exists_cons_of_ne_nil nonempty
    apply List.dropWhile_cons_of_neg
    simpa using fun isFiller : b = filler => free (isFiller ▸ List.mem_cons_self)
  have trimmed : entry ++ filler :: next = entry' ++ filler :: next' := by
    rw [← trim (j := k) free nonempty, same, trim free' nonempty']
  exact line_unique free free' trimmed

end Lines

end CSC360.Base
