import Mathlib.Data.List.GetD
import Mathlib.Data.List.TakeWhile

/-!
# C strings and `strtok`

A buffer is the list of its characters; behind its end it reads as the null that
terminates a C string. `strtok` cuts the buffer in place and keeps, between its calls,
the address where it goes on (`Cut`). `eachToken` is the loop

    token = strtok(s, delim);
    while (token != NULL) { body; token = strtok(NULL, delim); }

**The loop visits the words of the string**, the maximal runs of characters other than
the delimiter, in order (`eachToken_eq`, `strtokAll_spec`), and leaves each of them as
a C string at its address, whatever was written over the delimiters.
-/

namespace CSC360.Base

universe u v

/-- The null that terminates a string. -/
def nul : Char := Char.ofNat 0

/-- The C string at the address. -/
def cstring (buf : List Char) (p : Nat) : List Char := (buf.drop p).takeWhile (· ≠ nul)

def strlen (buf : List Char) (p : Nat) : Nat := (cstring buf p).length

/-- What a call of `strtok` leaves: the buffer, the token, and the address where the next
call goes on. -/
structure Cut where
  buf : List Char
  token : Option Nat
  saved : Nat

/-- `strtok(s, delim)`; with the saved address for `s`, `strtok(NULL, delim)`. -/
def strtok (delim : Char) (buf : List Char) (s : Nat) : Cut :=
  let start := s + ((cstring buf s).takeWhile (· = delim)).length
  if cstring buf start = [] then ⟨buf, none, start⟩
  else
    let stop := start + ((cstring buf start).takeWhile (· ≠ delim)).length
    if buf.getD stop nul = nul then ⟨buf, some start, stop⟩
    else ⟨buf.set stop nul, some start, stop + 1⟩

theorem cstring_eq_nil {buf : List Char} {p : Nat} (null : buf.getD p nul = nul) : cstring buf p = [] := by
  unfold cstring
  cases found : buf.drop p with
  | nil => rfl
  | cons c rest =>
    have here : buf[p]? = some c := by
      rw [← Nat.add_zero p, ← List.getElem?_drop, found, List.getElem?_cons_zero]
    rw [List.getD_eq_getElem?_getD, here, Option.getD_some] at null
    rw [List.takeWhile_cons_of_neg]
    simp [null]

/-- A call that returns a token has moved on. -/
theorem strtok_token {delim : Char} {buf : List Char} {s a : Nat} (token : (strtok delim buf s).token = some a) :
    s < buf.length ∧ s < (strtok delim buf s).saved ∧ (strtok delim buf s).buf.length = buf.length := by
  unfold strtok at token ⊢
  generalize first : s + ((cstring buf s).takeWhile (· = delim)).length = start at token ⊢
  dsimp only at token ⊢
  split at token
  · cases token
  · rename_i some
    have inside : start < buf.length := by
      by_contra outside
      apply some
      rw [cstring, List.drop_eq_nil_of_le (by omega), List.takeWhile_nil]
    rw [if_neg some]
    split
    · rename_i null
      refine ⟨by omega, ?_, rfl⟩
      -- an empty token would start at the null
      rcases Nat.eq_zero_or_pos ((cstring buf start).takeWhile (· ≠ delim)).length with empty | moved
      · rw [empty, Nat.add_zero] at null
        exact absurd (cstring_eq_nil null) some
      · show s < start + _
        omega
    · refine ⟨by omega, ?_, List.length_set⟩
      show s < start + _ + 1
      omega

/-- The number of tokens that can still follow, plus one. -/
def Cut.left (cut : Cut) : Nat :=
  match cut.token with
  | none => 0
  | some _ => cut.buf.length - cut.saved + 1

theorem Cut.left_strtok {cut : Cut} {delim : Char} {a : Nat} (token : cut.token = some a) :
    (strtok delim cut.buf cut.saved).left < cut.left := by
  rw [Cut.left, Cut.left, token]
  split
  · exact Nat.succ_pos _
  · rename_i found
    obtain ⟨inside, moved, length⟩ := strtok_token found
    simp only [length]
    omega

section Loop

variable {m : Type u → Type v} [Monad m] {σ : Type u}

/-- The loop over the tokens from a first call of `strtok` on; the body is given the token and
the string that starts there. -/
def eachToken (delim : Char) (body : σ → Nat → List Char → m σ) (cut : Cut) (st : σ) : m (σ × List Char) :=
  match _ : cut.token with
  | none => pure (st, cut.buf)
  | some a => do
    let st ← body st a (cstring cut.buf a)
    eachToken delim body (strtok delim cut.buf cut.saved) st
termination_by cut.left
decreasing_by exact Cut.left_strtok ‹_›

/-- The tokens of the loop with their strings, and the buffer behind it. -/
def strtokAll (delim : Char) (cut : Cut) : List (Nat × List Char) × List Char :=
  match _ : cut.token with
  | none => ([], cut.buf)
  | some a =>
    let rest := strtokAll delim (strtok delim cut.buf cut.saved)
    ((a, cstring cut.buf a) :: rest.1, rest.2)
termination_by cut.left
decreasing_by exact Cut.left_strtok ‹_›

variable {delim : Char} {body : σ → Nat → List Char → m σ} {cut : Cut} {st : σ} {a : Nat}

theorem eachToken_none (none : cut.token = none) : eachToken delim body cut st = pure (st, cut.buf) := by
  rw [eachToken]
  split
  · rfl
  · simp_all

theorem eachToken_some (token : cut.token = some a) :
    eachToken delim body cut st =
      body st a (cstring cut.buf a) >>= eachToken delim body (strtok delim cut.buf cut.saved) := by
  rw [eachToken]
  split
  · simp_all
  · simp_all

theorem strtokAll_none (none : cut.token = none) : strtokAll delim cut = ([], cut.buf) := by
  rw [strtokAll]
  split
  · rfl
  · simp_all

theorem strtokAll_some (token : cut.token = some a) :
    strtokAll delim cut =
      ((a, cstring cut.buf a) :: (strtokAll delim (strtok delim cut.buf cut.saved)).1,
        (strtokAll delim (strtok delim cut.buf cut.saved)).2) := by
  rw [strtokAll]
  split
  · simp_all
  · simp_all

/-- **The loop is a fold over the tokens.** -/
theorem eachToken_eq [LawfulMonad m] (delim : Char) (body : σ → Nat → List Char → m σ) (cut : Cut) (st : σ) :
    eachToken delim body cut st =
      (fun st => (st, (strtokAll delim cut).2)) <$>
        (strtokAll delim cut).1.foldlM (fun st token => body st token.1 token.2) st := by
  induction cut using strtokAll.induct delim generalizing st with
  | case1 cut none =>
    rw [eachToken_none none, strtokAll_none none, List.foldlM_nil, map_pure]
  | case2 cut a token ih =>
    rw [eachToken_some token, strtokAll_some token, List.foldlM_cons, map_bind]
    exact congrArg _ (funext ih)

end Loop

/-! ## The words of a string -/

/-- The maximal runs of characters other than the delimiter. -/
def words (delim : Char) (t : List Char) : List (List Char) := (t.splitOn delim).filter (· ≠ [])

/-- How a string begins: with delimiters only, or with a word behind them that ends the string
or ends at a delimiter. -/
inductive FirstWord (delim : Char) : List Char → Prop
  | blank {lead : List Char} (all : ∀ c ∈ lead, c = delim) : FirstWord delim lead
  | last {lead word : List Char} (all : ∀ c ∈ lead, c = delim) (ne : word ≠ []) (clean : delim ∉ word) :
      FirstWord delim (lead ++ word)
  | more {lead word tail : List Char} (all : ∀ c ∈ lead, c = delim) (ne : word ≠ []) (clean : delim ∉ word) :
      FirstWord delim (lead ++ word ++ delim :: tail)

theorem firstWord (delim : Char) (t : List Char) : FirstWord delim t := by
  have whole := List.takeWhile_append_dropWhile (p := (· = delim)) (l := t)
  have all : ∀ c ∈ t.takeWhile (· = delim), c = delim := fun c mem => by simpa using List.mem_takeWhile_imp mem
  have start := List.head?_dropWhile_not (· = delim) t
  generalize t.takeWhile (· = delim) = lead at whole all
  generalize t.dropWhile (· = delim) = rest at whole start
  obtain rfl := whole
  cases rest with
  | nil =>
    rw [List.append_nil]
    exact .blank all
  | cons c rest =>
    have other : c ≠ delim := by simpa using start
    have whole := List.takeWhile_append_dropWhile (p := (· ≠ delim)) (l := c :: rest)
    have ne : (c :: rest).takeWhile (· ≠ delim) ≠ [] := by
      rw [List.takeWhile_cons_of_pos (by simpa using other)]
      exact List.cons_ne_nil _ _
    have clean : delim ∉ (c :: rest).takeWhile (· ≠ delim) := fun mem => by
      simpa using List.mem_takeWhile_imp mem
    have stop := List.head?_dropWhile_not (· ≠ delim) (c :: rest)
    generalize (c :: rest).takeWhile (· ≠ delim) = word at whole ne clean
    generalize (c :: rest).dropWhile (· ≠ delim) = tail at whole stop
    rw [← whole]
    cases tail with
    | nil =>
      rw [List.append_nil]
      exact .last all ne clean
    | cons d tail =>
      obtain rfl : d = delim := by simpa using stop
      rw [← List.append_assoc]
      exact .more all ne clean

/-- Induction along the words of a string. -/
theorem words_induction (delim : Char) {motive : List Char → Prop}
    (blank : ∀ lead : List Char, (∀ c ∈ lead, c = delim) → motive lead)
    (last : ∀ lead word : List Char, (∀ c ∈ lead, c = delim) → word ≠ [] → delim ∉ word → motive (lead ++ word))
    (more : ∀ lead word tail : List Char, (∀ c ∈ lead, c = delim) → word ≠ [] → delim ∉ word → motive tail →
      motive (lead ++ word ++ delim :: tail))
    (t : List Char) : motive t := by
  induction length : t.length using Nat.strong_induction_on generalizing t with
  | _ n ih =>
    cases firstWord delim t with
    | blank all => exact blank _ all
    | last all ne clean => exact last _ _ all ne clean
    | @more lead word tail all ne clean =>
      have shorter : tail.length < n := by
        rw [← length, List.length_append, List.length_cons]
        omega
      exact more lead word tail all ne clean (ih tail.length shorter tail rfl)

section Words

variable {delim : Char} {lead word tail : List Char}

theorem words_lead (all : ∀ c ∈ lead, c = delim) (t : List Char) : words delim (lead ++ t) = words delim t := by
  induction lead with
  | nil => rfl
  | cons c lead ih =>
    obtain rfl := all c List.mem_cons_self
    rw [← ih fun d mem => all d (List.mem_cons_of_mem c mem)]
    have split := List.splitOn_append_cons_self_of_not_mem (a := c) List.not_mem_nil (lead ++ t)
    rw [words, List.cons_append, ← List.nil_append (c :: (lead ++ t)), split]
    rfl

theorem words_blank (all : ∀ c ∈ lead, c = delim) : words delim lead = [] := by
  rw [← List.append_nil lead, words_lead all]
  rfl

theorem words_last (all : ∀ c ∈ lead, c = delim) (ne : word ≠ []) (clean : delim ∉ word) :
    words delim (lead ++ word) = [word] := by
  rw [words_lead all, words, List.splitOn_eq_singleton clean, List.filter_cons_of_pos (by simpa using ne)]
  rfl

theorem words_more (all : ∀ c ∈ lead, c = delim) (ne : word ≠ []) (clean : delim ∉ word) (tail : List Char) :
    words delim (lead ++ word ++ delim :: tail) = word :: words delim tail := by
  rw [List.append_assoc, words_lead all, words, List.splitOn_append_cons_self_of_not_mem clean,
    List.filter_cons_of_pos (by simpa using ne)]
  rfl

theorem ne_nil_of_mem_words {t : List Char} (mem : word ∈ words delim t) : word ≠ [] := by
  have kept := (List.mem_filter.1 mem).2
  simpa using kept

theorem mem_intercalate {c d : Char} {fields : List (List Char)} (mem : c ∈ [d].intercalate fields) :
    c = d ∨ ∃ field ∈ fields, c ∈ field := by
  induction fields with
  | nil => cases mem
  | cons field fields ih =>
    rcases eq_or_ne fields [] with rfl | more
    · rw [List.intercalate_singleton] at mem
      exact .inr ⟨field, List.mem_cons_self, mem⟩
    · rw [List.intercalate_cons_of_ne_nil more] at mem
      rcases List.mem_append.1 mem with mem | later
      · rcases List.mem_append.1 mem with here | between
        · exact .inr ⟨field, List.mem_cons_self, here⟩
        · exact .inl (List.mem_singleton.1 between)
      · rcases ih later with between | ⟨field', mem', inside⟩
        · exact .inl between
        · exact .inr ⟨field', List.mem_cons_of_mem field mem', inside⟩

/-- Fields that are not empty and free of the delimiter are the words of the string, but for what
comes behind the last one. -/
theorem words_intercalate {fields : List (List Char)} {i : Nat} (ne : ∀ field ∈ fields, field ≠ [])
    (clean : ∀ field ∈ fields, delim ∉ field) (ending : List Char) (before : i + 1 < fields.length) :
    (words delim ([delim].intercalate fields ++ ending))[i]? = fields[i]? := by
  induction fields generalizing i with
  | nil => cases before
  | cons field fields ih =>
    have more : fields ≠ [] := by
      rintro rfl
      simp at before
    have shape : [delim].intercalate (field :: fields) ++ ending =
        [] ++ field ++ delim :: ([delim].intercalate fields ++ ending) := by
      rw [List.intercalate_cons_of_ne_nil more]
      simp
    rw [shape, words_more (by simp) (ne field List.mem_cons_self) (clean field List.mem_cons_self)]
    cases i with
    | zero => rfl
    | succ i =>
      rw [List.getElem?_cons_succ, List.getElem?_cons_succ]
      exact ih (fun field mem => ne field (List.mem_cons_of_mem _ mem))
        (fun field mem => clean field (List.mem_cons_of_mem _ mem)) (by simpa using before)

theorem subset_of_mem_words {t : List Char} (mem : word ∈ words delim t) : word ⊆ t ∧ delim ∉ word := by
  induction t using words_induction delim with
  | blank lead all =>
    rw [words_blank all] at mem
    cases mem
  | last lead first all ne clean =>
    rw [words_last all ne clean] at mem
    obtain rfl := List.mem_singleton.1 mem
    exact ⟨List.subset_append_right _ _, clean⟩
  | more lead first tail all ne clean ih =>
    rw [words_more all ne clean] at mem
    rcases List.mem_cons.1 mem with rfl | later
    · exact ⟨fun c mem => List.mem_append_left _ (List.mem_append_right _ mem), clean⟩
    · obtain ⟨inside, clean'⟩ := ih later
      exact ⟨fun c mem => List.mem_append_right _ (List.mem_cons_of_mem _ (inside mem)), clean'⟩

/-- Words are separated. -/
theorem length_words_le (delim : Char) (t : List Char) : 2 * (words delim t).length ≤ t.length + 1 := by
  induction t using words_induction delim with
  | blank lead all =>
    rw [words_blank all, List.length_nil]
    omega
  | last lead word all ne clean =>
    have positive := List.length_pos_iff.2 ne
    rw [words_last all ne clean, List.length_singleton, List.length_append]
    omega
  | more lead word tail all ne clean ih =>
    have positive := List.length_pos_iff.2 ne
    rw [words_more all ne clean, List.length_cons, List.length_append, List.length_append, List.length_cons]
    omega

/-- Characters in front change the first word at most. -/
theorem words_tail_drop {t : List Char} {k : Nat} (mem : word ∈ (words delim (t.drop k)).tail) :
    word ∈ (words delim t).tail := by
  induction k generalizing t with
  | zero => exact mem
  | succ k ih =>
    cases t with
    | nil => exact mem
    | cons c t =>
      have later := ih mem
      obtain ⟨first, rest, split⟩ := List.exists_cons_of_ne_nil (List.splitOn_ne_nil delim t)
      rw [words, split] at later
      have more : word ∈ rest.filter (· ≠ []) := by
        by_cases empty : first = []
        · rw [List.filter_cons_of_neg (by simp [empty])] at later
          exact List.mem_of_mem_tail later
        · rw [List.filter_cons_of_pos (by simpa using empty)] at later
          exact later
      rw [words, List.splitOn_cons_eq_if_modifyHead, split]
      by_cases same : c = delim
      · rw [if_pos (by simpa using same), List.filter_cons_of_neg (by simp)]
        exact later
      · rw [if_neg (by simpa using same), List.modifyHead_cons, List.filter_cons_of_pos (by simp)]
        exact more

end Words

section Buffer

variable (pre : List Char) {delim : Char} {t lead word tail rest : List Char}

/-- The string between the characters before it and the null that ends it. -/
theorem cstring_append (clean : nul ∉ t) (ends : rest.getD 0 nul = nul) :
    cstring (pre ++ t ++ rest) pre.length = t := by
  have stops : rest.takeWhile (· ≠ nul) = [] := cstring_eq_nil (p := 0) ends
  rw [cstring, List.append_assoc, List.drop_left, List.takeWhile_append_of_pos, stops, List.append_nil]
  intro c mem
  have ne : c ≠ nul := fun null => clean (null ▸ mem)
  simpa using ne

theorem takeWhile_lead (all : ∀ c ∈ lead, c = delim) (stop : ∀ c ∈ t.head?, c ≠ delim) :
    (lead ++ t).takeWhile (· = delim) = lead := by
  rw [List.takeWhile_append_of_pos fun c mem => by simpa using all c mem]
  cases t with
  | nil => rw [List.takeWhile_nil, List.append_nil]
  | cons c t =>
    have other := stop c rfl
    rw [List.takeWhile_cons_of_neg (by simpa using other), List.append_nil]

/-- A word does not begin with the delimiter. -/
theorem head_ne_delim (clean : delim ∉ word) (ne : word ≠ []) (t : List Char) :
    ∀ c ∈ (word ++ t).head?, c ≠ delim := by
  cases word with
  | nil => exact absurd rfl ne
  | cons c word =>
    rintro d ⟨⟩ same
    exact clean (same ▸ List.mem_cons_self)

theorem takeWhile_word (clean : delim ∉ word) (stop : ∀ c ∈ t.head?, c = delim) :
    (word ++ t).takeWhile (· ≠ delim) = word := by
  rw [List.takeWhile_append_of_pos]
  · cases t with
    | nil => rw [List.takeWhile_nil, List.append_nil]
    | cons c t => rw [List.takeWhile_cons_of_neg (by simpa using stop c rfl), List.append_nil]
  · intro c mem
    have ne : c ≠ delim := fun same => clean (same ▸ mem)
    simpa using ne

theorem strtok_blank (clean : nul ∉ lead) (ends : rest.getD 0 nul = nul) (all : ∀ c ∈ lead, c = delim) :
    strtok delim (pre ++ lead ++ rest) pre.length = ⟨pre ++ lead ++ rest, none, (pre ++ lead).length⟩ := by
  have skip : lead.takeWhile (· = delim) = lead := List.takeWhile_eq_self_iff.2 fun c mem => by simpa using all c mem
  have none := cstring_append (pre ++ lead) (t := []) List.not_mem_nil ends
  rw [List.append_nil] at none
  simp only [strtok, cstring_append _ clean ends, skip, ← List.length_append, none, if_pos]

/-- What `strtok` finds where a word begins. -/
theorem strtok_word (clean : nul ∉ lead ++ word ++ t) (ends : rest.getD 0 nul = nul) (all : ∀ c ∈ lead, c = delim)
    (ne : word ≠ []) (wordClean : delim ∉ word) (stop : ∀ c ∈ t.head?, c = delim) :
    strtok delim (pre ++ (lead ++ word ++ t) ++ rest) pre.length =
      if (t ++ rest).getD 0 nul = nul then
        ⟨pre ++ (lead ++ word ++ t) ++ rest, some (pre ++ lead).length, (pre ++ lead ++ word).length⟩
      else
        ⟨(pre ++ (lead ++ word ++ t) ++ rest).set (pre ++ lead ++ word).length nul, some (pre ++ lead).length,
          (pre ++ lead ++ word).length + 1⟩ := by
  have skip : (lead ++ word ++ t).takeWhile (· = delim) = lead := by
    rw [List.append_assoc]
    exact takeWhile_lead all (head_ne_delim wordClean ne t)
  have start : cstring (pre ++ (lead ++ word ++ t) ++ rest) (pre ++ lead).length = word ++ t := by
    have shape : pre ++ (lead ++ word ++ t) ++ rest = pre ++ lead ++ (word ++ t) ++ rest := by simp
    rw [shape]
    apply cstring_append _ _ ends
    intro mem
    rw [List.append_assoc] at clean
    exact clean (List.mem_append_right lead mem)
  have some : word ++ t ≠ [] := fun none => ne (List.append_eq_nil_iff.1 none).1
  have behind : (pre ++ (lead ++ word ++ t) ++ rest).getD (pre ++ lead ++ word).length nul =
      (t ++ rest).getD 0 nul := by
    have shape : pre ++ (lead ++ word ++ t) ++ rest = pre ++ lead ++ word ++ (t ++ rest) := by simp
    rw [shape, List.getD_append_right _ _ _ _ (Nat.le_refl _), Nat.sub_self]
  simp only [strtok, cstring_append _ clean ends, skip, ← List.length_append, start, some, if_false,
    takeWhile_word wordClean stop, behind]

theorem strtok_last (clean : nul ∉ lead ++ word) (ends : rest.getD 0 nul = nul) (all : ∀ c ∈ lead, c = delim)
    (ne : word ≠ []) (wordClean : delim ∉ word) :
    strtok delim (pre ++ (lead ++ word) ++ rest) pre.length =
      ⟨pre ++ (lead ++ word) ++ rest, some (pre ++ lead).length, (pre ++ lead ++ word).length⟩ := by
  have found := strtok_word pre (t := []) (by rwa [List.append_nil]) ends all ne wordClean (by simp)
  rw [List.append_nil, List.nil_append, if_pos ends] at found
  exact found

theorem strtok_more (clean : nul ∉ lead ++ word ++ delim :: tail) (ends : rest.getD 0 nul = nul)
    (all : ∀ c ∈ lead, c = delim) (ne : word ≠ []) (wordClean : delim ∉ word) :
    strtok delim (pre ++ (lead ++ word ++ delim :: tail) ++ rest) pre.length =
      ⟨pre ++ (lead ++ word ++ nul :: tail) ++ rest, some (pre ++ lead).length, (pre ++ lead ++ word).length + 1⟩ := by
  have found := strtok_word pre (t := delim :: tail) clean ends all ne wordClean (by simp)
  have other : ¬ (delim :: tail ++ rest).getD 0 nul = nul := fun null =>
    clean (List.mem_append_right _ (null ▸ List.mem_cons_self))
  rw [if_neg other] at found
  rw [found]
  have shape : pre ++ (lead ++ word ++ delim :: tail) ++ rest = pre ++ lead ++ word ++ delim :: (tail ++ rest) := by
    simp
  rw [shape, List.set_append_right _ _ (Nat.le_refl _), Nat.sub_self, List.set_cons_zero]
  simp

theorem strtokAll_blank (clean : nul ∉ lead) (ends : rest.getD 0 nul = nul) (all : ∀ c ∈ lead, c = delim) :
    strtokAll delim (strtok delim (pre ++ lead ++ rest) pre.length) = ([], pre ++ lead ++ rest) := by
  rw [strtok_blank _ clean ends all, strtokAll_none rfl]

theorem strtokAll_last (clean : nul ∉ lead ++ word) (ends : rest.getD 0 nul = nul) (all : ∀ c ∈ lead, c = delim)
    (ne : word ≠ []) (wordClean : delim ∉ word) :
    strtokAll delim (strtok delim (pre ++ (lead ++ word) ++ rest) pre.length) =
      ([((pre ++ lead).length, word)], pre ++ (lead ++ word) ++ rest) := by
  have shape : pre ++ (lead ++ word) ++ rest = pre ++ lead ++ word ++ rest := by simp
  have here : cstring (pre ++ lead ++ word ++ rest) (pre ++ lead).length = word :=
    cstring_append _ (fun mem => clean (List.mem_append_right _ mem)) ends
  have behind : strtokAll delim (strtok delim (pre ++ lead ++ word ++ [] ++ rest) (pre ++ lead ++ word).length) = _ :=
    strtokAll_blank (pre ++ lead ++ word) List.not_mem_nil ends (by simp)
  rw [List.append_nil] at behind
  rw [strtok_last _ clean ends all ne wordClean, strtokAll_some rfl, shape]
  simp only [here, behind]

theorem strtokAll_more (clean : nul ∉ lead ++ word ++ delim :: tail) (ends : rest.getD 0 nul = nul)
    (all : ∀ c ∈ lead, c = delim) (ne : word ≠ []) (wordClean : delim ∉ word) :
    strtokAll delim (strtok delim (pre ++ (lead ++ word ++ delim :: tail) ++ rest) pre.length) =
      (((pre ++ lead).length, word) ::
          (strtokAll delim (strtok delim (pre ++ lead ++ word ++ [nul] ++ tail ++ rest)
            (pre ++ lead ++ word ++ [nul]).length)).1,
        (strtokAll delim (strtok delim (pre ++ lead ++ word ++ [nul] ++ tail ++ rest)
          (pre ++ lead ++ word ++ [nul]).length)).2) := by
  have shape : pre ++ (lead ++ word ++ nul :: tail) ++ rest = pre ++ lead ++ word ++ (nul :: tail ++ rest) := by simp
  have shape' : pre ++ lead ++ word ++ (nul :: tail ++ rest) = pre ++ lead ++ word ++ [nul] ++ tail ++ rest := by simp
  have wordNul : nul ∉ word := fun mem => clean (List.mem_append_left _ (List.mem_append_right _ mem))
  have here : cstring (pre ++ lead ++ word ++ (nul :: tail ++ rest)) (pre ++ lead).length = word :=
    cstring_append _ wordNul rfl
  have saved : (pre ++ lead ++ word).length + 1 = (pre ++ lead ++ word ++ [nul]).length := by
    simp only [List.length_append, List.length_singleton]
  rw [strtok_more _ clean ends all ne wordClean, strtokAll_some rfl]
  simp only [saved, shape, here]
  rw [shape']

end Buffer

/-- What the loop over the tokens of `t`, between `pre` and `rest`, sees and leaves. -/
theorem strtokAll_spec (delim : Char) {t : List Char} (clean : nul ∉ t) (pre : List Char) {rest : List Char}
    (ends : rest.getD 0 nul = nul) {tokens : List (Nat × List Char)} {buf : List Char}
    (run : strtokAll delim (strtok delim (pre ++ t ++ rest) pre.length) = (tokens, buf)) :
    tokens.map Prod.snd = words delim t ∧
      tokens.Pairwise (fun token later => token.1 + token.2.length < later.1) ∧
      (∀ token ∈ tokens, pre.length ≤ token.1 ∧ cstring buf token.1 = token.2) ∧
      ∃ t', t'.length = t.length ∧ buf = pre ++ t' ++ rest := by
  induction t using words_induction delim generalizing pre tokens buf with
  | blank lead all =>
    rw [strtokAll_blank _ clean ends all] at run
    obtain ⟨rfl, rfl⟩ := Prod.mk.inj run
    rw [words_blank all]
    exact ⟨rfl, .nil, by simp, lead, rfl, rfl⟩
  | last lead word all ne wordClean =>
    rw [strtokAll_last _ clean ends all ne wordClean] at run
    obtain ⟨rfl, rfl⟩ := Prod.mk.inj run
    rw [words_last all ne wordClean]
    refine ⟨rfl, List.pairwise_singleton _ _, fun token mem => ?_, lead ++ word, rfl, rfl⟩
    obtain rfl := List.mem_singleton.1 mem
    refine ⟨by simp, ?_⟩
    rw [← List.append_assoc]
    exact cstring_append _ (fun mem => clean (List.mem_append_right _ mem)) ends
  | more lead word tail all ne wordClean ih =>
    have tailClean : nul ∉ tail := fun mem => clean (List.mem_append_right _ (List.mem_cons_of_mem _ mem))
    have wordNul : nul ∉ word := fun mem => clean (List.mem_append_left _ (List.mem_append_right _ mem))
    rw [strtokAll_more _ clean ends all ne wordClean] at run
    obtain ⟨rfl, rfl⟩ := Prod.mk.inj run
    generalize found : strtokAll delim (strtok delim (pre ++ lead ++ word ++ [nul] ++ tail ++ rest)
      (pre ++ lead ++ word ++ [nul]).length) = later
    obtain ⟨texts, order, strings, t', same, buffer⟩ := ih tailClean (pre ++ lead ++ word ++ [nul]) found
    simp only [List.length_append, List.length_singleton] at strings
    rw [words_more all ne wordClean]
    refine ⟨by rw [List.map_cons, texts], List.pairwise_cons.2 ⟨fun token mem => ?_, order⟩, fun token mem => ?_,
      lead ++ word ++ nul :: t', by simp [same], by simp [buffer]⟩
    · have below := (strings token mem).1
      simp only [List.length_append]
      omega
    · rcases List.mem_cons.1 mem with rfl | later
      · refine ⟨by simp, ?_⟩
        have shape : pre ++ lead ++ word ++ [nul] ++ t' ++ rest = pre ++ lead ++ word ++ (nul :: t' ++ rest) := by simp
        rw [buffer, shape]
        exact cstring_append _ wordNul rfl
      · obtain ⟨below, string⟩ := strings token later
        exact ⟨by omega, string⟩

theorem nul_notMem_cstring (buf : List Char) (p : Nat) : nul ∉ cstring buf p := fun mem => by
  simpa using List.mem_takeWhile_imp mem

theorem lt_length_of_cstring {buf : List Char} {p : Nat} (some : cstring buf p ≠ []) : p < buf.length := by
  by_contra outside
  apply some
  rw [cstring, List.drop_eq_nil_of_le (by omega), List.takeWhile_nil]

theorem cstring_of_clean {t : List Char} (clean : nul ∉ t) : cstring t 0 = t := by
  rw [cstring, List.drop_zero, List.takeWhile_eq_self_iff]
  intro c mem
  have ne : c ≠ nul := fun null => clean (null ▸ mem)
  simpa using ne

/-- The buffer around the string at an address. -/
theorem cstring_split {buf : List Char} {p : Nat} (inside : p ≤ buf.length) :
    ∃ pre rest, buf = pre ++ cstring buf p ++ rest ∧ pre.length = p ∧ rest.getD 0 nul = nul := by
  refine ⟨buf.take p, (buf.drop p).dropWhile (· ≠ nul), ?_, List.length_take_of_le inside, ?_⟩
  · rw [cstring, List.append_assoc, List.takeWhile_append_dropWhile, List.take_append_drop]
  · have stop := List.head?_dropWhile_not (· ≠ nul) (buf.drop p)
    cases found : (buf.drop p).dropWhile (· ≠ nul) with
    | nil => rfl
    | cons c rest =>
      rw [found, List.head?_cons] at stop
      simpa using stop

/-- What the loop over the tokens of the string at `p` sees and leaves. -/
structure Tokens (delim : Char) (buf : List Char) (p : Nat) (tokens : List (Nat × List Char)) (buf' : List Char) :
    Prop where
  texts : tokens.map Prod.snd = words delim (cstring buf p)
  order : tokens.Pairwise fun token later => token.1 + token.2.length < later.1
  strings : ∀ token ∈ tokens, cstring buf' token.1 = token.2
  behind : ∀ q, p + (cstring buf p).length ≤ q → cstring buf' q = cstring buf q

/-- **The loop visits the words of the string** and leaves each at its address; nothing
behind the string is changed. -/
theorem tokens_of_strtokAll (delim : Char) {buf : List Char} {p : Nat} (inside : p ≤ buf.length) :
    Tokens delim buf p (strtokAll delim (strtok delim buf p)).1 (strtokAll delim (strtok delim buf p)).2 := by
  obtain ⟨pre, rest, shape, length, ends⟩ := cstring_split inside
  have clean := nul_notMem_cstring buf p
  generalize cstring buf p = t at shape clean
  subst shape length
  have string := cstring_append pre clean ends
  obtain ⟨texts, order, strings, t', same, buffer⟩ := strtokAll_spec delim clean pre ends rfl
  refine ⟨by rw [texts, string], order, fun token mem => (strings token mem).2, fun q le => ?_⟩
  rw [string] at le
  have beyond : ∀ t : List Char, pre.length + t.length ≤ q →
      (pre ++ t ++ rest).drop q = rest.drop (q - (pre.length + t.length)) := by
    intro t le
    rw [List.drop_append, List.length_append, List.drop_eq_nil_of_le (by rwa [List.length_append]), List.nil_append]
  rw [buffer, cstring, cstring, beyond t' (by omega), beyond t le, same]

/-- What `strlen` finds after the first cut: the delimiters before the first word, and the word. -/
theorem strlen_strtok (delim : Char) (buf : List Char) :
    strlen (strtok delim buf 0).buf 0 =
      ((cstring buf 0).takeWhile (· = delim)).length + ((words delim (cstring buf 0)).headD []).length := by
  obtain ⟨pre, rest, shape, length, ends⟩ := cstring_split (Nat.zero_le buf.length)
  obtain rfl := List.length_eq_zero_iff.1 length
  have clean := nul_notMem_cstring buf 0
  generalize cstring buf 0 = t at shape clean ⊢
  subst shape
  cases firstWord delim t with
  | blank all =>
    have whole : t.takeWhile (· = delim) = t := List.takeWhile_eq_self_iff.2 fun c mem => by simpa using all c mem
    have cut := strtok_blank [] clean ends all
    rw [List.length_nil] at cut
    rw [cut, words_blank all, whole, strlen]
    exact congrArg List.length (cstring_append [] clean ends)
  | @last lead word all ne wordClean =>
    have skip := takeWhile_lead all (head_ne_delim wordClean ne [])
    have cut := strtok_last [] clean ends all ne wordClean
    rw [List.length_nil] at cut
    rw [List.append_nil] at skip
    rw [cut, words_last all ne wordClean, skip, strlen, List.headD_cons, ← List.length_append]
    exact congrArg List.length (cstring_append [] clean ends)
  | @more lead word tail all ne wordClean =>
    have skip := takeWhile_lead all (head_ne_delim wordClean ne (delim :: tail))
    have cut := strtok_more [] clean ends all ne wordClean
    rw [List.length_nil] at cut
    rw [← List.append_assoc] at skip
    rw [cut, words_more all ne wordClean, skip, strlen, List.headD_cons, ← List.length_append]
    have shape : [] ++ (lead ++ word ++ nul :: tail) ++ rest = [] ++ (lead ++ word) ++ (nul :: tail ++ rest) := by simp
    have before : nul ∉ lead ++ word := fun mem => clean (List.mem_append_left _ mem)
    rw [shape]
    exact congrArg List.length (cstring_append [] before rfl)

/-! ## `fgets` -/

/-- `fgets(str, size, stream)`: the characters it stores and the rest of the stream; `none` at
its end. -/
def fgets (size : Nat) (stream : List Char) : Option (List Char × List Char) :=
  if stream = [] then none
  else
    let n := min (size - 1) ((stream.takeWhile (· ≠ '\n')).length + 1)
    some (stream.take n, stream.drop n)

section Streams

variable {size : Nat} {line chunk rest stream : List Char}

/-- Each call with room for a character makes the stream shorter. -/
theorem fgets_shorter (room : 2 ≤ size) (read : fgets size stream = some (chunk, rest)) :
    rest.length < stream.length := by
  unfold fgets at read
  split at read
  · cases read
  · rename_i some
    obtain ⟨-, rfl⟩ := Prod.mk.inj (Option.some.inj read)
    have positive := List.length_pos_iff.2 some
    rw [List.length_drop]
    omega

/-- A line that fits is read with its newline. -/
theorem fgets_line (oneLine : '\n' ∉ line) (fits : line.length + 2 ≤ size) (rest : List Char) :
    fgets size (line ++ '\n' :: rest) = some (line ++ ['\n'], rest) := by
  have ends := takeWhile_word oneLine (t := '\n' :: rest) (by simp)
  have shape : line ++ '\n' :: rest = line ++ ['\n'] ++ rest := by simp
  have length : line.length + 1 = (line ++ ['\n']).length := by simp
  simp only [fgets, ends]
  rw [if_neg (by simp), Nat.min_eq_right (by omega), shape, length, List.take_left, List.drop_left]

/-- So is the last line without a newline. -/
theorem fgets_last (ne : line ≠ []) (oneLine : '\n' ∉ line) (fits : line.length + 1 ≤ size) :
    fgets size line = some (line, []) := by
  have ends := takeWhile_word oneLine (t := []) (by simp)
  rw [List.append_nil] at ends
  simp only [fgets, ends]
  rw [if_neg ne, List.take_of_length_le (by omega), List.drop_eq_nil_of_le (by omega)]

/-- A line that does not fit is cut. -/
theorem fgets_long (ne : line ≠ []) (oneLine : '\n' ∉ line) (long : size ≤ line.length + 1) (rest : List Char) :
    fgets size (line ++ rest) = some (line.take (size - 1), (line ++ rest).drop (size - 1)) := by
  have noNewline : ∀ c ∈ line, (decide (c ≠ '\n')) = true := fun c mem => by
    have other : c ≠ '\n' := fun same => oneLine (same ▸ mem)
    simpa using other
  have full : min (size - 1) (((line ++ rest).takeWhile (· ≠ '\n')).length + 1) = size - 1 := by
    rw [List.takeWhile_append_of_pos noNewline, List.length_append]
    omega
  simp only [fgets, full]
  rw [if_neg (by simp [ne]), List.take_append_of_le_length (by omega)]

end Streams

end CSC360.Base
