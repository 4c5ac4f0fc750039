import CSC360.Base.Chain

/-!
# The process list

The routines of `PMan.c` that walk the list from `head`: the insertion at the end in
`bg_entry`, `check_pid`, `removeNode`, the loop of `bglist_entry`. A walk gets as much
fuel as there are addresses; `none` stands for a null or dangling pointer, or for a
walk that does not end. On a list that ends in null (`Seg`) none of this happens, and
each routine does on the list what its name says.
-/

namespace CSC360.PMan

open CSC360.Base

/-- The C struct `Node`. -/
structure Node where
  pid : Int
  command : List Char
  deriving DecidableEq

/-- The loop `while(curr->next!=NULL)` of `bg_entry`: the last node. -/
def lastNode (h : Heap Node) : Nat → Nat → Option Nat
  | 0, _ => none
  | fuel + 1, curr => do
    let node ← h.cell curr
    match node.next with
    | none => return curr
    | some next => lastNode h fuel next

/-- The part of `bg_entry` that inserts the new node. -/
def insertNode (h : Heap Node) (head : Option Nat) (n1 : Node) : Option (Heap Node × Option Nat) :=
  let new := h.bound
  let h := h.alloc n1
  match head with
  | none => some (h, some new)
  | some curr => do
    let last ← lastNode h h.bound curr
    let h ← h.setNext last (some new)
    return (h, head)

/-- 0 when the list has a node with the pid, 1 otherwise. -/
def checkPid (h : Heap Node) (pid : Int) : Nat → Option Nat → Option Int
  | _, none => some 1
  | 0, some _ => none
  | fuel + 1, some curr => do
    let node ← h.cell curr
    if node.val.pid = pid then return 0
    checkPid h pid fuel node.next

/-- The loop of `removeNode`: the nodes `prev` and `curr` at its end. -/
def removeWalk (h : Heap Node) (pidRemove : Int) : Nat → Option Nat → Option Nat → Option (Option Nat × Option Nat)
  | _, prev, none => some (prev, none)
  | 0, _, some _ => none
  | fuel + 1, prev, some curr => do
    let node ← h.cell curr
    if node.val.pid = pidRemove then return (prev, some curr)
    removeWalk h pidRemove fuel (some curr) node.next

def removeNode (h : Heap Node) (head : Option Nat) (pidRemove : Int) : Option (Heap Node × Option Nat) :=
  match head with
  | none => some (h, none)
  | some first => do
    let node ← h.cell first
    if node.val.pid = pidRemove then
      let h ← h.free first
      return (h, node.next)
    match ← removeWalk h pidRemove h.bound none head with
    | (_, none) => return (h, head)
    | (prev, some curr) =>
      let node ← h.cell curr
      let prev ← prev
      let h ← h.setNext prev node.next
      let h ← h.free curr
      return (h, head)

/-- The nodes that `bglist_entry` prints. -/
def listNodes (h : Heap Node) : Nat → Option Nat → Option (List Node)
  | _, none => some []
  | 0, some _ => none
  | fuel + 1, some curr => do
    let node ← h.cell curr
    let rest ← listNodes h fuel node.next
    return node.val :: rest

variable {h : Heap Node} {p head : Option Nat} {l : List (Nat × Node)} {fuel : Nat} {pid : Int}

/-- The pids of the nodes. -/
def pids (l : List (Nat × Node)) : List Int := l.map fun c => c.2.pid

theorem pids_cons (c : Nat × Node) : pids (c :: l) = c.2.pid :: pids l := rfl

theorem lastNode_eq {a b : Nat} {v : Node} (seg : Seg h (some b) (l ++ [(a, v)]) none)
    (enough : l.length < fuel) : lastNode h fuel b = some a := by
  induction l generalizing b fuel with
  | nil =>
    obtain ⟨same, next, found, rest⟩ := seg
    obtain rfl := Option.some.inj same
    obtain rfl : next = none := rest
    cases fuel with
    | zero => cases enough
    | succ fuel => simp only [lastNode, found, Option.bind_eq_bind, Option.bind_some, Option.pure_def]
  | cons c l ih =>
    obtain ⟨same, next, found, rest⟩ := seg
    obtain rfl := Option.some.inj same
    cases fuel with
    | zero => cases enough
    | succ fuel =>
      -- the list goes on, so the next pointer is not null
      obtain ⟨d, rfl⟩ : ∃ d, next = some d := by
        cases l with
        | nil => exact ⟨_, rest.1⟩
        | cons d l => exact ⟨_, rest.1⟩
      simp only [lastNode, found, Option.bind_eq_bind, Option.bind_some]
      exact ih rest (by simpa using enough)

theorem insertNode_eq (seg : Seg h head l none) (n1 : Node) :
    ∃ h' head', insertNode h head n1 = some (h', head') ∧ Seg h' head' (l ++ [(h.bound, n1)]) none := by
  have new : (h.alloc n1).cell h.bound = some ⟨n1, none⟩ := Function.update_self _ _ _
  have seg' : Seg (h.alloc n1) head l none := seg.frame fun b mem =>
    Function.update_of_ne (Nat.ne_of_lt (seg.lt_bound mem)) _ _
  rcases l.eq_nil_or_concat' with rfl | ⟨before, ⟨a, v⟩, rfl⟩
  · obtain rfl : head = none := seg
    exact ⟨_, _, rfl, rfl, none, new, rfl⟩
  · have outside : h.bound ∉ (before ++ [(a, v)]).map Prod.fst := fun mem => Nat.lt_irrefl _ (seg.lt_bound mem)
    obtain ⟨h', write, linked, -⟩ := seg'.link new outside
    obtain ⟨b, rfl⟩ : ∃ b, head = some b := by
      cases before with
      | nil => exact ⟨_, seg.1⟩
      | cons c before => exact ⟨_, seg.1⟩
    have enough := seg'.length_le_bound
    rw [List.length_append, List.length_singleton] at enough
    have last := lastNode_eq seg' enough
    refine ⟨h', some b, ?_, linked⟩
    simp only [insertNode, last, write, Option.bind_eq_bind, Option.bind_some, Option.pure_def]

theorem checkPid_eq (seg : Seg h p l none) (enough : l.length ≤ fuel) :
    checkPid h pid fuel p = some (if pid ∈ pids l then 0 else 1) := by
  induction l generalizing p fuel with
  | nil =>
    obtain rfl : p = none := seg
    rw [checkPid]
    simp [pids]
  | cons c l ih =>
    obtain ⟨a, v⟩ := c
    obtain ⟨rfl, next, found, rest⟩ := seg
    cases fuel with
    | zero => cases enough
    | succ fuel =>
      simp only [checkPid, found, Option.bind_eq_bind, Option.bind_some]
      rw [pids_cons]
      by_cases here : v.pid = pid
      · simp [here]
      · rw [if_neg here]
        simp [ih rest (by simpa using enough), Ne.symm here]

/-- The loop ends at the first node with the pid, `prev` at the node before it. -/
theorem removeWalk_eq (pid : Int) (prev : Option Nat) (seg : Seg h p l none) (enough : l.length ≤ fuel) :
    removeWalk h pid fuel prev p =
      some ((prev.toList ++ (l.takeWhile fun c => c.2.pid ≠ pid).map Prod.fst).getLast?,
        (l.find? fun c => c.2.pid = pid).map Prod.fst) := by
  induction l generalizing p prev fuel with
  | nil =>
    obtain rfl : p = none := seg
    rw [removeWalk]
    cases prev <;> simp
  | cons c l ih =>
    obtain ⟨a, v⟩ := c
    obtain ⟨rfl, next, found, rest⟩ := seg
    cases fuel with
    | zero => cases enough
    | succ fuel =>
      simp only [removeWalk, found, Option.bind_eq_bind, Option.bind_some]
      by_cases here : v.pid = pid
      · rw [if_pos here]
        cases prev <;> simp [here]
      · rw [if_neg here, ih (some a) rest (by simpa using enough)]
        cases prev <;> simp [here, List.getLast?_cons_cons]

theorem notMem_pids : pid ∉ pids l ↔ ∀ c ∈ l, c.2.pid ≠ pid := by
  simp [pids]

theorem find?_none_iff : l.find? (fun c => c.2.pid = pid) = none ↔ pid ∉ pids l := by
  simp [notMem_pids, List.find?_eq_none]

theorem eraseP_absent (absent : pid ∉ pids l) : (l.eraseP fun c => c.2.pid = pid) = l :=
  List.eraseP_of_forall_not (List.find?_eq_none.1 (find?_none_iff.2 absent))

/-- A node with the pid is found at a place of the list; those before it have other pids. -/
theorem find?_split {b : Nat} {w : Node} (found : l.find? (fun c => c.2.pid = pid) = some (b, w)) :
    ∃ before after, l = before ++ (b, w) :: after ∧ w.pid = pid ∧ pid ∉ pids before ∧
      (l.eraseP fun c => c.2.pid = pid) = before ++ after := by
  obtain ⟨same, before, after, rfl, others⟩ := List.find?_eq_some_iff_append.1 found
  refine ⟨before, after, rfl, of_decide_eq_true same, notMem_pids.2 (by simpa using others), ?_⟩
  rw [List.eraseP_append_right _ (by simpa using others), List.eraseP_cons_of_pos (by simpa using same)]

/-- Without a node with the pid, the loop runs to the end. -/
theorem removeNode_absent (seg : Seg h head l none) (absent : pid ∉ pids l) :
    removeNode h head pid = some (h, head) := by
  cases l with
  | nil =>
    obtain rfl : head = none := seg
    rw [removeNode]
  | cons c l =>
    obtain ⟨a, v⟩ := c
    have walk := removeWalk_eq pid none seg seg.length_le_bound
    rw [find?_none_iff.2 absent, Option.map_none] at walk
    obtain ⟨rfl, next, found, rest⟩ := seg
    have other : v.pid ≠ pid := notMem_pids.1 absent (a, v) List.mem_cons_self
    simp only [removeNode, found, Option.bind_eq_bind, Option.bind_some, other, if_false, walk, Option.pure_def]

theorem removeNode_first {b : Nat} {w : Node} (seg : Seg h head ((b, w) :: l) none) (same : w.pid = pid) :
    ∃ h' head', removeNode h head pid = some (h', head') ∧ Deleted h h' head' b l := by
  obtain ⟨next, h', found, free, deleted⟩ := seg.pop
  obtain ⟨rfl, -⟩ := seg
  refine ⟨h', next, ?_, deleted⟩
  simp only [removeNode, found, Option.bind_eq_bind, Option.bind_some, same, if_true, free, Option.pure_def]

/-- Behind a node with another pid, the loop stops at the first node with the pid. -/
theorem removeNode_later {before after : List (Nat × Node)} {a b : Nat} {v w : Node}
    (seg : Seg h head (before ++ [(a, v)] ++ (b, w) :: after) none) (others : pid ∉ pids (before ++ [(a, v)]))
    (same : w.pid = pid) :
    ∃ h', removeNode h head pid = some (h', head) ∧ Deleted h h' head b (before ++ [(a, v)] ++ after) := by
  have passed := notMem_pids.1 others
  have stops : ((before ++ [(a, v)] ++ (b, w) :: after).takeWhile fun c => c.2.pid ≠ pid) = before ++ [(a, v)] := by
    rw [List.takeWhile_append_of_pos (by simpa using passed), List.takeWhile_cons_of_neg (by simpa using same),
      List.append_nil]
  have first : (before ++ [(a, v)] ++ (b, w) :: after).find? (fun c => c.2.pid = pid) = some (b, w) := by
    rw [List.find?_append, find?_none_iff.2 others, List.find?_cons_of_pos (by simpa using same), Option.none_or]
  have walk := removeWalk_eq pid none seg seg.length_le_bound
  rw [stops, first, List.map_append, List.map_singleton, ← List.append_assoc, List.getLast?_concat,
    Option.map_some] at walk
  -- the first node has another pid, so the loop is entered
  obtain ⟨⟨d, u⟩, rest, split⟩ := List.exists_cons_of_ne_nil (List.append_ne_nil_of_right_ne_nil before
    (List.cons_ne_nil (a, v) []))
  have other : u.pid ≠ pid := passed (d, u) (by rw [split]; exact List.mem_cons_self)
  obtain ⟨rfl, next, found, -⟩ : Seg h head ((d, u) :: (rest ++ (b, w) :: after)) none := by
    rw [split] at seg
    exact seg
  rw [List.append_assoc] at seg ⊢
  obtain ⟨next', h₁, h₂, cell, write, free, deleted⟩ := seg.unlink
  refine ⟨h₂, ?_, deleted⟩
  simp only [removeNode, found, Option.bind_eq_bind, Option.bind_some, other, if_false, walk, cell, write, free,
    Option.pure_def]

/-- `removeNode` changes nothing, or deletes the first node with the pid. -/
theorem removeNode_cases (seg : Seg h head l none) (pid : Int) :
    (pid ∉ pids l ∧ removeNode h head pid = some (h, head)) ∨
      ∃ b w h' head', l.find? (fun c => c.2.pid = pid) = some (b, w) ∧
        removeNode h head pid = some (h', head') ∧ Deleted h h' head' b (l.eraseP fun c => c.2.pid = pid) := by
  cases search : l.find? fun c => c.2.pid = pid with
  | none =>
    have absent := find?_none_iff.1 search
    exact .inl ⟨absent, removeNode_absent seg absent⟩
  | some c =>
    obtain ⟨b, w⟩ := c
    obtain ⟨before, after, rfl, same, others, erased⟩ := find?_split search
    rw [erased]
    rcases before.eq_nil_or_concat' with rfl | ⟨front, ⟨a, v⟩, rfl⟩
    · obtain ⟨h', head', removed, deleted⟩ := removeNode_first seg same
      exact .inr ⟨b, w, h', head', rfl, removed, deleted⟩
    · obtain ⟨h', removed, deleted⟩ := removeNode_later seg others same
      exact .inr ⟨b, w, h', head, rfl, removed, deleted⟩

/-- `removeNode` takes out the first node with the pid. -/
theorem removeNode_eq (seg : Seg h head l none) (pid : Int) :
    ∃ h' head', removeNode h head pid = some (h', head') ∧
      Seg h' head' (l.eraseP fun c => c.2.pid = pid) none := by
  rcases removeNode_cases seg pid with ⟨absent, unchanged⟩ | ⟨b, w, h', head', -, removed, deleted⟩
  · refine ⟨h, head, unchanged, ?_⟩
    rw [eraseP_absent absent]
    exact seg
  · exact ⟨h', head', removed, deleted.list⟩

/-- The loop ends on a list of any length. The first node with the pid is deleted and no
other; without one, nothing changes. -/
theorem removeNode_deletes (seg : Seg h head l none) (pid : Int) :
    (∃ r, ∀ fuel, l.length ≤ fuel → removeWalk h pid fuel none head = some r) ∧
      ∃ h' head', removeNode h head pid = some (h', head') ∧
        Seg h' head' (l.eraseP fun c => c.2.pid = pid) none ∧
        (pid ∉ pids l → h' = h ∧ head' = head) ∧
        (pid ∈ pids l → ∃ b w, l.find? (fun c => c.2.pid = pid) = some (b, w) ∧
          Deleted h h' head' b (l.eraseP fun c => c.2.pid = pid)) := by
  refine ⟨⟨_, fun fuel enough => removeWalk_eq pid none seg enough⟩, ?_⟩
  rcases removeNode_cases seg pid with ⟨absent, unchanged⟩ | ⟨b, w, h', head', first, removed, deleted⟩
  · refine ⟨h, head, unchanged, ?_, fun _ => ⟨rfl, rfl⟩, fun present => absurd present absent⟩
    rw [eraseP_absent absent]
    exact seg
  · refine ⟨h', head', removed, deleted.list, fun absent => ?_, fun _ => ⟨b, w, first, deleted⟩⟩
    rw [← find?_none_iff, first] at absent
    cases absent

/-- Three nodes, two of them with the same pid. -/
def threeNodes : Heap Node where
  cell
    | 0 => some ⟨⟨7, ['a']⟩, some 1⟩
    | 1 => some ⟨⟨9, ['b']⟩, some 2⟩
    | 2 => some ⟨⟨9, ['c']⟩, none⟩
    | _ => none
  bound := 3
  fresh
    | 0, le | 1, le | 2, le => absurd le (by decide)
    | _ + 3, _ => rfl

theorem removeNode_deletes_inner :
    ∃ h' head', removeNode threeNodes (some 0) 9 = some (h', head') ∧
      Deleted threeNodes h' head' 1 [(0, ⟨7, ['a']⟩), (2, ⟨9, ['c']⟩)] := by
  have seg : Seg threeNodes (some 0) [(0, ⟨7, ['a']⟩), (1, ⟨9, ['b']⟩), (2, ⟨9, ['c']⟩)] none :=
    ⟨rfl, _, rfl, rfl, _, rfl, rfl, _, rfl, rfl⟩
  obtain ⟨-, h', head', removed, -, -, deleted⟩ := removeNode_deletes seg 9
  obtain ⟨b, w, first, gone⟩ := deleted (by decide)
  cases first
  exact ⟨h', head', removed, gone⟩

theorem listNodes_eq (seg : Seg h p l none) (enough : l.length ≤ fuel) :
    listNodes h fuel p = some (l.map Prod.snd) := by
  induction l generalizing p fuel with
  | nil =>
    obtain rfl : p = none := seg
    rw [listNodes]
    rfl
  | cons c l ih =>
    obtain ⟨a, v⟩ := c
    obtain ⟨rfl, next, found, rest⟩ := seg
    cases fuel with
    | zero => cases enough
    | succ fuel =>
      simp only [listNodes, found, Option.bind_eq_bind, Option.bind_some, ih rest (by simpa using enough),
        Option.pure_def, List.map_cons]

end CSC360.PMan
