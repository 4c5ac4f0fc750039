import Mathlib.Data.List.Perm.Basic
import Mathlib.Data.List.Nodup

/-!
# Ordered forests and the unfolding of a link structure

`Forest α` is an ordered forest in first-child/next-sibling form, so that one
induction covers children and siblings. `Unfolds` relates a list of places (the
slots of a directory, the successors of a node) to the forest met by following,
in order and depth first, every place that is not a leaf. The forest of given
places is unique (`Unfolds.unique`), the places it visits are exactly the reachable
ones (`Unfolds.mem_places_iff`), and whether a given forest is the one can be
computed (`Unfolds.check_iff`).
-/

namespace CSC360.Base

universe u v

/-- An ordered forest: the first tree's label, its subtrees, the other trees. -/
inductive Forest (α : Type u) where
  | nil : Forest α
  | cons (label : α) (kids rest : Forest α) : Forest α

namespace Forest

variable {α : Type u}

/-- The labels in depth-first pre-order. -/
def nodes : Forest α → List α
  | nil => []
  | cons a kids rest => a :: (kids.nodes ++ rest.nodes)

/-- The labels of the trees' roots. -/
def tops : Forest α → List α
  | nil => []
  | cons a _ rest => a :: rest.tops

/-- For every node, in depth-first pre-order, the labels on the way down to it. -/
def branches : Forest α → List (List α)
  | nil => []
  | cons a kids rest => [a] :: (kids.branches.map (a :: ·) ++ rest.branches)

/-- The forest with other labels. -/
def map {β : Type v} (f : α → β) : Forest α → Forest β
  | nil => nil
  | cons a kids rest => cons (f a) (kids.map f) (rest.map f)

/-- The trees of `f` followed by those of `g`. -/
def append : Forest α → Forest α → Forest α
  | nil, g => g
  | cons a kids rest, g => cons a kids (rest.append g)

/-- Every node has at most one child and there is at most one tree. -/
def Linear : Forest α → Prop
  | nil => True
  | cons _ kids rest => kids.Linear ∧ rest = nil

/-- Every tree is linear. -/
def LinearTrees : Forest α → Prop
  | nil => True
  | cons _ kids rest => kids.Linear ∧ rest.LinearTrees

/-- The words of the labels, each behind all the words before it and `acc`. -/
def accumulated {β : Type v} (w : α → List β) : List β → List α → List (List β)
  | _, [] => []
  | acc, a :: l => (acc ++ w a) :: accumulated w (acc ++ w a) l

/-- The word of a branch. -/
def spell {β : Type v} (w : α → List β) (branch : List α) : List β := branch.flatMap w

theorem nodes_append (f g : Forest α) : (f.append g).nodes = f.nodes ++ g.nodes := by
  induction f with
  | nil => rfl
  | cons a kids rest _ ih => simp [append, nodes, ih]

theorem nodes_map {β : Type v} (f : α → β) (t : Forest α) : (t.map f).nodes = t.nodes.map f := by
  induction t with
  | nil => rfl
  | cons a kids rest ihKids ihRest => simp [map, nodes, ihKids, ihRest]

theorem length_branches (f : Forest α) : f.branches.length = f.nodes.length := by
  induction f with
  | nil => rfl
  | cons a kids rest ihKids ihRest => simp [branches, nodes, ihKids, ihRest]

/-- Every node ends a branch. -/
theorem mem_branches {f : Forest α} {a : α} (mem : a ∈ f.nodes) : ∃ b ∈ f.branches, a ∈ b := by
  induction f with
  | nil => simp [nodes] at mem
  | cons c kids rest ihKids ihRest =>
    rcases List.mem_cons.1 mem with rfl | mem
    · exact ⟨[a], by simp [branches], by simp⟩
    · rcases List.mem_append.1 mem with mem | mem
      · obtain ⟨b, hb, inB⟩ := ihKids mem
        exact ⟨c :: b, by simp [branches, hb], by simp [inB]⟩
      · obtain ⟨b, hb, inB⟩ := ihRest mem
        exact ⟨b, by simp [branches, hb], inB⟩

section Accumulated

variable {β : Type v} {w : α → List β}

theorem length_accumulated (acc : List β) (l : List α) : (accumulated w acc l).length = l.length := by
  induction l generalizing acc with
  | nil => rfl
  | cons a l ih => simp [accumulated, ih]

theorem accumulated_append (acc : List β) (l l' : List α) :
    accumulated w acc (l ++ l') = accumulated w acc l ++ accumulated w (acc ++ l.flatMap w) l' := by
  induction l generalizing acc with
  | nil => simp [accumulated]
  | cons a l ih => simp [accumulated, ih]

theorem accumulated_congr {w' : α → List β} {acc : List β} {l : List α} (same : ∀ a ∈ l, w a = w' a) :
    accumulated w acc l = accumulated w' acc l := by
  induction l generalizing acc with
  | nil => rfl
  | cons a l ih =>
    rw [accumulated, accumulated, same a (by simp), ih fun b mem => same b (List.mem_cons_of_mem _ mem)]

/-- **Accumulating in pre-order spells the branches** exactly when no node has a
second child: behind a sibling, the sibling's word stands in between. -/
theorem accumulated_eq_branches_iff {f : Forest α} (solid : ∀ a ∈ f.nodes, w a ≠ []) :
    ∀ acc : List β, accumulated w acc f.nodes = f.branches.map (fun b => acc ++ spell w b) ↔ f.Linear := by
  induction f with
  | nil => simp [accumulated, nodes, branches, Linear]
  | cons a kids rest ihKids _ =>
    intro acc
    have below : (kids.branches.map (a :: ·)).map (fun b => acc ++ spell w b) =
        kids.branches.map fun b => (acc ++ w a) ++ spell w b := by
      simp [spell, Function.comp_def]
    have lengths : (accumulated w (acc ++ w a) kids.nodes).length =
        (kids.branches.map fun b => (acc ++ w a) ++ spell w b).length := by
      rw [length_accumulated, List.length_map, length_branches]
    have alone : accumulated w (acc ++ w a ++ kids.nodes.flatMap w) rest.nodes =
        rest.branches.map (fun b => acc ++ spell w b) ↔ rest = nil := by
      cases rest with
      | nil => simp [accumulated, nodes, branches]
      | cons b kids' rest' =>
        refine iff_of_false (fun h => ?_) (by simp)
        have first := (List.cons.inj h).1
        have : (w a).length ≠ 0 := by simpa using solid a (by simp [nodes])
        have := congrArg List.length first
        simp [spell] at this
        omega
    have inKids : ∀ b ∈ kids.nodes, w b ≠ [] := fun b mem => solid b (by simp [nodes, mem])
    rw [nodes, branches, accumulated, accumulated_append, List.map_cons, List.map_append, below, Linear,
      ← ihKids inKids (acc ++ w a), ← alone]
    constructor
    · intro h
      exact List.append_inj (List.cons.inj h).2 lengths
    · rintro ⟨first, second⟩
      rw [first, second]
      simp [spell]

end Accumulated

end Forest

section Unfolding

variable {σ : Type v} {α : Type u} (enter : σ → α → Prop) (leaf : σ → Prop) (inner : α → List σ)

/-- `Unfolds ss f`: following the places `ss` in order, each either a leaf or
entered with a label whose own places are followed first, visits the forest `f`. -/
inductive Unfolds : List σ → Forest α → Prop where
  | nil : Unfolds [] .nil
  | leaf {s ss f} : leaf s → Unfolds ss f → Unfolds (s :: ss) f
  | enter {s ss a kids rest} : enter s a → Unfolds (inner a) kids → Unfolds ss rest →
      Unfolds (s :: ss) (.cons a kids rest)

/-- The places reachable from `ss` by entering. -/
inductive Reachable (ss : List σ) : σ → Prop where
  | start {s} : s ∈ ss → Reachable ss s
  | through {s a t} : Reachable ss s → enter s a → t ∈ inner a → Reachable ss t

/-- All places that following `ss` visits when it unfolds to `f`. -/
def places (ss : List σ) (f : Forest α) : List σ :=
  ss ++ f.nodes.flatMap inner

variable {enter leaf inner}

/-- Entering is functional and never applies to a leaf. -/
structure Deterministic (enter : σ → α → Prop) (leaf : σ → Prop) : Prop where
  label : ∀ {s a b}, enter s a → enter s b → a = b
  notLeaf : ∀ {s a}, enter s a → ¬ leaf s

/-- Places reachable from places reachable from `ss` are reachable from `ss`. -/
theorem Reachable.trans {ss ts : List σ} {s : σ} (h : Reachable enter inner ts s)
    (sub : ∀ t ∈ ts, Reachable enter inner ss t) : Reachable enter inner ss s := by
  induction h with
  | start mem => exact sub _ mem
  | through _ entered mem ih => exact .through ih entered mem

namespace Unfolds

theorem unique (det : Deterministic enter leaf) {ss : List σ} {f g : Forest α}
    (h : Unfolds enter leaf inner ss f) (h' : Unfolds enter leaf inner ss g) : f = g := by
  induction h generalizing g with
  | nil => cases h'; rfl
  | leaf isLeaf _ ih =>
    cases h' with
    | leaf _ rest => exact ih rest
    | enter entered _ _ => exact absurd isLeaf (det.notLeaf entered)
  | enter entered _ _ ihKids ihRest =>
    cases h' with
    | leaf isLeaf _ => exact absurd isLeaf (det.notLeaf entered)
    | enter entered' kids' rest' =>
      obtain rfl := det.label entered entered'
      rw [ihKids kids', ihRest rest']

/-- An unfolding of a list splits with the list. -/
theorem split {ss ts : List σ} {f : Forest α} (h : Unfolds enter leaf inner (ss ++ ts) f) :
    ∃ g g', f = g.append g' ∧ Unfolds enter leaf inner ss g ∧ Unfolds enter leaf inner ts g' := by
  induction ss generalizing f with
  | nil => exact ⟨.nil, f, rfl, .nil, h⟩
  | cons s ss ih =>
    cases h with
    | leaf isLeaf rest =>
      obtain ⟨g, g', rfl, left, right⟩ := ih rest
      exact ⟨g, g', rfl, .leaf isLeaf left, right⟩
    | enter entered kids rest =>
      obtain ⟨g, g', rfl, left, right⟩ := ih rest
      exact ⟨_, g', rfl, .enter entered kids left, right⟩

/-- Unfolding transports along relations that agree on the visited places. -/
theorem mono {enter' : σ → α → Prop} {leaf' : σ → Prop} {ss : List σ} {f : Forest α}
    (h : Unfolds enter leaf inner ss f)
    (entered : ∀ s ∈ places inner ss f, ∀ a ∈ f.nodes, enter s a → enter' s a)
    (leaves : ∀ s ∈ places inner ss f, leaf s → leaf' s) : Unfolds enter' leaf' inner ss f := by
  induction h with
  | nil => exact .nil
  | @leaf s ss f isLeaf _ ih =>
    refine .leaf (leaves _ (by simp [places]) isLeaf) (ih (fun t mem => entered t ?_) fun t mem => leaves t ?_)
    · exact List.mem_cons_of_mem s mem
    · exact List.mem_cons_of_mem s mem
  | @enter s ss a kids rest e _ _ ihKids ihRest =>
    have inKids : ∀ t ∈ places inner (inner a) kids, t ∈ places inner (s :: ss) (.cons a kids rest) := by
      intro t mem
      simp only [places, Forest.nodes, List.flatMap_cons, List.flatMap_append, List.mem_append] at mem ⊢
      tauto
    have inRest : ∀ t ∈ places inner ss rest, t ∈ places inner (s :: ss) (.cons a kids rest) := by
      intro t mem
      simp only [places, Forest.nodes, List.flatMap_cons, List.flatMap_append, List.mem_append,
        List.mem_cons] at mem ⊢
      tauto
    refine .enter (entered s (by simp [places]) a (by simp [Forest.nodes]) e)
      (ihKids (fun t mem b node => ?_) fun t mem => leaves t (inKids t mem))
      (ihRest (fun t mem b node => ?_) fun t mem => leaves t (inRest t mem))
    · exact entered t (inKids t mem) b (by simp [Forest.nodes, node])
    · exact entered t (inRest t mem) b (by simp [Forest.nodes, node])

/-- A visited place that is not a leaf was entered. -/
theorem enter_of_mem {ss : List σ} {f : Forest α} (h : Unfolds enter leaf inner ss f) {s : σ}
    (mem : s ∈ places inner ss f) (inside : ¬ leaf s) : ∃ a ∈ f.nodes, enter s a := by
  induction h with
  | nil => simp [places, Forest.nodes] at mem
  | @leaf t ss f isLeaf _ ih =>
    rcases List.mem_cons.1 mem with rfl | mem
    · exact absurd isLeaf inside
    · exact ih mem
  | @enter t ss a kids rest e _ _ ihKids ihRest =>
    simp only [places, Forest.nodes, List.flatMap_cons, List.flatMap_append, List.mem_append,
      List.mem_cons] at mem
    have inKids : s ∈ places inner (inner a) kids → ∃ b ∈ (Forest.cons a kids rest).nodes, enter s b := fun mem => by
      obtain ⟨b, node, entered⟩ := ihKids mem
      exact ⟨b, by simp [Forest.nodes, node], entered⟩
    have inRest : s ∈ places inner ss rest → ∃ b ∈ (Forest.cons a kids rest).nodes, enter s b := fun mem => by
      obtain ⟨b, node, entered⟩ := ihRest mem
      exact ⟨b, by simp [Forest.nodes, node], entered⟩
    rcases mem with (rfl | mem) | mem | mem | mem
    · exact ⟨a, by simp [Forest.nodes], e⟩
    · exact inRest (List.mem_append_left _ mem)
    · exact inKids (List.mem_append_left _ mem)
    · exact inKids (List.mem_append_right _ mem)
    · exact inRest (List.mem_append_right _ mem)

/-- An entered place of the list is a tree of the forest. -/
theorem mem_nodes_of_enter (det : Deterministic enter leaf) {ss : List σ} {f : Forest α}
    (h : Unfolds enter leaf inner ss f) {s : σ} {a : α} (mem : s ∈ ss) (entered : enter s a) :
    a ∈ f.nodes := by
  induction h with
  | nil => simp at mem
  | leaf isLeaf _ ih =>
    rcases List.mem_cons.1 mem with rfl | mem
    · exact absurd isLeaf (det.notLeaf entered)
    · exact ih mem
  | enter entered' _ _ _ ih =>
    rcases List.mem_cons.1 mem with rfl | mem
    · simp [Forest.nodes, det.label entered entered']
    · simp [Forest.nodes, ih mem]

/-- Every node of the forest unfolds in turn, into nodes of the forest. -/
theorem inner_unfolds {ss : List σ} {f : Forest α} (h : Unfolds enter leaf inner ss f) {a : α}
    (mem : a ∈ f.nodes) :
    ∃ kids, Unfolds enter leaf inner (inner a) kids ∧ ∀ b ∈ kids.nodes, b ∈ f.nodes := by
  induction h with
  | nil => simp [Forest.nodes] at mem
  | leaf _ _ ih => exact ih mem
  | @enter s ss b kids rest _ unfolded _ ihKids ihRest =>
    rcases List.mem_cons.1 mem with rfl | mem
    · exact ⟨kids, unfolded, fun b hb => by simp [Forest.nodes, hb]⟩
    · rcases List.mem_append.1 mem with mem | mem
      · obtain ⟨g, hg, sub⟩ := ihKids mem
        exact ⟨g, hg, fun b hb => by simp [Forest.nodes, sub b hb]⟩
      · obtain ⟨g, hg, sub⟩ := ihRest mem
        exact ⟨g, hg, fun b hb => by simp [Forest.nodes, sub b hb]⟩

/-- The entered places, in the order of the scans, are those the nodes were entered from. -/
theorem entered_perm {ss : List σ} {f : Forest α} (h : Unfolds enter leaf inner ss f) {entry : α → σ}
    {entered : σ → Prop} [DecidablePred entered] (enters : ∀ {s a}, enter s a → entry a = s ∧ entered s)
    (leaves : ∀ {s}, leaf s → ¬ entered s) :
    ((places inner ss f).filter entered).Perm (f.nodes.map entry) := by
  induction h with
  | nil => exact .refl _
  | leaf isLeaf _ ih => rwa [places, List.cons_append, List.filter_cons_of_neg (by simpa using leaves isLeaf)]
  | @enter s ss a kids rest e _ _ ihKids ihRest =>
    obtain ⟨rfl, isEntered⟩ := enters e
    rw [places, List.cons_append, List.filter_cons_of_pos (by simpa using isEntered)]
    simp only [Forest.nodes, List.map_cons, List.map_append]
    refine .cons _ (.trans ?_ (ihKids.append ihRest))
    simp only [places, List.flatMap_cons, List.flatMap_append, List.filter_append]
    have swap (l k m : List σ) : (l ++ (k ++ m)).Perm (k ++ m ++ l) := List.perm_append_comm
    simpa only [List.append_assoc] using
      (swap (ss.filter entered) ((inner a).filter entered) ((kids.nodes.flatMap inner).filter entered)).append_right
        ((rest.nodes.flatMap inner).filter entered)

/-- Every node was entered from one of the visited places. -/
theorem entered_of_mem {ss : List σ} {f : Forest α} (h : Unfolds enter leaf inner ss f) {a : α}
    (mem : a ∈ f.nodes) : ∃ s, Reachable enter inner ss s ∧ enter s a := by
  induction h with
  | nil => simp [Forest.nodes] at mem
  | leaf _ _ ih =>
    obtain ⟨s, reach, entered⟩ := ih mem
    exact ⟨s, reach.trans fun t ht => .start (List.mem_cons_of_mem _ ht), entered⟩
  | @enter s ss b kids rest e _ _ ihKids ihRest =>
    rcases List.mem_cons.1 mem with rfl | mem
    · exact ⟨s, .start (by simp), e⟩
    · rcases List.mem_append.1 mem with mem | mem
      · obtain ⟨t, reach, entered⟩ := ihKids mem
        exact ⟨t, reach.trans fun t ht => .through (.start (by simp)) e ht, entered⟩
      · obtain ⟨t, reach, entered⟩ := ihRest mem
        exact ⟨t, reach.trans fun t ht => .start (List.mem_cons_of_mem _ ht), entered⟩

/-- The visited places are exactly the reachable ones. -/
theorem mem_places_iff (det : Deterministic enter leaf) {ss : List σ} {f : Forest α}
    (h : Unfolds enter leaf inner ss f) {s : σ} :
    s ∈ places inner ss f ↔ Reachable enter inner ss s := by
  constructor
  · intro mem
    rcases List.mem_append.1 mem with mem | mem
    · exact .start mem
    · obtain ⟨a, node, mem⟩ := List.mem_flatMap.1 mem
      obtain ⟨t, reach, entered⟩ := h.entered_of_mem node
      exact .through reach entered mem
  · intro reach
    induction reach with
    | start mem => exact List.mem_append_left _ mem
    | @through t a u _ entered mem ih =>
      have node : a ∈ f.nodes := by
        rcases List.mem_append.1 ih with top | below
        · exact h.mem_nodes_of_enter det top entered
        · obtain ⟨b, nodeB, memB⟩ := List.mem_flatMap.1 below
          obtain ⟨kids, unfolded, sub⟩ := h.inner_unfolds nodeB
          exact sub a (unfolded.mem_nodes_of_enter det memB entered)
      exact List.mem_append_right _ (List.mem_flatMap.2 ⟨a, node, mem⟩)

section Check

variable [∀ s a, Decidable (enter s a)] [DecidablePred leaf]

variable (enter leaf) in
/-- The first place entered gets the label `a`; `rest` checks the places after it. -/
def firstEntered (a : α) (kids : Bool) (rest : List σ → Bool) : List σ → Bool
  | [] => false
  | s :: ss => decide (enter s a) && kids && rest ss || decide (leaf s) && firstEntered a kids rest ss

variable (enter leaf inner) in
/-- Whether the places unfold to the forest. -/
def check : Forest α → List σ → Bool
  | .nil, ss => ss.all fun s => decide (leaf s)
  | .cons a kids rest, ss => firstEntered enter leaf a (check kids (inner a)) (check rest) ss

theorem check_iff {f : Forest α} {ss : List σ} :
    check enter leaf inner f ss = true ↔ Unfolds enter leaf inner ss f := by
  induction f generalizing ss with
  | nil =>
    induction ss with
    | nil => exact ⟨fun _ => .nil, fun _ => rfl⟩
    | cons s ss ih =>
      simp only [check, List.all_cons, Bool.and_eq_true, decide_eq_true_eq] at ih ⊢
      rw [ih]
      constructor
      · rintro ⟨isLeaf, rest⟩
        exact .leaf isLeaf rest
      · intro unfolds
        cases unfolds with
        | leaf isLeaf rest => exact ⟨isLeaf, rest⟩
  | cons a kids rest ihKids ihRest =>
    unfold check
    induction ss with
    | nil =>
      constructor
      · intro none
        cases none
      · intro unfolds
        cases unfolds
    | cons s ss ih =>
      rw [firstEntered, Bool.or_eq_true, Bool.and_eq_true, Bool.and_eq_true, Bool.and_eq_true, decide_eq_true_eq,
        decide_eq_true_eq, ihKids, ihRest, ih]
      constructor
      · rintro (⟨⟨entered, inside⟩, after⟩ | ⟨isLeaf, after⟩)
        · exact .enter entered inside after
        · exact .leaf isLeaf after
      · intro unfolds
        cases unfolds with
        | enter entered inside after => exact .inl ⟨⟨entered, inside⟩, after⟩
        | leaf isLeaf after => exact .inr ⟨isLeaf, after⟩

instance {f : Forest α} {ss : List σ} : Decidable (Unfolds enter leaf inner ss f) :=
  decidable_of_iff _ check_iff

end Check

end Unfolds

end Unfolding

end CSC360.Base
