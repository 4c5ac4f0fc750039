import CSC360.Disk.Walk
import CSC360.Disk.DiskInfo

/-!
# What diskinfo counts

`parse_sub` and `print_num_of_files` count, in an `int`, the files among the scanned
slots of the walk: with enough fuel when the walk is finite and readable
(`countSlots_settles`), and conversely every run that returns has made a finite
walk and counted its files (`countSlots_ok_of`).
-/

namespace CSC360.Disk.DiskInfo
open CSC360.Base

variable {p : Image}

/-- The chain of `parse_sub` is one fold over the slots of its clusters. -/
theorem parseSub_succ {c fuel : Nat} {cs : List Nat} (follows : Follows p c cs)
    (len : cs.length < fuel + 1) :
    parseSub p (fuel + 1) c = (cs.flatMap clusterSlots).foldlM (countSlot p (parseSub p fuel)) 0 := by
  rw [parseSub, clusterLoop_eq follows len, foldlM_flatMap]

/-- The `int` that counts `n` things. -/
@[irreducible] def counter (n : Nat) : Int := Image.toInt32 n

theorem counter_eq (n : Nat) : counter n = Image.toInt32 n := by
  unfold counter
  exact Eq.refl _

theorem counter_zero : counter 0 = 0 := (counter_eq 0).trans ((Image.toInt32_eq_iff 0).2 (by decide))

theorem counter_one : counter 1 = 1 := (counter_eq 1).trans ((Image.toInt32_eq_iff 1).2 (by decide))

theorem counter_add (m n : Nat) : Image.toInt32 (counter m + counter n) = counter (m + n) := by
  rw [counter_eq, counter_eq, counter_eq, Image.toInt32_add, Int.natCast_add]

theorem counter_eq_natCast {m n : Nat} : counter m = n ↔ m % 4294967296 = n % 4294967296 ∧ n < 2147483648 := by
  rw [counter_eq, Image.toInt32_eq_natCast]

/-- A readable slot that is no directory counts itself. -/
theorem countSlot_leaf {sub : Nat → Except Fault Int} {s : Slot} (readable : Readable p s) (leaf : p.kind s ≠ .dir)
    (total : Int) : countSlot p sub total s = .ok (if p.kind s = .file then Image.toInt32 (total + 1) else total) := by
  rw [countSlot, classify_eq_ok.2 ⟨readable, rfl⟩, ok_bind]
  cases isKind : p.kind s with
  | skip | file => rfl
  | dir => exact absurd isKind leaf

theorem countSlot_leaf_counter {sub : Nat → Except Fault Int} {s : Slot} (readable : Readable p s)
    (leaf : p.kind s ≠ .dir) (total : Nat) :
    countSlot p sub (counter total) s = .ok (counter (total + fileCount p [s])) := by
  rw [countSlot_leaf readable leaf]
  split
  · rename_i file
    rw [fileCount_cons_file file, fileCount_nil, Nat.zero_add, ← counter_add, counter_one]
  · rename_i other
    rw [fileCount_cons_other other, fileCount_nil]
    rfl

/-- A directory counts what the nested scan finds. -/
theorem countSlot_dir {sub : Nat → Except Fault Int} {s : Slot} (readable : Readable p s) (isDir : p.kind s = .dir)
    (total : Int) :
    countSlot p sub total s = sub (p.flc s) >>= fun n => .ok (Image.toInt32 (total + n)) := by
  rw [countSlot, classify_eq_ok.2 ⟨readable, isDir.symm⟩, ok_bind]
  rfl

theorem countSlot_readable {sub : Nat → Except Fault Int} {s : Slot} {total r : Int}
    (run : countSlot p sub total s = .ok r) : Readable p s := by
  rw [countSlot, bind_eq_ok] at run
  obtain ⟨kind, isKind, _⟩ := run
  exact (classify_eq_ok.1 isKind).1

/-- **Counting a finite walk.** -/
theorem countSlots_settles {ss : List Slot} {f : Forest Dir} (walk : Walk p ss f)
    (readable : ∀ s ∈ scanned ss f, Readable p s) :
    ∃ bound, ∀ fuel, bound ≤ fuel → ∀ total,
      ss.foldlM (countSlot p (parseSub p fuel)) (counter total) =
        .ok (counter (total + fileCount p (scanned ss f))) := by
  induction walk with
  | nil => exact ⟨0, fun _ _ _ => rfl⟩
  | @leaf s ss f leaf _ ih =>
    obtain ⟨bound, run⟩ := ih fun s mem => readable s (mem_scanned_leaf.2 (.inr mem))
    have here : Readable p s := readable s (mem_scanned_leaf.2 (.inl rfl))
    refine ⟨bound, fun fuel le total => ?_⟩
    rw [List.foldlM_cons, countSlot_leaf_counter here leaf, ok_bind, run fuel le, fileCount_scanned_leaf, Nat.add_assoc]
  | @enter s ss d kids rest entered _ _ ihKids ihRest =>
    obtain ⟨boundKids, runKids⟩ := ihKids fun t mem => readable t (mem_scanned_enter.2 (.inr (.inl mem)))
    obtain ⟨boundRest, runRest⟩ := ihRest fun t mem => readable t (mem_scanned_enter.2 (.inr (.inr mem)))
    have here : Readable p s := readable s (mem_scanned_enter.2 (.inl rfl))
    refine ⟨max (max boundKids boundRest) d.chain.length + 1, fun fuel le total => ?_⟩
    obtain ⟨fuel, rfl⟩ : ∃ k, fuel = k + 1 := ⟨fuel - 1, by omega⟩
    have sub : parseSub p (fuel + 1) (p.flc s) = .ok (counter (fileCount p (scanned d.slots kids))) := by
      rw [parseSub_succ entered.chain (by omega)]
      have run := runKids fuel (by omega) 0
      rwa [counter_zero, Nat.zero_add] at run
    rw [List.foldlM_cons, countSlot_dir here entered.kind, sub, ok_bind, ok_bind, counter_add,
      runRest (fuel + 1) (by omega), fileCount_scanned_enter entered.kind, Nat.add_assoc]

/-- The result `r` for first cluster `c` is the file count of a finite, readable walk. -/
def Counted (p : Image) (c : Nat) (r : Int) : Prop :=
  ∃ cs f, Follows p c cs ∧ Walk p (cs.flatMap clusterSlots) f ∧
    (∀ s ∈ scanned (cs.flatMap clusterSlots) f, Readable p s) ∧
    r = counter (fileCount p (scanned (cs.flatMap clusterSlots) f))

/-- A counting scan that returns has walked its slots, if the nested scans have. -/
theorem countSlots_ok_of {sub : Nat → Except Fault Int} (counted : ∀ c r, sub c = .ok r → Counted p c r) :
    ∀ {ss : List Slot} {total : Nat} {r : Int}, ss.foldlM (countSlot p sub) (counter total) = .ok r →
      ∃ f, Walk p ss f ∧ (∀ s ∈ scanned ss f, Readable p s) ∧
        r = counter (total + fileCount p (scanned ss f)) := by
  intro ss
  induction ss with
  | nil =>
    intro total r h
    cases h
    exact ⟨.nil, .nil, by simp [places, Forest.nodes], rfl⟩
  | cons s ss ih =>
    intro total r h
    rw [List.foldlM_cons, bind_eq_ok] at h
    obtain ⟨total', first, h⟩ := h
    have here := countSlot_readable first
    by_cases isDir : p.kind s = .dir
    · rw [countSlot_dir here isDir] at first
      obtain ⟨n, run, first⟩ := bind_eq_ok.1 first
      obtain ⟨cs, kids, follows, below, readableBelow, rfl⟩ := counted _ _ run
      obtain rfl := Except.ok.inj first
      rw [counter_add] at h
      obtain ⟨f, walk, readable, rfl⟩ := ih h
      refine ⟨.cons ⟨s, cs⟩ kids f, .enter ⟨rfl, isDir, follows⟩ below walk, ?_, ?_⟩
      · intro t mem
        rcases mem_scanned_enter.1 mem with rfl | mem | mem
        · exact here
        · exact readableBelow t mem
        · exact readable t mem
      · rw [fileCount_scanned_enter isDir, Nat.add_assoc]
        rfl
    · rw [countSlot_leaf_counter here isDir] at first
      obtain rfl := Except.ok.inj first
      obtain ⟨f, walk, readable, rfl⟩ := ih h
      refine ⟨f, .leaf isDir walk, ?_, ?_⟩
      · intro t mem
        rcases mem_scanned_leaf.1 mem with rfl | mem
        · exact here
        · exact readable t mem
      · rw [fileCount_scanned_leaf, Nat.add_assoc]

/-- `parse_sub` returns counts of finite walks only. -/
theorem parseSub_ok : ∀ {fuel c : Nat} {r : Int}, parseSub p fuel c = .ok r → Counted p c r := by
  intro fuel
  induction fuel with
  | zero => intro c r h; simp [parseSub] at h
  | succ fuel ih =>
    intro c r h
    obtain ⟨cs, follows, _, run⟩ := clusterLoop_ok (parseSub.eq_2 .. ▸ h)
    rw [← foldlM_flatMap] at run
    rw [← counter_zero] at run
    obtain ⟨f, walk, readable, rfl⟩ := countSlots_ok_of (fun _ _ => ih) run
    exact ⟨cs, f, follows, walk, readable, by rw [Nat.zero_add]⟩

/-- The root scan is a fold over the slots in use. -/
theorem rootLoop_eq {sub : Nat → Except Fault Int} : ∀ {n i fuel : Nat} {count : Int}, RootEnds p i n → n < fuel →
    rootLoop p sub fuel i count = (rootSlots i n).foldlM (countSlot p sub) count := by
  intro n
  induction n with
  | zero =>
    intro i fuel count ends lt
    obtain ⟨fuel, rfl⟩ : ∃ k, fuel = k + 1 := ⟨fuel - 1, by omega⟩
    have free : p.byteAt (rootSlot i).addr = 0 := ends.free
    have inside : (rootSlot i).addr + 1 ≤ p.size := ends.inside
    rw [rootLoop, Image.read_of_le inside, ok_bind, if_pos free]
    rfl
  | succ n ih =>
    intro i fuel count ends lt
    obtain ⟨fuel, rfl⟩ : ∃ k, fuel = k + 1 := ⟨fuel - 1, by omega⟩
    have used : p.byteAt (rootSlot i).addr ≠ 0 := ends.used 0 (by omega)
    have inside : (rootSlot i).addr + 1 ≤ p.size := by
      have := ends.inside
      simp only [rootSlot] at this ⊢
      omega
    rw [rootLoop, Image.read_of_le inside, ok_bind, if_neg used, rootSlots_succ, List.foldlM_cons]
    exact bind_congr fun count => ih ends.tail (by omega)

/-- A root scan that returns has met a `0x00` slot and scanned the slots before it. -/
theorem rootLoop_ok {sub : Nat → Except Fault Int} : ∀ {fuel i : Nat} {count r : Int},
    rootLoop p sub fuel i count = .ok r →
      ∃ n, RootEnds p i n ∧ (rootSlots i n).foldlM (countSlot p sub) count = .ok r := by
  intro fuel
  induction fuel with
  | zero => intro i count r h; simp [rootLoop] at h
  | succ fuel ih =>
    intro i count r h
    rw [rootLoop, bind_eq_ok] at h
    obtain ⟨b, read, h⟩ := h
    obtain ⟨inside, rfl⟩ := Image.read_eq_ok.1 read
    by_cases free : p.byteAt (rootSlot i).addr = 0
    · rw [if_pos free] at h
      cases h
      exact ⟨0, ⟨by simp, free, inside⟩, rfl⟩
    · rw [if_neg free, bind_eq_ok] at h
      obtain ⟨count', first, h⟩ := h
      obtain ⟨n, ends, run⟩ := ih h
      refine ⟨n + 1, ends.cons free, ?_⟩
      rw [rootSlots_succ, List.foldlM_cons, first]
      exact run

/-- **The file count of a finite walk** of the root directory. -/
theorem printNumOfFiles_settles {n : Nat} {f : Forest Dir} (ends : RootEnds p 0 n)
    (walk : Walk p (rootSlots 0 n) f) (readable : ∀ s ∈ scanned (rootSlots 0 n) f, Readable p s) :
    Settles (printNumOfFiles p) (.ok (counter (fileCount p (scanned (rootSlots 0 n) f)))) := by
  obtain ⟨bound, run⟩ := countSlots_settles walk readable
  refine ⟨max bound (n + 1), fun fuel le => ?_⟩
  have counted := run fuel (by omega) 0
  rw [counter_zero, Nat.zero_add] at counted
  rw [printNumOfFiles, rootLoop_eq ends (by omega)]
  exact counted

/-- A run of `print_num_of_files` that returns has counted a finite walk of the root. -/
theorem printNumOfFiles_ok {fuel : Nat} {r : Int} (h : printNumOfFiles p fuel = .ok r) :
    ∃ n f, RootEnds p 0 n ∧ Walk p (rootSlots 0 n) f ∧ (∀ s ∈ scanned (rootSlots 0 n) f, Readable p s) ∧
      r = counter (fileCount p (scanned (rootSlots 0 n) f)) := by
  obtain ⟨n, ends, run⟩ := rootLoop_ok h
  rw [← counter_zero] at run
  obtain ⟨f, walk, readable, rfl⟩ := countSlots_ok_of (fun _ _ => parseSub_ok) run
  exact ⟨n, f, ends, walk, readable, by rw [Nat.zero_add]⟩

end CSC360.Disk.DiskInfo
