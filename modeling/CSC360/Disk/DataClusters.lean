import CSC360.Disk.TracedWalks
import CSC360.Disk.Visits

/-!
# Which clusters are read as directories

The guard of the chain loops is `next_loc <= 0xff0`. It lets 0, 1, the reserved
`0xFF0` and every number behind the end of the image through. The cluster numbers that the two `parse_sub`s
turn into addresses are those that a walk comes to (`DiskInfo.uses_iff`, `DiskList.uses_iff`); they are
numbers of data clusters exactly when the links the walk gets to name data clusters only.
-/

namespace CSC360.Disk
open CSC360.Base Relation Logged

/-- Among the uses of cluster numbers, every address is one of a data cluster, not reserved, and every
entry that is looked up lies inside the image. -/
structure OnlyData (p : Image) (N : Nat) (uses : Use → Prop) : Prop where
  address {k : Nat} : uses (.address k) → 2 ≤ k ∧ k < 0xff0 ∧ 31 + k < N
  lookup {k : Nat} : uses (.lookup k) → FatInside p N k

/-- Some run of `parse_sub` on `c` uses a cluster number so. -/
def DiskInfo.Uses (p : Image) (c : Nat) (item : Use) : Prop := ∃ fuel, item ∈ trace (parseSubTraced p fuel c [])

/-- Some run of `parse_sub` on `c` uses a cluster number so. -/
def DiskList.Uses (p : Image) (c : Nat) (item : Use) : Prop := ∃ fuel st, item ∈ trace (parseSubTraced p fuel c ⟨[], st⟩)

variable {p : Image} {N : Nat}

theorem onlyData_iff_visits {uses : Use → Prop} {visits : Nat → Prop} {looksUp : Nat → Prop}
    (address : ∀ k, uses (.address k) ↔ visits k) (lookup : ∀ k, uses (.lookup k) ↔ visits k ∧ looksUp k) :
    OnlyData p N uses ↔ ∀ k, visits k → IsData p N (looksUp k) k := by
  constructor
  · intro only k visit
    obtain ⟨low, notReserved, inside⟩ := only.address ((address k).2 visit)
    exact ⟨low, notReserved, inside, fun looked => only.lookup ((lookup k).2 ⟨visit, looked⟩)⟩
  · intro data
    constructor
    · intro k used
      have isData := data k ((address k).1 used)
      exact ⟨isData.low, isData.notReserved, isData.inside⟩
    · intro k used
      obtain ⟨visit, looked⟩ := (lookup k).1 used
      exact (data k visit).entry looked

/-! ## `diskinfo` -/

namespace DiskInfo

/-- The uses of a walk from `c`. -/
def Walked (p : Image) (c : Nat) : Use → Prop
  | .address k => Visits p c k
  | .lookup k => Visits p c k ∧ Scanned p (clusterSlots k)

theorem countSlotTraced_only {P : Use → Prop}
    {subTraced : Nat → List Use → Except (Logged Use Fault) (Logged Use Int)} {t : Logged Use Int} {s : Slot}
    (before : ∀ item ∈ t.log, P item) (nested : p.classify s = .ok .dir → Only P (subTraced (p.flc s) t.log)) :
    Only P (countSlotTraced p subTraced t s) := by
  rw [countSlotTraced]
  cases isKind : p.classify s with
  | error fault => exact before
  | ok kind =>
    cases kind with
    | skip => exact before
    | file => exact before
    | dir => exact (nested isKind).bind fun _ _ later => later

/-- Only uses of the walk are logged. -/
theorem parseSubTraced_only {c₀ : Nat} : ∀ {fuel c : Nat} {log : List Use},
    ReflTransGen (Leads p (Scanned p)) c₀ c → (∀ item ∈ log, Walked p c₀ item) →
      Only (Walked p c₀) (parseSubTraced p fuel c log) := by
  intro fuel
  induction fuel with
  | zero => exact fun _ before => before
  | succ fuel ih =>
    intro c log reached before
    rw [parseSubTraced]
    have scans : ∀ {ss : List Slot} {t t' : Logged Use Int},
        ss.foldlM (countSlotTraced p (parseSubTraced p fuel)) t = .ok t' → Scanned p ss := by
      intro ss t t' returns
      obtain ⟨total, run, -⟩ := Related.returns (scanTraced_erases (parseSubTraced_erases fuel) ss t) returns
      exact ⟨fuel, t.value, total, run⟩
    refine clusterLoopTraced_only (R := Leads p (Scanned p)) ?_ ?_ before
    · exact fun a b t t' le returns fat => .next le (scans returns) fat
    · intro k path le
      have visit : Visits p c₀ k := ⟨reached.trans path, le⟩
      refine ⟨visit, fun t before => only_foldlM before ?_, fun t t' returns => ⟨visit, scans returns⟩⟩
      intro front s back t' split returns before'
      refine countSlotTraced_only before' fun isDir => ih (visit.1.tail ?_) before'
      exact .entry le split (scans returns) isDir rfl

/-- The loop of `parse_sub` with the log, its scans nested up to the given depth. -/
abbrev scanLoop (p : Image) (depth : Nat) : Nat → Nat → Logged Use Int → Except (Logged Use Fault) (Logged Use Int) :=
  clusterLoopTraced p (fun _ fault => fault)
    fun c t => (clusterSlots c).foldlM (countSlotTraced p (parseSubTraced p depth)) t

/-- With enough fuel the loop from `c` logs the item. -/
def Logs (p : Image) (c : Nat) (item : Use) : Prop :=
  ∃ bound, ∀ depth fuel, bound ≤ depth → bound ≤ fuel → ∀ t, item ∈ trace (scanLoop p depth fuel c t)

theorem slot_grows (depth : Nat) (t : Logged Use Int) (s : Slot) :
    t.log ⊆ trace (countSlotTraced p (parseSubTraced p depth) t s) :=
  countSlotTraced_grows (parseSubTraced_grows depth) t s

theorem scan_grows (depth c : Nat) (t : Logged Use Int) :
    t.log ⊆ trace ((clusterSlots c).foldlM (countSlotTraced p (parseSubTraced p depth)) t) :=
  trace_foldlM (slot_grows depth) _ t

/-- A scan that returns does so with the log, from every state and with every greater depth. -/
theorem Scanned.traced {ss : List Slot} (scanned : Scanned p ss) : ∃ bound, ∀ depth, bound ≤ depth →
    ∀ t, ∃ t', ss.foldlM (countSlotTraced p (parseSubTraced p depth)) t = .ok t' := by
  obtain ⟨fuel, total, total', run⟩ := scanned
  refine ⟨fuel, fun depth le t => ?_⟩
  obtain ⟨r, returns, -⟩ := (scan_returns le ss total t.value).returns run
  obtain ⟨t', traced, -⟩ := (scanTraced_erases (parseSubTraced_erases depth) ss t).traced returns
  exact ⟨t', traced⟩

theorem Logs.address {c : Nat} (le : c ≤ 0xff0) : Logs p c (.address c) := by
  refine ⟨1, fun depth fuel _ some t => ?_⟩
  obtain ⟨fuel, rfl⟩ : ∃ k, fuel = k + 1 := ⟨fuel - 1, by omega⟩
  exact mem_trace_of_round (scan_grows depth) le (address_mem_round (scan_grows depth) c t)

theorem Logs.lookup {c : Nat} (le : c ≤ 0xff0) (scanned : Scanned p (clusterSlots c)) : Logs p c (.lookup c) := by
  obtain ⟨bound, traced⟩ := scanned.traced
  refine ⟨bound + 1, fun depth fuel deep some t => ?_⟩
  obtain ⟨fuel, rfl⟩ : ∃ k, fuel = k + 1 := ⟨fuel - 1, by omega⟩
  obtain ⟨t', returns⟩ := traced depth (by omega) (t.add (.address c))
  exact mem_trace_of_round (scan_grows depth) le (lookup_mem_round returns)

theorem Logs.leads {c b : Nat} {item : Use} (leads : Leads p (Scanned p) c b) (logs : Logs p b item) : Logs p c item := by
  obtain ⟨boundNext, later⟩ := logs
  cases leads with
  | next le scanned fat =>
    obtain ⟨bound, traced⟩ := scanned.traced
    refine ⟨max bound boundNext + 1, fun depth fuel deep some t => ?_⟩
    obtain ⟨fuel, rfl⟩ : ∃ k, fuel = k + 1 := ⟨fuel - 1, by omega⟩
    obtain ⟨t', returns⟩ := traced depth (by omega) (t.add (.address c))
    exact mem_trace_of_next le (round_returns returns) fat (later depth fuel (by omega) (by omega) _)
  | @entry before s after le split scanned isDir first =>
    obtain ⟨bound, traced⟩ := scanned.traced
    refine ⟨max bound boundNext + 1, fun depth fuel deep some t => ?_⟩
    obtain ⟨fuel, rfl⟩ : ∃ k, fuel = k + 1 := ⟨fuel - 1, by omega⟩
    obtain ⟨depth, rfl⟩ : ∃ k, depth = k + 1 := ⟨depth - 1, by omega⟩
    obtain ⟨t', returns⟩ := traced (depth + 1) (by omega) (t.add (.address c))
    refine mem_trace_of_round (scan_grows (depth + 1)) le (mem_trace_of_body ?_)
    simp only [split]
    refine mem_trace_foldlM (slot_grows (depth + 1)) returns (mem_trace_countSlot isDir ?_)
    exact first ▸ later depth (depth + 1) (by omega) (by omega) _

theorem Logs.reaches {c k : Nat} {item : Use} (path : ReflTransGen (Leads p (Scanned p)) c k) (logs : Logs p k item) :
    Logs p c item := by
  induction path using ReflTransGen.head_induction_on with
  | refl => exact logs
  | head first _ ih => exact ih.leads first

theorem Logs.uses {c : Nat} {item : Use} (logs : Logs p c item) : Uses p c item := by
  obtain ⟨bound, logged⟩ := logs
  exact ⟨bound + 1, logged bound (bound + 1) (Nat.le_refl bound) (Nat.le_succ bound) ⟨[], 0⟩⟩

/-- **What `parse_sub` does with cluster numbers** is what the walk from `c` comes to. -/
theorem uses_iff {c : Nat} (item : Use) : Uses p c item ↔ Walked p c item := by
  constructor
  · rintro ⟨fuel, mem⟩
    exact parseSubTraced_only .refl (by simp) item mem
  · intro walked
    cases item with
    | address k => exact ((Logs.address walked.2).reaches walked.1).uses
    | lookup k => exact ((Logs.lookup walked.1.2 walked.2).reaches walked.1.1).uses

end DiskInfo

/-! ## `disklist` -/

/-- An element of a concatenation stands in one of its parts. -/
theorem split_flatMap {α β : Type} {f : α → List β} {x : β} {after : List β} : ∀ {l : List α} {before : List β},
    l.flatMap f = before ++ x :: after → ∃ front a back inPart rest, l = front ++ a :: back ∧
      f a = inPart ++ x :: rest ∧ before = front.flatMap f ++ inPart := by
  intro l
  induction l with
  | nil => intro before split; simp at split
  | cons a l ih =>
    intro before split
    rw [List.flatMap_cons, List.append_eq_append_iff] at split
    obtain ⟨extra, rfl, later⟩ | ⟨extra, part, later⟩ := split
    · obtain ⟨front, b, back, inPart, rest, rfl, part, rfl⟩ := ih later
      exact ⟨a :: front, b, back, inPart, rest, rfl, part, by rw [List.flatMap_cons, List.append_assoc]⟩
    · cases extra with
      | nil =>
        obtain ⟨front, b, back, inPart, rest, rfl, part', nothing⟩ := @ih [] later.symm
        refine ⟨a :: front, b, back, inPart, rest, rfl, part', ?_⟩
        rw [List.flatMap_cons, List.append_assoc, ← nothing, List.append_nil, part, List.append_nil]
      | cons y extra =>
        obtain ⟨rfl, _⟩ := List.cons.inj later
        exact ⟨[], a, l, before, extra, rfl, part, rfl⟩

namespace DiskList

/-- The uses of a walk from `c`. -/
def Walked (p : Image) (c : Nat) : Use → Prop
  | .address k => Visits p c k
  | .lookup k => Visits p c k ∧ Listed p k

theorem enterSlotTraced_only {P : Use → Prop}
    {subTraced : Nat → Logged Use Printer → Except (Logged Use Stop) (Logged Use Printer)} {t : Logged Use Printer}
    {s : Slot} (before : ∀ item ∈ t.log, P item)
    (nested : p.classify s = .ok .dir → ∀ st, Only P (subTraced (p.flc s) { t with value := st })) :
    Only P (enterSlotTraced p subTraced t s) := by
  rw [enterSlotTraced]
  cases isKind : p.classify s with
  | error fault => exact before
  | ok kind =>
    cases kind with
    | skip => exact before
    | file => exact before
    | dir => exact nested isKind _

/-- The first pass with the log. -/
abbrev listLoop (p : Image) : Nat → Nat → Logged Use Printer → Except (Logged Use Stop) (Logged Use Printer) :=
  clusterLoopTraced p Printer.stop fun c t => keep t.log (listSector p (clusterAddr c) t.value)

/-- The body of the second pass with the log, its scans nested up to the given depth. -/
abbrev scanBody (p : Image) (depth c : Nat) (t : Logged Use Printer) : Except (Logged Use Stop) (Logged Use Printer) :=
  (clusterSlots c).foldlM (enterSlotTraced p (parseSubTraced p depth)) t

theorem parseSubTraced_succ (fuel c : Nat) (t : Logged Use Printer) : parseSubTraced p (fuel + 1) c t =
    listLoop p (fuel + 1) c t >>= clusterLoopTraced p Printer.stop (scanBody p fuel) (fuel + 1) c := by
  rw [parseSubTraced]

theorem listLoop_erases (fuel c : Nat) (t : Logged Use Printer) : Erases (listLoop p fuel c t)
    (clusterLoop p Printer.stop (fun c st => listSector p (clusterAddr c) st) fuel c t.value) :=
  clusterLoopTraced_erases (fun _ t => erases_keep t.log _) fuel c t

theorem keep_returns {c : Nat} {t t' : Logged Use Printer}
    (returns : keep t.log (listSector p (clusterAddr c) t.value) = .ok t') : Listed p c := by
  obtain ⟨st, run, -⟩ := Related.returns (erases_keep t.log (listSector p (clusterAddr c) t.value)) returns
  exact ⟨t.value, st, run⟩

/-- A first pass that returns has listed a chain. -/
theorem listLoop_returns {fuel c : Nat} {t t' : Logged Use Printer} (returns : listLoop p fuel c t = .ok t') :
    ∃ cs, Follows p c cs ∧ cs.length < fuel ∧ ∀ k ∈ cs, Listed p k := by
  obtain ⟨st, run, -⟩ := Related.returns (listLoop_erases fuel c t) returns
  obtain ⟨cs, follows, len, listing⟩ := clusterLoop_ok run
  refine ⟨cs, follows, len, fun k mem => ?_⟩
  obtain ⟨before, after, sector⟩ := exists_step_of_foldlM mem listing
  exact ⟨before, after, sector⟩

theorem scan_erases (depth : Nat) (ss : List Slot) (t : Logged Use Printer) :
    Erases (ss.foldlM (enterSlotTraced p (parseSubTraced p depth)) t)
      (ss.foldlM (enterSlot p (parseSub p depth)) t.value) :=
  scanTraced_erases (parseSubTraced_erases depth) ss t

/-- The second pass over some clusters is the scan of their slots. -/
theorem rounds_erase (depth : Nat) (cs : List Nat) (t : Logged Use Printer) :
    Erases (cs.foldlM (fun t c => round (scanBody p depth) c t) t)
      ((cs.flatMap clusterSlots).foldlM (enterSlot p (parseSub p depth)) t.value) := by
  have each : ∀ (c : Nat) (t : Logged Use Printer), Erases (round (scanBody p depth) c t)
      ((clusterSlots c).foldlM (enterSlot p (parseSub p depth)) t.value) :=
    @round_erases _ _ _ (fun c st => (clusterSlots c).foldlM (enterSlot p (parseSub p depth)) st) fun c t =>
      scan_erases depth (clusterSlots c) t
  rw [foldlM_flatMap]
  exact Related.foldlM (fun t _ c same => same ▸ each c t) cs rfl

theorem scanned_append {depth : Nat} {cs : List Nat} {ss : List Slot} {t t' u u' : Logged Use Printer}
    (rounds : cs.foldlM (fun t c => round (scanBody p depth) c t) t = .ok t')
    (slots : ss.foldlM (enterSlotTraced p (parseSubTraced p depth)) u = .ok u') :
    Scanned p (cs.flatMap clusterSlots ++ ss) := by
  obtain ⟨st, first, -⟩ := Related.returns (rounds_erase depth cs t) rounds
  obtain ⟨_, second, -⟩ := Related.returns (scan_erases depth ss u) slots
  obtain ⟨st', second, -⟩ := (scan_returns (Nat.le_refl depth) ss u.value st).returns second
  refine ⟨depth, t.value, st', ?_⟩
  rw [List.foldlM_append, first]
  exact second

/-- Only uses of the walk are logged. -/
theorem parseSubTraced_only {c₀ : Nat} : ∀ {fuel c : Nat} {t : Logged Use Printer},
    ReflTransGen (Calls p (Listed p) (Scanned p)) c₀ c → (∀ item ∈ t.log, Walked p c₀ item) →
      Only (Walked p c₀) (parseSubTraced p fuel c t) := by
  intro fuel
  induction fuel with
  | zero => exact fun _ before => before
  | succ fuel ih =>
    intro c t reached before
    rw [parseSubTraced_succ]
    refine Only.bind ?_ fun t' returns before' => ?_
    · refine clusterLoopTraced_only (R := Next p (Listed p)) ?_ ?_ before
      · exact fun a b t t' le returns fat => ⟨le, keep_returns returns, fat⟩
      · intro k path le
        have visit : Visits p c₀ k := ⟨⟨c, reached, path⟩, le⟩
        exact ⟨visit, fun t before => only_keep before _, fun t t' returns => ⟨visit, keep_returns returns⟩⟩
    · obtain ⟨cs, follows, len, all⟩ := listLoop_returns returns
      rw [clusterLoopTraced, clusterLoop_eq follows len]
      apply only_foldlM before'
      intro front k back t₁ split rounds before₁
      have mem : k ∈ cs := by rw [split]; simp
      obtain ⟨le, path⟩ := reached_of_follows follows all mem
      have visit : Visits p c₀ k := ⟨⟨c, reached, path⟩, le⟩
      refine round_only before₁ visit (fun t₂ before₂ => ?_) fun _ _ _ => ⟨visit, all k mem⟩
      apply only_foldlM before₂
      intro earlier s later t₃ split' slots before₃
      refine enterSlotTraced_only before₃ fun isDir st => ih (reached.tail ?_) before₃
      have whole : cs.flatMap clusterSlots =
          (front.flatMap clusterSlots ++ earlier) ++ s :: (later ++ back.flatMap clusterSlots) := by
        rw [split, List.flatMap_append, List.flatMap_cons, split']
        simp
      exact ⟨follows, all, whole, scanned_append rounds slots, isDir, rfl⟩

/-- With enough fuel `parse_sub` on `c` logs the item. -/
def Logs (p : Image) (c : Nat) (item : Use) : Prop :=
  ∃ bound, ∀ fuel, bound ≤ fuel → ∀ t, item ∈ trace (parseSubTraced p fuel c t)

/-- With enough fuel the first pass from `c` logs the item. -/
def ListLogs (p : Image) (c : Nat) (item : Use) : Prop :=
  ∃ bound, ∀ fuel, bound ≤ fuel → ∀ t, item ∈ trace (listLoop p fuel c t)

theorem list_grows (c : Nat) (t : Logged Use Printer) : t.log ⊆ trace (keep t.log (listSector p (clusterAddr c) t.value)) := by
  rw [trace_keep]
  exact fun _ mem => mem

theorem slot_grows (depth : Nat) (t : Logged Use Printer) (s : Slot) :
    t.log ⊆ trace (enterSlotTraced p (parseSubTraced p depth) t s) :=
  enterSlotTraced_grows (parseSubTraced_grows depth) t s

theorem scan_grows (depth c : Nat) (t : Logged Use Printer) : t.log ⊆ trace (scanBody p depth c t) :=
  trace_foldlM (slot_grows depth) _ t

theorem Listed.traced {c : Nat} (listed : Listed p c) (t : Logged Use Printer) :
    ∃ t', keep t.log (listSector p (clusterAddr c) t.value) = .ok t' := by
  obtain ⟨st, st', run⟩ := listed
  obtain ⟨r, returns, -⟩ := (listSector_returns (clusterAddr c) st t.value).returns run
  exact ⟨⟨t.log, r⟩, by rw [returns]; rfl⟩

theorem ListLogs.address {c : Nat} (le : c ≤ 0xff0) : ListLogs p c (.address c) := by
  refine ⟨1, fun fuel some t => ?_⟩
  obtain ⟨fuel, rfl⟩ : ∃ k, fuel = k + 1 := ⟨fuel - 1, by omega⟩
  exact mem_trace_of_round list_grows le (address_mem_round list_grows c t)

theorem ListLogs.lookup {c : Nat} (le : c ≤ 0xff0) (listed : Listed p c) : ListLogs p c (.lookup c) := by
  refine ⟨1, fun fuel some t => ?_⟩
  obtain ⟨fuel, rfl⟩ : ∃ k, fuel = k + 1 := ⟨fuel - 1, by omega⟩
  obtain ⟨t', returns⟩ := listed.traced (t.add (.address c))
  exact mem_trace_of_round list_grows le (lookup_mem_round returns)

theorem ListLogs.reaches {c k : Nat} {item : Use} (path : ReflTransGen (Next p (Listed p)) c k)
    (logs : ListLogs p k item) : ListLogs p c item := by
  induction path using ReflTransGen.head_induction_on with
  | refl => exact logs
  | @head a b first _ ih =>
    obtain ⟨le, listed, fat⟩ := first
    obtain ⟨bound, later⟩ := ih
    refine ⟨bound + 1, fun fuel more t => ?_⟩
    obtain ⟨fuel, rfl⟩ : ∃ k, fuel = k + 1 := ⟨fuel - 1, by omega⟩
    obtain ⟨t', returns⟩ := listed.traced (t.add (.address a))
    exact mem_trace_of_next le (round_returns returns) fat (later fuel (by omega) _)

theorem ListLogs.logs {c : Nat} {item : Use} (logs : ListLogs p c item) : Logs p c item := by
  obtain ⟨bound, logged⟩ := logs
  refine ⟨bound + 1, fun fuel more t => ?_⟩
  obtain ⟨fuel, rfl⟩ : ∃ k, fuel = k + 1 := ⟨fuel - 1, by omega⟩
  rw [parseSubTraced_succ]
  refine trace_bind (fun t => ?_) (logged (fuel + 1) (by omega) t)
  exact clusterLoopTraced_grows (scan_grows fuel) (fuel + 1) c t

/-- The first pass over a listed chain returns. -/
theorem listLoop_traced {c fuel : Nat} {cs : List Nat} (follows : Follows p c cs) (len : cs.length < fuel)
    (all : ∀ k ∈ cs, Listed p k) (t : Logged Use Printer) : ∃ t', listLoop p fuel c t = .ok t' := by
  rw [listLoop, clusterLoopTraced, clusterLoop_eq follows len]
  clear follows len
  induction cs generalizing t with
  | nil => exact ⟨t, rfl⟩
  | cons k cs ih =>
    obtain ⟨t', returns⟩ := (all k (by simp)).traced (t.add (.address k))
    rw [List.foldlM_cons, round_returns returns, ok_bind]
    exact ih (fun k mem => all k (List.mem_cons_of_mem _ mem)) _

theorem Logs.calls {c b : Nat} {item : Use} (calls : Calls p (Listed p) (Scanned p) c b) (logs : Logs p b item) :
    Logs p c item := by
  obtain ⟨boundNext, later⟩ := logs
  obtain ⟨follows, all, slots, ⟨depth, st, st', run⟩, isDir, first⟩ := calls
  obtain ⟨front, k, back, earlier, rest, rfl, split, rfl⟩ := split_flatMap slots
  rw [List.foldlM_append, bind_eq_ok] at run
  obtain ⟨st₁, inFront, inCluster⟩ := run
  refine ⟨max (max depth boundNext) (front ++ k :: back).length + 1, fun fuel more t => ?_⟩
  obtain ⟨fuel, rfl⟩ : ∃ k, fuel = k + 1 := ⟨fuel - 1, by omega⟩
  -- the first pass lists the chain, the second one comes to the slot
  obtain ⟨t₁, listed⟩ := listLoop_traced follows (show _ < fuel + 1 by omega) all t
  obtain ⟨r, returns, -⟩ := (scan_returns (show depth ≤ fuel by omega) _ st t₁.value).returns inFront
  obtain ⟨t₂, rounds, -⟩ := (rounds_erase fuel front t₁).traced returns
  obtain ⟨r', returns', -⟩ := (scan_returns (show depth ≤ fuel by omega) _ st₁ t₂.value).returns inCluster
  obtain ⟨t₃, scanned, -⟩ := (scan_erases fuel earlier (t₂.add (.address k))).traced returns'
  rw [parseSubTraced_succ, listed, ok_bind, clusterLoopTraced, clusterLoop_eq follows (by omega)]
  refine mem_trace_foldlM (fun t c => round_grows (scan_grows fuel) c t) rounds (mem_trace_of_body ?_)
  rw [scanBody, split]
  refine mem_trace_foldlM (slot_grows fuel) scanned (mem_trace_enterSlot isDir fun st => ?_)
  exact first ▸ later fuel (by omega) _

theorem Logs.reaches {c d : Nat} {item : Use} (path : ReflTransGen (Calls p (Listed p) (Scanned p)) c d)
    (logs : Logs p d item) : Logs p c item := by
  induction path using ReflTransGen.head_induction_on with
  | refl => exact logs
  | head first _ ih => exact ih.calls first

theorem Logs.uses {c : Nat} {item : Use} (logs : Logs p c item) : Uses p c item := by
  obtain ⟨bound, logged⟩ := logs
  exact ⟨bound, ⟨[], []⟩, logged bound (Nat.le_refl bound) ⟨[], ⟨[], []⟩⟩⟩

/-- **What `parse_sub` does with cluster numbers** is what the walk from `c` comes to. -/
theorem uses_iff {c : Nat} (item : Use) : Uses p c item ↔ Walked p c item := by
  constructor
  · rintro ⟨fuel, st, mem⟩
    exact parseSubTraced_only .refl (by simp) item mem
  · intro walked
    cases item with
    | address k =>
      obtain ⟨⟨d, calls, chain⟩, le⟩ := walked
      exact (((ListLogs.address le).reaches chain).logs.reaches calls).uses
    | lookup k =>
      obtain ⟨⟨⟨d, calls, chain⟩, le⟩, listed⟩ := walked
      exact (((ListLogs.lookup le listed).reaches chain).logs.reaches calls).uses

end DiskList

/-- **Only data clusters are read** as directories exactly when the links name none but data clusters. -/
theorem only_data_clusters_iff (sectors : Sectors p N) (c : Nat) :
    (OnlyData p N (DiskInfo.Uses p c) ↔ DiskInfo.LinksToData p N c) ∧
      (OnlyData p N (DiskList.Uses p c) ↔ DiskList.LinksToData p N c) := by
  rw [onlyData_iff_visits (fun k => DiskInfo.uses_iff (.address k)) fun k => DiskInfo.uses_iff (.lookup k),
    onlyData_iff_visits (fun k => DiskList.uses_iff (.address k)) fun k => DiskList.uses_iff (.lookup k)]
  exact ⟨DiskInfo.visitsData_iff sectors, DiskList.visitsData_iff sectors⟩

theorem selfLink_linked {k : Nat} (path : ReflTransGen (Link selfLink) 2 k) : k = 2 := by
  induction path with
  | refl => rfl
  | tail _ last ih =>
    subst ih
    cases last with
    | next _ _ fat =>
      rw [selfLink_fat, Except.ok.injEq] at fat
      exact fat.symm
    | @entry before s after _ split _ isDir _ =>
      rw [selfLink_blank s (by rw [split]; simp)] at isDir
      cases isDir

theorem only_data_clusters_selfLink :
    OnlyData selfLink 34 (DiskInfo.Uses selfLink 2) ∧ OnlyData selfLink 34 (DiskList.Uses selfLink 2) := by
  have sectors : Sectors selfLink 34 := ⟨by decide, by decide, by decide, by decide⟩
  have data : ∀ P, IsData selfLink 34 P 2 :=
    fun P => ⟨by decide, by decide, by decide, fun _ => by unfold FatInside; decide⟩
  obtain ⟨count, list⟩ := only_data_clusters_iff sectors 2
  constructor
  · apply count.2
    intro k path _
    obtain rfl := selfLink_linked (ReflTransGen.mono (fun _ _ => Leads.mono fun _ _ => trivial) _ _ path)
    exact data _
  · apply list.2
    intro k path _
    obtain rfl := selfLink_linked path.linked
    exact data _

/-- An image of 34 sectors with one root entry, a directory at cluster 2, whose FAT entry is 0. -/
def freeLink : Image where
  size := 17408
  byte a := if a.val = 12 then 2 else if a.val = 14 then 1 else if a.val = 19 then 34 else
    if a.val = 9728 then 0x41 else if a.val = 9739 then 0x10 else if a.val = 9754 then 2 else 0

/-- The directory in the first root slot is read on in cluster 0. -/
theorem free_cluster_read : Sectors freeLink 34 ∧ freeLink.kind (rootSlot 0) = .dir ∧
    ¬ OnlyData freeLink 34 (DiskInfo.Uses freeLink (freeLink.flc (rootSlot 0))) ∧
    ¬ OnlyData freeLink 34 (DiskList.Uses freeLink (freeLink.flc (rootSlot 0))) := by
  have sectors : Sectors freeLink 34 := ⟨by decide, by decide, by decide, by decide⟩
  have counted : DiskInfo.Uses freeLink (freeLink.flc (rootSlot 0)) (.address 0) := ⟨2, by decide +kernel⟩
  have listed : DiskList.Uses freeLink (freeLink.flc (rootSlot 0)) (.address 0) := ⟨2, ⟨[], []⟩, by decide +kernel⟩
  refine ⟨sectors, by decide, fun only => ?_, fun only => ?_⟩
  · exact absurd (only.address counted).1 (by decide)
  · exact absurd (only.address listed).1 (by decide)

end CSC360.Disk
