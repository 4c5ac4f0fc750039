import CSC360.Disk.WalkEnds

/-!
# The clusters a walk comes to

Links lead a walk from cluster to cluster as long as the scans before them return. A walk comes
to data clusters only exactly when the links it gets to name data clusters only; here
the scans that return are told by the links too (`DiskInfo.visitsData_iff`, `DiskList.visitsData_iff`).
-/

namespace CSC360.Disk
open CSC360.Base Relation Filter

/-- An image of `N` sectors of 512 bytes whose header says so. The mapping may go on behind them,
to the end of a page. -/
structure Sectors (p : Image) (N : Nat) : Prop where
  size : N * SECTOR_SIZE ≤ p.size
  bytesPerSector : p.word 11 = 512
  count : p.word 19 = N
  enough : 34 ≤ N

/-- FAT entry `k` lies inside the image. -/
def FatInside (p : Image) (N k : Nat) : Prop :=
  0 ≤ p.fatTableLocation + Image.entryOffset k ∧ p.fatTableLocation + Image.entryOffset k + 2 ≤ (N * SECTOR_SIZE : Nat)

/-- `k` is the number of a data cluster, not reserved, and its FAT entry, if looked up, lies inside the image. -/
structure IsData (p : Image) (N : Nat) (lookedUp : Prop) (k : Nat) : Prop where
  low : 2 ≤ k
  notReserved : k < 0xff0
  inside : 31 + k < N
  entry : lookedUp → FatInside p N k

/-- The directories among the slots lead into no cycle of links. -/
def NoCycle (p : Image) (ss : List Slot) : Prop := ∀ s ∈ ss, p.classify s = .ok .dir → CycleFree (Link p) (p.flc s)

namespace DiskInfo

/-- The scan of the slots returns. -/
def Scanned (p : Image) (ss : List Slot) : Prop :=
  ∃ fuel total total', ss.foldlM (countSlot p (parseSub p fuel)) total = .ok total'

/-- A walk from `c` comes to `k`. -/
def Visits (p : Image) (c k : Nat) : Prop := ReflTransGen (Leads p (Scanned p)) c k ∧ k ≤ 0xff0

/-- A walk from `c` comes to data clusters only; the entry of `k` is looked up when the slots
of `k` have been scanned. -/
def VisitsData (p : Image) (N c : Nat) : Prop :=
  ∀ k, Visits p c k → IsData p N (Scanned p (clusterSlots k)) k

/-- The links from `c` on lead to data clusters only, as far as no cycle comes before. -/
def LinksToData (p : Image) (N c : Nat) : Prop :=
  ∀ k, ReflTransGen (Leads p (NoCycle p)) c k → k ≤ 0xff0 → IsData p N (NoCycle p (clusterSlots k)) k

end DiskInfo

namespace DiskList

/-- The printing of cluster `k` returns. -/
def Listed (p : Image) (k : Nat) : Prop := ∃ st st', listSector p (clusterAddr k) st = .ok st'

/-- The scan of the slots by the second pass returns. -/
def Scanned (p : Image) (ss : List Slot) : Prop :=
  ∃ fuel st st', ss.foldlM (enterSlot p (parseSub p fuel)) st = .ok st'

/-- The first pass goes on from `a` to `b` when `a` is `listed`. -/
def Next (p : Image) (listed : Nat → Prop) (a b : Nat) : Prop :=
  a ≤ 0xff0 ∧ listed a ∧ p.getFATEntry p.fatTableLocation a = .ok b

/-- `parse_sub` on `a`, all clusters of its chain being `listed`, calls itself on `b` from a slot
whose predecessors are `done`. -/
inductive Calls (p : Image) (listed : Nat → Prop) (done : List Slot → Prop) (a b : Nat) : Prop where
  | intro {cs before s after} : Follows p a cs → (∀ k ∈ cs, listed k) →
      cs.flatMap clusterSlots = before ++ s :: after → done before →
      p.classify s = .ok .dir → p.flc s = b → Calls p listed done a b

/-- From `c` on, calls and then the links of one chain lead to `k`. -/
def Reaches (p : Image) (listed : Nat → Prop) (done : List Slot → Prop) (c k : Nat) : Prop :=
  ∃ d, ReflTransGen (Calls p listed done) c d ∧ ReflTransGen (Next p listed) d k

/-- A walk from `c` comes to `k`; the second pass of a call comes to the clusters of its first pass. -/
def Visits (p : Image) (c k : Nat) : Prop := Reaches p (Listed p) (Scanned p) c k ∧ k ≤ 0xff0

/-- A walk from `c` comes to data clusters only. -/
def VisitsData (p : Image) (N c : Nat) : Prop := ∀ k, Visits p c k → IsData p N (Listed p k) k

/-- The listing of cluster `k` ends at a free slot, or the byte after the cluster is in the image. -/
def Stops (p : Image) (k : Nat) : Prop :=
  (∃ s ∈ sectorSlots (clusterAddr k), p.first s = 0) ∨ clusterAddr k + 513 ≤ p.size

/-- The directories among the slots lead into no cycle and to no cluster without a stop. -/
def Finite (p : Image) (ss : List Slot) : Prop :=
  ∀ s ∈ ss, p.classify s = .ok .dir →
    CycleFree (Link p) (p.flc s) ∧ ∀ k, ReflTransGen (Link p) (p.flc s) k → k ≤ 0xff0 → Stops p k

/-- The links from `c` on lead to data clusters only, as far as no cycle and no cluster without
a stop comes before. -/
def LinksToData (p : Image) (N c : Nat) : Prop :=
  ∀ k, Reaches p (Stops p) (Finite p) c k → k ≤ 0xff0 → IsData p N (Stops p k) k

end DiskList

variable {p : Image} {N : Nat}

theorem FatInside.entry (sectors : Sectors p N) {k : Nat} (inside : FatInside p N k) :
    ∃ b, p.getFATEntry p.fatTableLocation k = .ok b := by
  have size := sectors.size
  obtain ⟨low, high⟩ := inside
  simp only [Image.getFATEntry]
  exact ⟨_, if_pos ⟨low, by omega⟩⟩

theorem IsData.mono {P Q : Prop} {k : Nat} (data : IsData p N P k) (weaker : Q → P) : IsData p N Q k :=
  ⟨data.low, data.notReserved, data.inside, fun holds => data.entry (weaker holds)⟩

theorem clusterSlots_addr {k : Nat} {s : Slot} (mem : s ∈ clusterSlots k) :
    clusterAddr k ≤ s.addr ∧ s.addr + 32 ≤ clusterAddr k + 512 := by
  obtain ⟨i, lt, rfl⟩ := List.mem_map.1 mem
  have := List.mem_range.1 lt
  simp only
  omega

theorem Sectors.classify_ok (sectors : Sectors p N) {k : Nat} (inside : 31 + k < N) {s : Slot}
    (mem : s ∈ clusterSlots k) : p.classify s = .ok (p.kind s) := by
  have range := clusterSlots_addr mem
  have size := cluster_inside sectors.size inside
  exact classify_eq_ok.2 ⟨by unfold Readable; omega, rfl⟩

/-- A chain loop that fails is out of fuel or fails at a cluster it has come to. -/
theorem clusterLoop_error {ε σ : Type} {stop : σ → Fault → ε} {body : Nat → σ → Except ε σ} {R : Nat → Nat → Prop}
    (step : ∀ a b st st', a ≤ 0xff0 → body a st = .ok st' → p.getFATEntry p.fatTableLocation a = .ok b → R a b)
    {e : ε} : ∀ {fuel c : Nat} {st : σ}, clusterLoop p stop body fuel c st = .error e →
      ∃ k st', ReflTransGen R c k ∧ (e = stop st' .outOfFuel ∨ k ≤ 0xff0 ∧ (body k st' = .error e ∨
        ∃ st'' fault, body k st' = .ok st'' ∧ p.getFATEntry p.fatTableLocation k = .error fault ∧
          e = stop st'' fault)) := by
  intro fuel
  induction fuel with
  | zero =>
    intro c st run
    exact ⟨c, st, .refl, .inl (Except.error.inj run).symm⟩
  | succ fuel ih =>
    intro c st run
    rw [clusterLoop] at run
    by_cases le : c ≤ 0xff0
    · rw [if_pos le] at run
      cases here : body c st with
      | error e' =>
        rw [here, error_bind, Except.error.injEq] at run
        exact ⟨c, st, .refl, .inr ⟨le, .inl (run ▸ here)⟩⟩
      | ok st' =>
        cases fat : p.getFATEntry p.fatTableLocation c with
        | error fault =>
          rw [here, ok_bind, fat, mapError_error, error_bind, Except.error.injEq] at run
          exact ⟨c, st, .refl, .inr ⟨le, .inr ⟨st', fault, here, fat, run.symm⟩⟩⟩
        | ok b =>
          rw [here, ok_bind, fat, mapError_ok, ok_bind] at run
          obtain ⟨k, st'', path, fails⟩ := ih run
          exact ⟨k, st'', .head (step c b st st' le here fat) path, fails⟩
    · rw [if_neg le] at run
      cases run

/-! ## `diskinfo` -/

namespace DiskInfo

theorem Scanned.noCycle {ss : List Slot} (scanned : Scanned p ss) : NoCycle p ss := by
  intro s mem isDir
  obtain ⟨fuel, total, total', run⟩ := scanned
  obtain ⟨before, after, slot⟩ := exists_step_of_foldlM mem run
  rw [countSlot, isDir, ok_bind] at slot
  obtain ⟨sub, returns, _⟩ := bind_eq_ok.1 slot
  exact (parseSub_pathsEnd returns).cycleFree

theorem VisitsData.reached {c b : Nat} (only : VisitsData p N c) (path : ReflTransGen (Leads p (Scanned p)) c b) :
    VisitsData p N b :=
  fun k later => only k ⟨path.trans later.1, later.2⟩

/-- A walk of data clusters only never leaves the image. -/
theorem VisitsData.stays_inside (sectors : Sectors p N) : ∀ {fuel c : Nat}, VisitsData p N c →
    ∀ o, parseSub p fuel c ≠ .error (.outside o) := by
  intro fuel
  induction fuel with
  | zero => intro c _ o run; cases run
  | succ fuel ih =>
    intro c only o run
    have step : ∀ a b total total', a ≤ 0xff0 →
        (clusterSlots a).foldlM (countSlot p (parseSub p fuel)) total = .ok total' →
          p.getFATEntry p.fatTableLocation a = .ok b → Leads p (Scanned p) a b :=
      fun a b total total' le scan fat => .next le ⟨fuel, total, total', scan⟩ fat
    obtain ⟨k, total, path, fuelOut | ⟨le, scan | ⟨total', fault, scan, fat, _⟩⟩⟩ := clusterLoop_error step run
    · cases fuelOut
    · have data := only k ⟨path, le⟩
      obtain ⟨before, s, after, total', split, earlier, fails⟩ := exists_step_of_foldlM_error scan
      have kind := sectors.classify_ok data.inside (by rw [split]; simp : s ∈ clusterSlots k)
      have here : Readable p s := (classify_eq_ok.1 kind).1
      by_cases isDir : p.kind s = .dir
      · rw [isDir] at kind
        have leads : Leads p (Scanned p) k (p.flc s) := .entry le split ⟨fuel, total, total', earlier⟩ kind rfl
        have below := ih (only.reached (path.tail leads))
        rw [countSlot_dir here isDir] at fails
        cases sub : parseSub p fuel (p.flc s) with
        | ok n => simp only [sub, ok_bind] at fails; cases fails
        | error fault =>
          simp only [sub, error_bind, Except.error.injEq] at fails
          exact below o (fails ▸ sub)
      · rw [countSlot_leaf here isDir] at fails
        cases fails
    · obtain ⟨b, entry⟩ := ((only k ⟨path, le⟩).entry ⟨fuel, total, total', scan⟩).entry sectors
      rw [entry] at fat
      cases fat

/-- Where a walk comes to data clusters only, scans of slots that lead into no cycle return. -/
theorem VisitsData.scanned (sectors : Sectors p N) {c : Nat} (only : VisitsData p N c) (le : c ≤ 0xff0)
    {ss rest : List Slot} (slots : clusterSlots c = ss ++ rest) (noCycle : NoCycle p ss) : Scanned p ss := by
  have ends : Ends atTop (fun _ => False) fun fuel => ss.foldlM (countSlot p (parseSub p fuel)) 0 := by
    apply Ends.foldlM
    intro before s after total split settles
    obtain ⟨fuel, earlier⟩ := settles.exists
    have slots' : clusterSlots c = before ++ s :: (after ++ rest) := by rw [slots, split]; simp
    have kind := sectors.classify_ok (only c ⟨.refl, le⟩).inside (by rw [slots']; simp : s ∈ clusterSlots c)
    apply countSlot_ends (by simp [kind])
    intro isDir
    have leads : Leads p (Scanned p) c (p.flc s) := .entry le slots' ⟨fuel, 0, total, earlier⟩ isDir rfl
    have pathsEnd := (noCycle s (by rw [split]; simp) isDir).pathsEnd finite_links
    apply (parseSub_ends pathsEnd).exclude
    intro fuel fault run notFuel
    cases fault with
    | outside o => exact (only.reached (.single leads)).stays_inside sectors o run
    | outOfFuel => exact notFuel rfl
  obtain ⟨fuel, total, run⟩ := ends.returns
  exact ⟨fuel, 0, total, run⟩

theorem VisitsData.reaches (sectors : Sectors p N) {c k : Nat} (only : VisitsData p N c)
    (path : ReflTransGen (Leads p (NoCycle p)) c k) : ReflTransGen (Leads p (Scanned p)) c k := by
  induction path with
  | refl => exact .refl
  | @tail a b _ last ih =>
    have here := only.reached ih
    apply ih.tail
    cases last with
    | next le noCycle fat => exact .next le (here.scanned sectors le (List.append_nil _).symm noCycle) fat
    | entry le slots noCycle isDir first => exact .entry le slots (here.scanned sectors le slots noCycle) isDir first

theorem visitsData_iff (sectors : Sectors p N) {c : Nat} : VisitsData p N c ↔ LinksToData p N c := by
  constructor
  · intro only k path le
    have reached := only.reaches sectors path
    apply (only k ⟨reached, le⟩).mono
    exact (only.reached reached).scanned sectors le (List.append_nil _).symm
  · rintro links k ⟨path, le⟩
    have static : ReflTransGen (Leads p (NoCycle p)) c k :=
      ReflTransGen.mono (fun _ _ => Leads.mono fun _ => Scanned.noCycle) _ _ path
    exact (links k static le).mono Scanned.noCycle

end DiskInfo

/-! ## `disklist` -/

theorem Follows.start_mem {c : Nat} {cs : List Nat} (follows : Follows p c cs) : 0xff0 < c ∨ c ∈ cs := by
  cases follows with
  | stop above => exact .inl above
  | link => exact .inr (List.mem_cons_self ..)

theorem Follows.next_mem {c : Nat} {cs : List Nat} (follows : Follows p c cs) {k b : Nat} (mem : k ∈ cs)
    (fat : p.getFATEntry p.fatTableLocation k = .ok b) : 0xff0 < b ∨ b ∈ cs := by
  induction follows with
  | stop => cases mem
  | @link c next cs le fat' rest ih =>
    cases mem with
    | head =>
      rw [fat, Except.ok.injEq] at fat'
      exact fat' ▸ rest.start_mem.imp_right (List.mem_cons_of_mem _)
    | tail _ mem => exact (ih mem).imp_right (List.mem_cons_of_mem _)

namespace DiskList

theorem printSlots_stops : ∀ {left temp : Nat} {st r : Printer}, printSlots p left temp st = .ok r →
    (∃ s ∈ slotsFrom left temp, p.first s = 0) ∨ temp + 32 * left + 1 ≤ p.size := by
  intro left
  induction left with
  | zero =>
    intro temp st r run
    obtain ⟨_, read, _⟩ := bind_eq_ok.1 (printSlots.eq_1 p temp st ▸ run)
    exact .inr (Image.read_eq_ok.1 (checked_eq_ok.1 read)).1
  | succ left ih =>
    intro temp st r run
    rw [printSlots, bind_eq_ok] at run
    obtain ⟨b, read, run⟩ := run
    obtain ⟨_, rfl⟩ := Image.read_eq_ok.1 (checked_eq_ok.1 read)
    rw [slotsFrom_succ]
    by_cases free : p.byteAt temp = 0x00
    · exact .inl ⟨⟨temp, true⟩, by simp, free⟩
    · rw [if_neg free, bind_eq_ok] at run
      obtain ⟨st', _, run⟩ := run
      obtain ⟨s, mem, isFree⟩ | inside := ih run
      · exact .inl ⟨s, List.mem_cons_of_mem _ mem, isFree⟩
      · exact .inr (by omega)

theorem Listed.stops {k : Nat} (listed : Listed p k) : Stops p k := by
  obtain ⟨st, st', run⟩ := listed
  obtain ⟨_, printed, _⟩ := bind_eq_ok.1 run
  exact (printSlots_stops printed).imp_right fun inside => by omega

theorem Stops.listed (sectors : Sectors p N) {k : Nat} (inside : 31 + k < N) (stops : Stops p k) : Listed p k :=
  ⟨⟨[], []⟩, _, listSector_eq ⟨cluster_inside sectors.size inside, stops⟩ _⟩

/-- A run that returns has listed every cluster that links lead to. -/
theorem parseSub_stops : ∀ {fuel c : Nat} {st r : Printer}, parseSub p fuel c st = .ok r →
    ∀ k, ReflTransGen (Link p) c k → k ≤ 0xff0 → Stops p k := by
  intro fuel
  induction fuel with
  | zero => intro c st r run; simp [parseSub] at run
  | succ fuel ih =>
    intro c st r run k path le
    rw [parseSub, bind_eq_ok] at run
    obtain ⟨st', listing, run⟩ := run
    obtain ⟨cs, follows, _, listing⟩ := clusterLoop_ok listing
    obtain ⟨ds, follows', _, entering⟩ := clusterLoop_ok run
    obtain rfl := follows.unique follows'
    have fromChain : ∀ {a}, ReflTransGen (Link p) a k → (0xff0 < a ∨ a ∈ cs) → Stops p k := by
      intro a path
      induction path using ReflTransGen.head_induction_on with
      | refl =>
        rintro (above | mem)
        · omega
        · obtain ⟨st, st', sector⟩ := exists_step_of_foldlM mem listing
          exact Listed.stops ⟨st, st', sector⟩
      | @head a b first rest ih' =>
        rintro (above | mem)
        · exact absurd first.le (by omega)
        · cases first with
          | next _ _ fat => exact ih' (follows.next_mem mem fat)
          | @entry before s after _ split _ isDir entry =>
            obtain ⟨st, st', cluster⟩ := exists_step_of_foldlM mem entering
            obtain ⟨before, after, slot⟩ := exists_step_of_foldlM (by rw [split]; simp : s ∈ clusterSlots a) cluster
            rw [enterSlot, descend, isDir, checked_ok, ok_bind] at slot
            exact ih slot k (entry ▸ rest) le
    exact fromChain path follows.start_mem

theorem Scanned.finite {ss : List Slot} (scanned : Scanned p ss) : Finite p ss := by
  intro s mem isDir
  obtain ⟨fuel, st, st', run⟩ := scanned
  obtain ⟨before, after, slot⟩ := exists_step_of_foldlM mem run
  rw [enterSlot, descend, isDir, checked_ok, ok_bind] at slot
  exact ⟨(parseSub_pathsEnd slot).cycleFree, parseSub_stops slot⟩

section Relations

variable {listed listed' : Nat → Prop} {done done' : List Slot → Prop} {c d k : Nat} {cs : List Nat}

theorem Next.mono (weaker : ∀ k, listed k → listed' k) (next : Next p listed c k) : Next p listed' c k :=
  ⟨next.1, weaker c next.2.1, next.2.2⟩

theorem Calls.mono (weaker : ∀ k, listed k → listed' k) (weaker' : ∀ ss, done ss → done' ss)
    (calls : Calls p listed done c k) : Calls p listed' done' c k := by
  obtain ⟨follows, all, split, earlier, isDir, first⟩ := calls
  exact ⟨follows, fun k mem => weaker k (all k mem), split, weaker' _ earlier, isDir, first⟩

theorem Reaches.mono (weaker : ∀ k, listed k → listed' k) (weaker' : ∀ ss, done ss → done' ss)
    (reaches : Reaches p listed done c k) : Reaches p listed' done' c k := by
  obtain ⟨d, calls, chain⟩ := reaches
  exact ⟨d, ReflTransGen.mono (fun _ _ => Calls.mono weaker weaker') _ _ calls,
    ReflTransGen.mono (fun _ _ => Next.mono weaker) _ _ chain⟩

theorem Reaches.head (calls : Calls p listed done c d) (reaches : Reaches p listed done d k) :
    Reaches p listed done c k := by
  obtain ⟨e, rest, chain⟩ := reaches
  exact ⟨e, .head calls rest, chain⟩

/-- The loop comes to all clusters of a listed chain. -/
theorem reached_of_follows (follows : Follows p c cs) (all : ∀ k ∈ cs, listed k) (mem : k ∈ cs) :
    k ≤ 0xff0 ∧ ReflTransGen (Next p listed) c k := by
  induction follows with
  | stop => cases mem
  | @link c next cs le fat _ ih =>
    cases mem with
    | head => exact ⟨le, .refl⟩
    | tail _ mem =>
      obtain ⟨le', path⟩ := ih (fun k mem => all k (List.mem_cons_of_mem c mem)) mem
      exact ⟨le', .head ⟨le, all c (by simp), fat⟩ path⟩

theorem linked_of_next (path : ReflTransGen (Next p listed) c k) : ReflTransGen (Link p) c k :=
  ReflTransGen.mono (fun _ _ next => .next next.1 trivial next.2.2) _ _ path

theorem Calls.linked (calls : Calls p listed done c d) : ReflTransGen (Link p) c d := by
  cases calls with
  | @intro cs before s after follows all split _ isDir first =>
    have mem : s ∈ cs.flatMap clusterSlots := by rw [split]; simp
    obtain ⟨k, inChain, inCluster⟩ := List.mem_flatMap.1 mem
    obtain ⟨le, path⟩ := reached_of_follows follows all inChain
    exact first ▸ (linked_of_next path).tail (.ofSlot le inCluster isDir)

theorem linked_of_calls (path : ReflTransGen (Calls p listed done) c d) : ReflTransGen (Link p) c d := by
  induction path with
  | refl => exact .refl
  | tail _ last ih => exact ih.trans last.linked

/-- Where calls and chains lead, links lead. -/
theorem Reaches.linked (reaches : Reaches p listed done c k) : ReflTransGen (Link p) c k := by
  obtain ⟨d, calls, chain⟩ := reaches
  exact (linked_of_calls calls).trans (linked_of_next chain)

end Relations

theorem VisitsData.reached {c d : Nat} (only : VisitsData p N c)
    (path : ReflTransGen (Calls p (Listed p) (Scanned p)) c d) : VisitsData p N d := by
  rintro k ⟨⟨e, calls, chain⟩, le⟩
  exact only k ⟨⟨e, path.trans calls, chain⟩, le⟩

theorem VisitsData.chain {c : Nat} (only : VisitsData p N c) (k : Nat) (path : ReflTransGen (Next p (Listed p)) c k)
    (le : k ≤ 0xff0) : IsData p N (Listed p k) k :=
  only k ⟨⟨c, .refl, path⟩, le⟩

/-- The first pass over data clusters, every one with a stop, stays in the image. -/
theorem VisitsData.listing_inside (sectors : Sectors p N) {fuel c : Nat} {st : Printer} (only : VisitsData p N c)
    (stops : ∀ k, Visits p c k → Stops p k) {e : Stop} {o : Int}
    (listing : clusterLoop p Printer.stop (fun c st => listSector p (clusterAddr c) st) fuel c st = .error e) :
    e.fault ≠ .outside o := by
  have step : ∀ a b st st', a ≤ 0xff0 → listSector p (clusterAddr a) st = .ok st' →
      p.getFATEntry p.fatTableLocation a = .ok b → Next p (Listed p) a b :=
    fun a b st st' le sector fat => ⟨le, ⟨st, st', sector⟩, fat⟩
  obtain ⟨k, st', path, fuelOut | ⟨le, sector | ⟨st'', fault, _, fat, _⟩⟩⟩ := clusterLoop_error step listing
  · rw [fuelOut]
    simp [Printer.stop]
  · have listable : Listable p (clusterAddr k) :=
      ⟨cluster_inside sectors.size (only.chain k path le).inside, stops k ⟨⟨c, .refl, path⟩, le⟩⟩
    rw [listSector_eq listable] at sector
    cases sector
  · have data := only.chain k path le
    have listed := (stops k ⟨⟨c, .refl, path⟩, le⟩).listed sectors data.inside
    obtain ⟨b, entry⟩ := (data.entry listed).entry sectors
    rw [entry] at fat
    cases fat

/-- A walk of data clusters only, every one with a stop, never leaves the image. -/
theorem VisitsData.stays_inside (sectors : Sectors p N) : ∀ {fuel c : Nat} {st : Printer}, VisitsData p N c →
    (∀ k, Visits p c k → Stops p k) → ∀ e o, parseSub p fuel c st = .error e → e.fault ≠ .outside o := by
  intro fuel
  induction fuel with
  | zero =>
    intro c st _ _ e o run
    cases run
    simp [Printer.stop]
  | succ fuel ih =>
    intro c st only stops e o run outside
    rw [parseSub] at run
    cases listing : clusterLoop p Printer.stop (fun c st => listSector p (clusterAddr c) st) (fuel + 1) c st with
    | error e' =>
      rw [listing, error_bind, Except.error.injEq] at run
      exact only.listing_inside sectors stops listing (run ▸ outside)
    | ok st' =>
      -- the second pass calls `parse_sub` from a slot of the listed chain
      rw [listing, ok_bind] at run
      obtain ⟨cs, follows, len, listing⟩ := clusterLoop_ok listing
      have all : ∀ k ∈ cs, Listed p k := by
        intro k mem
        obtain ⟨before, after, sector⟩ := exists_step_of_foldlM mem listing
        exact ⟨before, after, sector⟩
      rw [clusterLoop_eq follows len, ← foldlM_flatMap] at run
      obtain ⟨before, s, after, st'', split, earlier, fails⟩ := exists_step_of_foldlM_error run
      have mem : s ∈ cs.flatMap clusterSlots := by rw [split]; simp
      obtain ⟨k, inChain, inCluster⟩ := List.mem_flatMap.1 mem
      obtain ⟨le, path⟩ := reached_of_follows follows all inChain
      have kind := sectors.classify_ok (only.chain k path le).inside inCluster
      have here : Readable p s := (classify_eq_ok.1 kind).1
      by_cases isDir : p.kind s = .dir
      · rw [isDir] at kind
        have calls : Calls p (Listed p) (Scanned p) c (p.flc s) :=
          ⟨follows, all, split, ⟨fuel, _, _, earlier⟩, kind, rfl⟩
        have later : ∀ k, Visits p (p.flc s) k → Stops p k :=
          fun k reached => stops k ⟨reached.1.head calls, reached.2⟩
        rw [enterSlot, descend_dir here isDir] at fails
        exact ih (only.reached (.single calls)) later e o fails outside
      · rw [enterSlot, descend_leaf here isDir] at fails
        cases fails

/-- Where a walk comes to data clusters only, a chain with stops is listed. -/
theorem listed_of_stops (sectors : Sectors p N) {c : Nat} {cs : List Nat} (follows : Follows p c cs)
    (data : ∀ k, ReflTransGen (Next p (Listed p)) c k → k ≤ 0xff0 → IsData p N (Listed p k) k)
    (stops : ∀ k ∈ cs, Stops p k) : ∀ k ∈ cs, Listed p k := by
  induction follows with
  | stop => simp
  | @link c next cs le fat _ ih =>
    have listed : Listed p c := (stops c (by simp)).listed sectors (data c .refl le).inside
    have first : Next p (Listed p) c next := ⟨le, listed, fat⟩
    have rest := ih (fun k path => data k (.head first path)) fun k mem => stops k (List.mem_cons_of_mem c mem)
    intro k mem
    cases mem with
    | head => exact listed
    | tail _ mem => exact rest k mem

theorem VisitsData.scanned (sectors : Sectors p N) {c : Nat} (only : VisitsData p N c) {cs : List Nat}
    (follows : Follows p c cs) (all : ∀ k ∈ cs, Listed p k) {ss rest : List Slot}
    (slots : cs.flatMap clusterSlots = ss ++ rest) (finite : Finite p ss) : Scanned p ss := by
  have ends : Ends atTop (fun _ => False) fun fuel => ss.foldlM (enterSlot p (parseSub p fuel)) ⟨[], []⟩ := by
    apply Ends.foldlM
    intro before s after st split settles
    obtain ⟨fuel, earlier⟩ := settles.exists
    have slots' : cs.flatMap clusterSlots = before ++ s :: (after ++ rest) := by rw [slots, split]; simp
    have mem : s ∈ cs.flatMap clusterSlots := by rw [slots']; simp
    obtain ⟨k, inChain, inCluster⟩ := List.mem_flatMap.1 mem
    obtain ⟨le, path⟩ := reached_of_follows follows all inChain
    have kind := sectors.classify_ok (only.chain k path le).inside inCluster
    apply enterSlot_ends (by simp [kind])
    intro isDir st'
    have calls : Calls p (Listed p) (Scanned p) c (p.flc s) := ⟨follows, all, slots', ⟨fuel, _, _, earlier⟩, isDir, rfl⟩
    obtain ⟨free, stops⟩ := finite s (by rw [split]; simp) isDir
    apply (parseSub_ends (free.pathsEnd finite_links) st').exclude
    intro fuel e run notFuel
    cases isFault : e.fault with
    | outside o =>
      have stops' : ∀ k, Visits p (p.flc s) k → Stops p k := fun k reached => stops k reached.1.linked reached.2
      exact (only.reached (.single calls)).stays_inside sectors stops' e o run isFault
    | outOfFuel => exact notFuel isFault
  obtain ⟨fuel, st, run⟩ := ends.returns
  exact ⟨fuel, _, st, run⟩

theorem VisitsData.reaches (sectors : Sectors p N) {c k : Nat} (only : VisitsData p N c)
    (path : Reaches p (Stops p) (Finite p) c k) : Reaches p (Listed p) (Scanned p) c k := by
  obtain ⟨d, calls, chain⟩ := path
  have calls' : ReflTransGen (Calls p (Listed p) (Scanned p)) c d := by
    clear chain
    induction calls with
    | refl => exact .refl
    | @tail a b _ last ih =>
      apply ih.tail
      obtain ⟨follows, stops, slots, finite, isDir, first⟩ := last
      have here := only.reached ih
      have all := listed_of_stops sectors follows here.chain stops
      exact ⟨follows, all, slots, here.scanned sectors follows all slots finite, isDir, first⟩
  have here := only.reached calls'
  refine ⟨d, calls', ?_⟩
  induction chain with
  | refl => exact .refl
  | tail _ last ih =>
    apply ih.tail
    obtain ⟨le, stops, fat⟩ := last
    exact ⟨le, stops.listed sectors (here.chain _ ih le).inside, fat⟩

theorem visitsData_iff (sectors : Sectors p N) {c : Nat} : VisitsData p N c ↔ LinksToData p N c := by
  constructor
  · intro only k path le
    have data := only k ⟨only.reaches sectors path, le⟩
    exact data.mono fun stops => stops.listed sectors data.inside
  · rintro links k ⟨path, le⟩
    have static : Reaches p (Stops p) (Finite p) c k := path.mono (fun _ => Listed.stops) fun _ => Scanned.finite
    exact (links k static le).mono Listed.stops

end DiskList

end CSC360.Disk
