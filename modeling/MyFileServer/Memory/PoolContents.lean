import MyFileServer.Memory.PoolSafety

/-!
# What the contents of a new page decide

`createPool` leaves `quote_` and `next_` of the first header as it finds them,
and `mallocSmallNode` increments `quote_` and leaves `failed_`.  Two runs that
differ in the contents of the regions do the same as long as these fields hold
zero, or the same number where only `failed_` is read; other contents make the
pool free a block that is still in use.
-/

namespace MyFileServer

open LinkedList Execution

/-- The same operation with the same regions, whatever these contain. -/
def PoolOp.Same : PoolOp → PoolOp → Prop
  | .createPool answer, .createPool other => answer.map Fresh.base = other.map Fresh.base
  | .malloc size answer answer', .malloc size' other other' =>
      size = size' ∧ answer.map Fresh.base = other.map Fresh.base ∧
        answer'.map Fresh.base = other'.map Fresh.base
  | .calloc size answer answer', .calloc size' other other' =>
      size = size' ∧ answer.map Fresh.base = other.map Fresh.base ∧
        answer'.map Fresh.base = other'.map Fresh.base
  | .freeMemory p, .freeMemory q => p = q
  | .resetPool, .resetPool => True
  | .destroyPool, .destroyPool => True
  | .write range _, .write other _ => range = other
  | _, _ => False

/-- The fields that are read before they are written hold zero. -/
def PoolOp.Prepared : PoolOp → Prop
  | .createPool answer =>
      ∀ fresh ∈ answer, fresh.contents (fresh.base + 24 + 16) = 0 ∧
        fresh.contents (fresh.base + 24 + 24) = 0
  | op => ∀ fresh ∈ op.page, fresh.contents (fresh.base + 16) = 0

/-- Both operations find the same in `failed_` of a block that they add. -/
def PoolOp.SameFailed : PoolOp → PoolOp → Prop
  | .createPool _, _ => True
  | op, op' => op.page.map Fresh.page = op'.page.map Fresh.page

structure PoolOp.Agree (op op' : PoolOp) : Prop where
  same : op.Same op'
  prepared : op.Prepared
  prepared' : op'.Prepared
  failed : op.SameFailed op'

theorem PoolOp.Same.inUse_eq {op op' : PoolOp} (h : op.Same op') :
    op'.inUse = op.inUse ∧ op'.needsPool = op.needsPool := by
  cases op <;> cases op' <;> first | exact h.elim | exact ⟨rfl, rfl⟩

theorem PoolOp.Prepared.contents {op : PoolOp} (h : op.Prepared) (hop : op.inUse = true) :
    ∀ fresh ∈ op.page, fresh.contents (fresh.base + 16) = 0 := by
  cases op <;> first | exact h | cases hop

theorem malloc_congr (v : PoolView) {size : ℕ} {answer answer' other other' : Option Fresh}
    (hanswer : answer.map Fresh.base = other.map Fresh.base)
    (hpage : (pageAnswer size answer answer').map Fresh.page =
      (pageAnswer size other other').map Fresh.page) :
    v.malloc size answer answer' = v.malloc size other other' := by
  unfold PoolView.malloc
  unfold pageAnswer at hpage
  by_cases hlarge : PAGE_SIZE - 32 < size
  · rw [if_pos hlarge, if_pos hlarge] at hpage
    simp only [if_pos hlarge, hanswer, hpage]
  · rw [if_neg hlarge, if_neg hlarge] at hpage
    simp only [if_neg hlarge, hpage]

/-- The lists see no other difference. -/
theorem PoolOp.Agree.apply_eq {op op' : PoolOp} (h : op.Agree op') (hop : op.inUse = true)
    (v : PoolView) (live : List Range) : v.apply live op = v.apply live op' := by
  have hsame := h.same
  have hfailed := h.failed
  cases op with
  | createPool => cases hop
  | destroyPool => cases hop
  | malloc size answer answer' =>
      cases op' <;> try exact hsame.elim
      obtain ⟨rfl, hanswer, _⟩ := hsame
      simp only [PoolView.apply, malloc_congr v hanswer hfailed]
  | calloc size answer answer' =>
      cases op' <;> try exact hsame.elim
      obtain ⟨rfl, hanswer, _⟩ := hsame
      simp only [PoolView.apply, malloc_congr v hanswer hfailed]
  | freeMemory p =>
      cases op' <;> try exact hsame.elim
      cases hsame
      rfl
  | resetPool =>
      cases op' <;> try exact hsame.elim
      rfl
  | write range contents =>
      cases op' <;> try exact hsame.elim
      cases hsame
      rfl

/-! ## Two runs -/

/-- Two states with the same lists; `n` operations are still to come. -/
structure PoolState.Paired (fuel n : ℕ) (s s' : PoolState) : Prop where
  created : s'.created = s.created
  pool_ : s'.pool_ = s.pool_
  live : s'.live = s.live
  regions : s'.mem.regions = s.mem.regions
  disjoint : s.mem.regions.Pairwise Apart
  bound : n + 1 < fuel
  view : s.created = true → ∃ v, s.Tracks v ∧ s'.Tracks v ∧
    v.blocks.length + n < fuel ∧ v.larges.length + n < fuel

namespace PoolState.Paired

variable {fuel n : ℕ} {s s' : PoolState} {op op' : PoolOp}

theorem apply_inUse (hs : s.Paired fuel (n + 1) s') (hcreated : s.created = true)
    (hagree : op.Agree op') (hop : op.inUse = true) :
    Alike (PoolState.Paired fuel n) (s.apply fuel op) (s'.apply fuel op') := by
  obtain ⟨v, htracks, htracks', hblocks, hlarges⟩ := hs.view hcreated
  have hop' : op'.inUse = true := hagree.same.inUse_eq.1.trans hop
  have hfollows := @Tracks.follows s v htracks fuel op hop (by omega) (by omega)
    (hagree.prepared.contents hop)
  have hfollows' := @Tracks.follows s' v htracks' fuel op' hop' (by omega) (by omega)
    (hagree.prepared'.contents hop')
  have hends := htracks.sound.apply_ends op
  rw [hs.live, ← hagree.apply_eq hop] at hfollows'
  cases hspec : v.apply s.live op with
  | error e =>
      rw [hspec] at hfollows hfollows'
      rw [hfollows, hfollows']
      exact rfl
  | ok r =>
      rw [hspec] at hfollows hfollows' hends
      obtain ⟨mem, hcode, hnext⟩ := hfollows
      obtain ⟨mem', hcode', hnext'⟩ := hfollows'
      have hgrows : v.Grows r.1 := hends
      have hblocks' := hgrows.blocks_le
      have hlarges' := hgrows.larges_le
      have hfuel := hs.bound
      have hregions : mem.regions = r.1.regions := hnext.represents.regions_eq
      have hregions' : mem'.regions = r.1.regions := hnext'.represents.regions_eq
      rw [hcode, hcode']
      refine ⟨rfl, hs.created, hs.pool_, rfl, hregions'.trans hregions.symm, ?_, by omega, ?_⟩
      · rw [hregions]
        exact hnext.sound.disjoint
      · exact fun _ => ⟨r.1, hnext, hnext', by omega, by omega⟩

theorem apply_createPool {answer answer' : Option Fresh} (hs : s.Paired fuel (n + 1) s')
    (hagree : (PoolOp.createPool answer).Agree (.createPool answer')) :
    Alike (PoolState.Paired fuel n) (s.apply fuel (.createPool answer))
      (s'.apply fuel (.createPool answer')) := by
  have hfuel := hs.bound
  have hbase : answer.map Fresh.base = answer'.map Fresh.base := hagree.same
  cases answer with
  | none =>
      cases answer' with
      | some fresh => cases hbase
      | none =>
          simp only [PoolState.apply, MemoryPool.createPool, Memory.posix_memalign]
          refine ⟨by simp only [hs.pool_], ?_, hs.pool_, hs.live,
            hs.regions, hs.disjoint, by omega, ?_⟩
          · simp [hs.created]
          · intro hcreated
            obtain ⟨v, htracks, htracks', hblocks, hlarges⟩ :=
              hs.view (by simpa using hcreated)
            exact ⟨v, ⟨htracks.represents, htracks.sound, htracks.pool_eq⟩,
              ⟨htracks'.represents, htracks'.sound, htracks'.pool_eq⟩, by omega, by omega⟩
  | some fresh =>
      cases answer' with
      | none => cases hbase
      | some fresh' =>
          have hsame : fresh'.base = fresh.base := (Option.some.inj hbase).symm
          obtain ⟨hquote, hnext⟩ := hagree.prepared fresh rfl
          obtain ⟨hquote', hnext'⟩ := hagree.prepared' fresh' rfl
          by_cases hallows : Allows s.mem.regions fresh.base PAGE_SIZE
          · have hallows' : Allows s'.mem.regions fresh'.base PAGE_SIZE := by
              rwa [hs.regions, hsame]
            obtain ⟨m, hcode, hm⟩ := @createPool_represents _ s.pool_ fresh hallows hquote hnext
            obtain ⟨m', hcode', hm'⟩ :=
              @createPool_represents _ s'.pool_ fresh' hallows' hquote' hnext'
            have hsound := PoolView.created_sound hallows hs.disjoint
            rw [hs.regions, hsame] at hm'
            simp only [PoolState.apply, hcode, hcode']
            refine ⟨by rw [hsame], by simp, hsame, rfl,
              hm'.regions_eq.trans hm.regions_eq.symm, ?_, by omega, ?_⟩
            · have hregions : m.regions = _ := hm.regions_eq
              change m.regions.Pairwise Apart
              rw [hregions]
              exact hsound.disjoint
            · refine fun _ => ⟨_, ⟨hm, hsound, rfl⟩, ⟨hm', hsound, hsame⟩, ?_, ?_⟩
              · change 1 + n < fuel
                omega
              · change 0 + n < fuel
                omega
          · have hallows' : ¬ Allows s'.mem.regions fresh'.base PAGE_SIZE := by
              rwa [hs.regions, hsame]
            simp only [PoolState.apply, MemoryPool.createPool, Memory.posix_memalign,
              if_neg hallows, if_neg hallows']
            exact rfl

theorem apply_destroyPool (hs : s.Paired fuel (n + 1) s') (hcreated : s.created = true) :
    Alike (PoolState.Paired fuel n) (s.apply fuel .destroyPool)
      (s'.apply fuel .destroyPool) := by
  obtain ⟨v, htracks, htracks', hblocks, hlarges⟩ := hs.view hcreated
  have hfuel := hs.bound
  have hcode := @Represents.destroyPool _ v _ htracks.represents htracks.sound fuel
    (by omega) (by omega)
  have hcode' := @Represents.destroyPool _ v _ htracks'.represents htracks'.sound fuel
    (by omega) (by omega)
  rw [← htracks.pool_eq] at hcode
  rw [← htracks'.pool_eq] at hcode'
  simp only [PoolState.apply]
  split_ifs at hcode hcode' with hone
  · obtain ⟨cells, hcode⟩ := hcode
    obtain ⟨cells', hcode'⟩ := hcode'
    rw [hcode, hcode']
    refine ⟨rfl, rfl, hs.pool_, rfl, ?_, ?_, by omega, fun habsurd => by cases habsurd⟩
    · change without s'.pool_ _ = without s.pool_ _
      rw [hs.pool_]
    · exact (htracks.sound.disjoint.filter _).filter _
  · rw [hcode, hcode']
    exact rfl

theorem step (hs : s.Paired fuel (n + 1) s') (hagree : op.Agree op') :
    Alike (PoolState.Paired fuel n) (PoolState.step fuel s op)
      (PoolState.step fuel s' op') := by
  obtain ⟨hinUse, hneeds⟩ := hagree.same.inUse_eq
  unfold PoolState.step
  rw [hs.created, hneeds]
  split_ifs with hguard
  · exact rfl
  · have hcreated : op.needsPool = true → s.created = true := by
      intro hneeds
      rw [hneeds] at hguard
      simpa using hguard
    cases op with
    | createPool answer =>
        cases op' <;> try exact hagree.same.elim
        exact hs.apply_createPool hagree
    | destroyPool =>
        cases op' <;> try exact hagree.same.elim
        exact hs.apply_destroyPool (hcreated rfl)
    | malloc => exact hs.apply_inUse (hcreated rfl) hagree rfl
    | calloc => exact hs.apply_inUse (hcreated rfl) hagree rfl
    | freeMemory => exact hs.apply_inUse (hcreated rfl) hagree rfl
    | resetPool => exact hs.apply_inUse (hcreated rfl) hagree rfl
    | write => exact hs.apply_inUse (hcreated rfl) hagree rfl

end PoolState.Paired

def PoolState.outputs (fuel : ℕ) (cells : Cells) (ops : List PoolOp) :
    MemExec (List PoolOutcome) :=
  (run (PoolState.step fuel) (PoolState.empty cells) ops).map fun r => r.2.map (·.output)

/-- Two runs whose operations agree return the same addresses, walk the same
nodes and reset the same blocks. -/
theorem PoolState.outputs_eq {fuel : ℕ} {cells cells' : Cells} {ops ops' : List PoolOp}
    (hagree : List.Forall₂ PoolOp.Agree ops ops') (hfuel : ops.length + 1 < fuel) :
    outputs fuel cells ops = outputs fuel cells' ops' := by
  have hstep : ∀ n s s' op op', PoolOp.Agree op op' → Paired fuel (n + 1) s s' →
      Alike (Paired fuel n) (PoolState.step fuel s op) (PoolState.step fuel s' op') :=
    fun _ _ _ _ _ hop hs => hs.step hop
  have hempty : Paired fuel ops.length (empty cells) (empty cells') :=
    ⟨rfl, rfl, rfl, rfl, List.Pairwise.nil, hfuel, fun habsurd => by cases habsurd⟩
  exact @run_alike _ _ _ _ _ (Paired fuel) _ hstep _ _ _ _ hagree hempty

def zeroOps : List PoolOp :=
  [.createPool (some (zeroRegion 4096)), .malloc 100 none none, .malloc 100 none none,
    .freeMemory 4160, .malloc 100 none none]

/-- A page with `quote_` at its greatest value, as a run before may have left
it. -/
def staleRegion (base : ℕ) : Fresh :=
  ⟨base, fun x => if x = base + 24 + 16 then 2 ^ 32 - 1 else 0⟩

def staleOps : List PoolOp :=
  [.createPool (some (staleRegion 4096)), .malloc 100 none none, .malloc 100 none none,
    .freeMemory 4160, .malloc 100 none none]

/-- Bytes behind the headers may differ. -/
def dirtyRegion (base : ℕ) : Fresh := ⟨base, fun x => if x = base + 56 then 7 else 0⟩

def dirtyOps : List PoolOp :=
  [.createPool (some (dirtyRegion 4096)), .malloc 100 none none, .malloc 100 none none,
    .freeMemory 4160, .malloc 100 none none]

theorem PoolState.outputs_eq_dirty :
    outputs 7 (fun _ => 0) zeroOps = outputs 7 (fun _ => 1) dirtyOps ∧
      (outputs 7 (fun _ => 0) zeroOps).map (List.map PoolOutcome.returned) =
        .ok [4096, 4160, 4272, 0, 4384] := by
  have hcreate : (PoolOp.createPool (some (zeroRegion 4096))).Agree
      (.createPool (some (dirtyRegion 4096))) :=
    ⟨rfl, by simp [PoolOp.Prepared, zeroRegion], by simp [PoolOp.Prepared, dirtyRegion], trivial⟩
  have hmalloc : (PoolOp.malloc 100 none none).Agree (.malloc 100 none none) := by
    constructor <;> simp [PoolOp.Same, PoolOp.Prepared, PoolOp.SameFailed, PoolOp.page, pageAnswer]
  have hfree : (PoolOp.freeMemory 4160).Agree (.freeMemory 4160) := by
    constructor <;> simp [PoolOp.Same, PoolOp.Prepared, PoolOp.SameFailed, PoolOp.page]
  have hagree : List.Forall₂ PoolOp.Agree zeroOps dirtyOps :=
    .cons hcreate (.cons hmalloc (.cons hmalloc (.cons hfree (.cons hmalloc .nil))))
  exact ⟨outputs_eq hagree (by decide), rfl⟩

/-- The count of the first block wraps to zero, so the free of one range
resets the block while the other one is in use. -/
theorem PoolState.outputs_ne_stale :
    List.Forall₂ PoolOp.Same zeroOps staleOps ∧
      outputs 7 (fun _ => 0) zeroOps ≠ outputs 7 (fun _ => 0) staleOps := by
  have hzero : (outputs 7 (fun _ => 0) zeroOps).map (List.map PoolOutcome.resets) =
      .ok [[], [], [], [], []] := rfl
  have hstale : (outputs 7 (fun _ => 0) staleOps).map (List.map PoolOutcome.resets) =
      .ok [[], [], [], [4120], []] := rfl
  refine ⟨?_, ?_⟩
  · unfold zeroOps staleOps
    repeat constructor
  · intro heq
    rw [heq, hstale] at hzero
    cases hzero

end MyFileServer
