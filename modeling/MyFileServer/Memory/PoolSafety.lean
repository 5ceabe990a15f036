import MyFileServer.Memory.PoolFrees

/-!
# What the pool hands out

Runs from `createPool` on, with regions that are zero-filled.  Each operation
in memory follows the operation on the lists, so the only failures are calls
that the contract of the program or of the system rules out.
-/

namespace MyFileServer

open LinkedList Execution Memory

/-! ## A new pool -/

theorem createPool_represents {m : Memory} {pool_ : ℕ} {fresh : Fresh}
    (hallows : Allows m.regions fresh.base PAGE_SIZE)
    (hquote : fresh.contents (fresh.base + 24 + 16) = 0)
    (hnext : fresh.contents (fresh.base + 24 + 24) = 0) :
    ∃ m', MemoryPool.createPool m pool_ (some fresh) = .ok (fresh.base, m') ∧
      Represents m' (PoolView.created fresh.base m.regions) := by
  obtain ⟨cells, hcells⟩ : ∃ cells, cells =
      m.cells.fill (fresh.base, PAGE_SIZE) fresh.contents := ⟨_, rfl⟩
  have hfill : ∀ i, i < PAGE_SIZE → cells (fresh.base + i) = fresh.contents (fresh.base + i) := by
    intro i hi
    simp only [hcells, Cells.fill]
    rw [if_pos (by omega)]
  have hposix : m.posix_memalign PAGE_SIZE (some fresh) = .ok (some fresh.base,
      ⟨cells, (fresh.base, PAGE_SIZE) :: m.regions⟩) := by
    rw [hcells]
    exact if_pos hallows
  have hhead : Holds ((fresh.base, PAGE_SIZE) :: m.regions) (fresh.base + 24, 32) :=
    ⟨_, List.mem_cons_self, by simp, by simp [PAGE_SIZE]⟩
  have hpool : Holds ((fresh.base, PAGE_SIZE) :: m.regions) (fresh.base, 24) :=
    ⟨_, List.mem_cons_self, by simp, by simp [PAGE_SIZE]⟩
  have hapart : Apart (fresh.base, 24) (fresh.base + 24, 32) := Or.inl (le_refl _)
  refine ⟨_, bind_eq_ok.mpr ⟨_, hposix, bind_eq_ok.mpr ⟨_, if_pos hhead,
    bind_eq_ok.mpr ⟨_, if_pos hhead, bind_eq_ok.mpr ⟨_, if_pos hpool, rfl⟩⟩⟩⟩, ?_⟩
  constructor
  · rfl
  · exact pool_setPool _
  · refine ⟨?_, trivial⟩
    change (Cells.setPool _ fresh.base _).small (fresh.base + 24) = _
    rw [(changesIn_setPool _).small hapart, small_setSmall]
    have hquote' : cells (fresh.base + 24 + 16) = 0 := (hfill 40 (by simp [PAGE_SIZE])).trans hquote
    have hnext' : cells (fresh.base + 24 + 24) = 0 := (hfill 48 (by simp [PAGE_SIZE])).trans hnext
    simp only [Cells.small, hquote', hnext']
    rfl
  · trivial

/-! ## Operations of a pool that exists -/

def PoolOp.inUse : PoolOp → Bool
  | .createPool _ => false
  | .destroyPool => false
  | _ => true

/-- The page that an operation may take. -/
def PoolOp.page : PoolOp → Option Fresh
  | .createPool answer => answer
  | .malloc size answer answer' => pageAnswer size answer answer'
  | .calloc size answer answer' => pageAnswer size answer answer'
  | _ => none

/-- An operation on the lists and the live ranges. -/
def PoolView.apply (v : PoolView) (live : List Range) :
    PoolOp → MemExec (PoolView × List Range × PoolOutcome)
  | .malloc size answer answer' =>
      v.malloc size answer answer' >>= fun result =>
        .ok (result.2.1, PoolState.grant live result.1 size,
          { returned := result.1, visited := result.2.2 })
  | .calloc size answer answer' =>
      v.malloc size answer answer' >>= fun result =>
        .ok (result.2.1, PoolState.grant live result.1 size,
          { returned := result.1, visited := result.2.2 })
  | .freeMemory p =>
      if p ∈ live.map Prod.fst then
        .ok ((v.freeMemory p).1, live.filter fun range => range.1 ≠ p,
          { visited := (v.freeMemory p).2.1, resets := (v.freeMemory p).2.2 })
      else .error .notEnabled
  | .resetPool =>
      .ok (v.resetPool.1, [], { visited := v.resetPool.2.1, resets := v.resetPool.2.2 })
  | .write range _ =>
      if PoolState.IsLive live range then .ok (v, live, {}) else .error .notEnabled
  | .createPool _ => .error .notEnabled
  | .destroyPool => .error .notEnabled

structure PoolState.Tracks (s : PoolState) (v : PoolView) : Prop where
  represents : Represents s.mem v
  sound : v.Sound s.live
  pool_eq : s.pool_ = v.pool_

/-- The step has the result that the lists have, and tracks them. -/
def Follows (s : PoolState) (spec : MemExec (PoolView × List Range × PoolOutcome))
    (code : MemExec (PoolState × PoolOutcome)) : Prop :=
  match spec with
  | .error e => code = .error e
  | .ok (v, live, outcome) =>
      ∃ mem, code = .ok ({ s with mem, live }, outcome) ∧
        PoolState.Tracks { s with mem, live } v

namespace PoolState.Tracks

variable {s : PoolState} {v : PoolView} (hs : s.Tracks v) {fuel : ℕ}
include hs

theorem memset {r : Range} (hr : r ∈ s.live) (contents : Cells) :
    ∃ mem, s.mem.memset r contents = .ok mem ∧ PoolState.Tracks { s with mem } v := by
  have hclear := Represents.clear_of_live hs.sound hr
  exact ⟨_, if_pos (hs.represents.holds_live hs.sound hr),
    hs.represents.frame hclear (changesIn_fill contents), hs.sound, hs.pool_eq⟩

theorem malloc {size : ℕ} {answer answer' : Option Fresh}
    (hblocks : v.blocks.length < fuel) (hlarges : v.larges.length < fuel)
    (hcontents : ∀ fresh ∈ pageAnswer size answer answer',
      fresh.contents (fresh.base + 16) = 0) :
    match v.malloc size answer answer' with
    | .error e => MemoryPool.malloc fuel s.mem s.pool_ size answer answer' = .error e
    | .ok (p, v', visited) =>
        ∃ mem, MemoryPool.malloc fuel s.mem s.pool_ size answer answer' = .ok (p, mem, visited) ∧
          PoolState.Tracks { s with mem, live := grant s.live p size } v' := by
  have hrefines := hs.represents.malloc hs.sound hblocks hlarges hcontents
  rw [← hs.pool_eq] at hrefines
  cases hspec : v.malloc size answer answer' with
  | error e =>
      rw [hspec] at hrefines
      exact hrefines
  | ok result =>
      rw [hspec] at hrefines
      obtain ⟨mem, hcode, hm⟩ := hrefines
      obtain ⟨hsound, hgrows⟩ := hs.sound.malloc hspec
      exact ⟨mem, hcode, hm, hsound, hs.pool_eq.trans hgrows.pool_eq.symm⟩

theorem follows_malloc {size : ℕ} {answer answer' : Option Fresh}
    (hblocks : v.blocks.length < fuel) (hlarges : v.larges.length < fuel)
    (hcontents : ∀ fresh ∈ pageAnswer size answer answer',
      fresh.contents (fresh.base + 16) = 0) :
    Follows s (v.apply s.live (.malloc size answer answer'))
      (s.apply fuel (.malloc size answer answer')) := by
  have hmalloc := hs.malloc hblocks hlarges hcontents
  simp only [PoolView.apply, PoolState.apply]
  cases hspec : v.malloc size answer answer' with
  | error e =>
      rw [hspec] at hmalloc
      rw [hmalloc]
      exact rfl
  | ok result =>
      rw [hspec] at hmalloc
      obtain ⟨mem, hcode, htracks⟩ := hmalloc
      rw [hcode]
      exact ⟨mem, rfl, htracks⟩

theorem follows_calloc {size : ℕ} {answer answer' : Option Fresh}
    (hblocks : v.blocks.length < fuel) (hlarges : v.larges.length < fuel)
    (hcontents : ∀ fresh ∈ pageAnswer size answer answer',
      fresh.contents (fresh.base + 16) = 0) :
    Follows s (v.apply s.live (.calloc size answer answer'))
      (s.apply fuel (.calloc size answer answer')) := by
  have hmalloc := hs.malloc hblocks hlarges hcontents
  simp only [PoolView.apply, PoolState.apply, MemoryPool.calloc]
  cases hspec : v.malloc size answer answer' with
  | error e =>
      rw [hspec] at hmalloc
      rw [hmalloc]
      exact rfl
  | ok result =>
      rw [hspec] at hmalloc
      obtain ⟨mem, hcode, htracks⟩ := hmalloc
      rw [hcode]
      by_cases hnull : result.1 = 0
      · refine ⟨mem, ?_, htracks⟩
        simp only [bind, Except.bind, pure, Except.pure, hnull, ne_eq, not_true_eq_false, if_false]
      · have hlive : (result.1, size) ∈ grant s.live result.1 size := by
          rw [grant, if_neg hnull]
          exact List.mem_cons_self
        obtain ⟨mem', hset, htracks'⟩ := htracks.memset hlive fun _ => 0
        refine ⟨mem', ?_, htracks'⟩
        simp only [bind, Except.bind, pure, Except.pure, ne_eq, hnull, not_false_eq_true, if_true]
        rw [hset]

theorem follows_freeMemory (p : ℕ)
    (hblocks : v.blocks.length < fuel) (hlarges : v.larges.length < fuel) :
    Follows s (v.apply s.live (.freeMemory p)) (s.apply fuel (.freeMemory p)) := by
  simp only [PoolView.apply, PoolState.apply]
  by_cases hp : p ∈ s.live.map Prod.fst
  · obtain ⟨mem, hcode, hm⟩ := hs.represents.freeMemory hs.sound hp hblocks hlarges
    obtain ⟨hsound, hgrows⟩ := hs.sound.freeMemory hp
    rw [← hs.pool_eq] at hcode
    simp only [if_pos hp, hcode]
    exact ⟨mem, rfl, hm, hsound, hs.pool_eq.trans hgrows.pool_eq.symm⟩
  · simp only [if_neg hp]
    exact rfl

theorem follows_resetPool
    (hblocks : v.blocks.length < fuel) (hlarges : v.larges.length < fuel) :
    Follows s (v.apply s.live .resetPool) (s.apply fuel .resetPool) := by
  obtain ⟨mem, hcode, hm⟩ := hs.represents.resetPool hs.sound hblocks hlarges
  obtain ⟨hsound, hgrows⟩ := hs.sound.resetPool
  rw [← hs.pool_eq] at hcode
  simp only [PoolView.apply, PoolState.apply]
  simp only [hcode]
  exact ⟨mem, rfl, hm, hsound, hs.pool_eq.trans hgrows.pool_eq.symm⟩

theorem follows_write (range : Range) (contents : Cells) :
    Follows s (v.apply s.live (.write range contents)) (s.apply fuel (.write range contents)) := by
  simp only [PoolView.apply, PoolState.apply]
  by_cases hr : IsLive s.live range
  · obtain ⟨mem, hcode, htracks⟩ := hs.memset hr contents
    simp only [if_pos hr, hcode]
    exact ⟨mem, rfl, htracks⟩
  · simp only [if_neg hr]
    exact rfl

/-- One step of the simulation. -/
theorem follows {op : PoolOp} (hop : op.inUse = true)
    (hblocks : v.blocks.length < fuel) (hlarges : v.larges.length < fuel)
    (hcontents : ∀ fresh ∈ op.page, fresh.contents (fresh.base + 16) = 0) :
    Follows s (v.apply s.live op) (s.apply fuel op) := by
  cases op with
  | createPool => cases hop
  | destroyPool => cases hop
  | malloc => exact hs.follows_malloc hblocks hlarges hcontents
  | calloc => exact hs.follows_calloc hblocks hlarges hcontents
  | freeMemory p => exact hs.follows_freeMemory p hblocks hlarges
  | resetPool => exact hs.follows_resetPool hblocks hlarges
  | write range contents => exact hs.follows_write range contents

end PoolState.Tracks

/-! ## Failures -/

namespace PoolView

theorem mallocSmall_ends (v : PoolView) (size : ℕ) (page : Option NewPage) :
    Ends (· = .notEnabled) (fun _ => True) (v.mallocSmall size page) := by
  unfold mallocSmall
  split
  · trivial
  · have hnode : Ends (· = .notEnabled) (fun _ => True) (v.mallocSmallNode size page) := by
      cases page with
      | none => trivial
      | some page =>
          simp only [mallocSmallNode]
          split_ifs
          · trivial
          · rfl
    exact hnode.bind fun _ _ => trivial

theorem malloc_ends (v : PoolView) (size : ℕ) (answer answer' : Option Fresh) :
    Ends (· = .notEnabled) (fun _ => True) (v.malloc size answer answer') := by
  unfold malloc
  split_ifs
  · trivial
  · cases answer with
    | none => trivial
    | some fresh =>
        simp only [mallocLargeNode, Option.map_some]
        split_ifs
        · split
          · trivial
          · refine (mallocSmall_ends _ _ _).bind fun r _ => ?_
            split_ifs <;> trivial
        · rfl
  · exact v.mallocSmall_ends size _

theorem Sound.apply_ends {v : PoolView} {live : List Range} (hv : v.Sound live) (op : PoolOp) :
    Ends (· = .notEnabled) (fun r => v.Grows r.1) (v.apply live op) := by
  have hmalloc : ∀ size answer answer',
      Ends (· = .notEnabled) (fun r => v.Grows r.2.1) (v.malloc size answer answer') := by
    intro size answer answer'
    have hends := v.malloc_ends size answer answer'
    cases hspec : v.malloc size answer answer' with
    | error e =>
        rw [hspec] at hends
        exact hends
    | ok r => exact (hv.malloc hspec).2
  cases op with
  | createPool => rfl
  | destroyPool => rfl
  | malloc size answer answer' => exact (hmalloc size answer answer').bind fun _ hr => hr
  | calloc size answer answer' => exact (hmalloc size answer answer').bind fun _ hr => hr
  | freeMemory p =>
      simp only [PoolView.apply]
      split_ifs with hp
      · exact (hv.freeMemory hp).2
      · rfl
  | resetPool => exact hv.resetPool.2
  | write range contents =>
      simp only [PoolView.apply]
      split_ifs
      · exact (Extends.refl v).grows
      · rfl

end PoolView

/-! ## Every run -/

namespace PoolState

def smallNodes (s : PoolState) : Set ℕ :=
  { a | OnChain (fun a => (s.mem.cells.small a).next_) (s.mem.cells.pool s.pool_).head_ a }

def largeNodes (s : PoolState) : Set ℕ :=
  { a | OnChain (fun a => (s.mem.cells.large a).next_) (s.mem.cells.pool s.pool_).largeList_ a }

/-- A live range is aligned, lies behind the header of one block or is the
region of one large record, and overlaps neither another live range nor a
record of the pool. -/
structure Safe (s : PoolState) : Prop where
  aligned : ∀ range ∈ s.live, range.1 ≠ 0 ∧ range.1 % 16 = 0
  placed : ∀ range ∈ s.live,
    (∃ a ∈ s.smallNodes, a + 32 ≤ range.1 ∧
      range.1 + range.2 ≤ (s.mem.cells.small a).end_) ∨
    (∃ a ∈ s.largeNodes, (s.mem.cells.large a).address_ = range.1 ∧ range ∈ s.mem.regions)
  disjoint : s.live.Pairwise Apart
  pool : ∀ range ∈ s.live, Apart range (s.pool_, 24)
  smalls : ∀ range ∈ s.live, ∀ a ∈ s.smallNodes, Apart range (a, 32)
  larges : ∀ range ∈ s.live, ∀ a ∈ s.largeNodes, Apart range (a, 24)

namespace Tracks

variable {s : PoolState} {v : PoolView} (hs : s.Tracks v)
include hs

theorem mem_smallNodes {a : ℕ} : a ∈ s.smallNodes ↔ ∃ b ∈ v.blocks, b.node = a := by
  have hpool : (s.mem.cells.pool s.pool_).head_ = headAddr Block.node v.blocks := by
    rw [hs.pool_eq, hs.represents.pool_eq]
    rfl
  rw [smallNodes, Set.mem_ofPred_eq, hpool]
  constructor
  · intro hchain
    obtain ⟨before, b, after, hsplit, haddr⟩ :=
      hs.represents.blocks_linked.of_onChain Block.next_content hchain
    exact ⟨b, by simp [hsplit], haddr⟩
  · rintro ⟨b, hb, rfl⟩
    exact hs.represents.blocks_linked.onChain Block.next_content
      (fun b hb => hs.sound.node_ne_zero hb) hb

theorem mem_largeNodes {a : ℕ} : a ∈ s.largeNodes ↔ ∃ l ∈ v.larges, l.node = a := by
  have hpool : (s.mem.cells.pool s.pool_).largeList_ = headAddr Large.node v.larges := by
    rw [hs.pool_eq, hs.represents.pool_eq]
    rfl
  rw [largeNodes, Set.mem_ofPred_eq, hpool]
  constructor
  · intro hchain
    obtain ⟨before, l, after, hsplit, haddr⟩ :=
      hs.represents.larges_linked.of_onChain Large.next_content hchain
    exact ⟨l, by simp [hsplit], haddr⟩
  · rintro ⟨l, hl, rfl⟩
    exact hs.represents.larges_linked.onChain Large.next_content
      (fun l hl => hs.sound.record_ne_zero hl) hl

theorem safe : s.Safe := by
  have hv := hs.sound
  have hgranted : ∀ range ∈ s.live, range ∈ v.granted ++ v.bigs :=
    fun range hr => hv.account.mem_iff.mp (List.mem_append_left _ hr)
  constructor
  · intro range hr
    refine ⟨hv.live_ne_zero (List.mem_map_of_mem hr), ?_⟩
    rcases List.mem_append.mp (hgranted range hr) with hsmall | hbig
    · obtain ⟨b, hb, hgrant, _⟩ := hv.granted_inside hsmall
      exact ((hv.blocks b hb).grants range hgrant).2.2.1
    · exact (hv.big_mem hbig).2.aligned
  · intro range hr
    rcases List.mem_append.mp (hgranted range hr) with hsmall | hbig
    · obtain ⟨b, hb, hgrant, _⟩ := hv.granted_inside hsmall
      have hplace := (hv.blocks b hb).grants range hgrant
      have hlast := (hv.blocks b hb).last_le
      refine .inl ⟨b.node, hs.mem_smallNodes.mpr ⟨b, hb, rfl⟩, hplace.1, ?_⟩
      obtain ⟨before, after, hsplit⟩ := List.append_of_mem hb
      rw [hs.represents.small_eq hsplit]
      exact le_trans hplace.2.1 hlast
    · obtain ⟨l, hl, hregion⟩ := List.mem_filterMap.mp hbig
      refine .inr ⟨l.node, hs.mem_largeNodes.mpr ⟨l, hl, rfl⟩, ?_, ?_⟩
      · obtain ⟨before, after, hsplit⟩ := List.append_of_mem hl
        rw [hs.represents.large_eq hsplit]
        simp [Large.content, Large.address_, hregion]
      · rw [hs.represents.regions_eq]
        exact (hv.big_mem hbig).1
  · exact (List.pairwise_append.mp hv.live_apart).1
  · intro range hr
    rw [hs.pool_eq]
    exact hv.grant_apart_pool (hgranted range hr)
  · intro range hr a ha
    obtain ⟨b, hb, rfl⟩ := hs.mem_smallNodes.mp ha
    exact hv.grant_apart_header hb (hgranted range hr)
  · intro range hr a ha
    obtain ⟨l, hl, rfl⟩ := hs.mem_largeNodes.mp ha
    exact (Represents.clear_of_live hv hr).larges l hl

end Tracks

/-- With `n` operations to come the lists stay within the fuel. -/
def Bounded (fuel n : ℕ) (s : PoolState) : Prop :=
  s.created = true ∧ ∃ v, s.Tracks v ∧ v.blocks.length + n < fuel ∧ v.larges.length + n < fuel

theorem Bounded.safe {fuel n : ℕ} {s : PoolState} (hs : s.Bounded fuel n) : s.Safe := by
  obtain ⟨_, v, htracks, _⟩ := hs
  exact htracks.safe

theorem Bounded.step {fuel n : ℕ} {s : PoolState} {op : PoolOp} (hs : s.Bounded fuel (n + 1))
    (hop : op.inUse = true)
    (hcontents : ∀ fresh ∈ op.page, fresh.contents (fresh.base + 16) = 0) :
    Ends (· = .notEnabled) (fun r => r.1.Bounded fuel n) (PoolState.step fuel s op) := by
  obtain ⟨hcreated, v, htracks, hblocks, hlarges⟩ := hs
  have hstep : PoolState.step fuel s op = s.apply fuel op := by
    rw [PoolState.step, hcreated, Bool.not_true, Bool.and_false]
    rfl
  have hfollows := @Tracks.follows s v htracks fuel op hop (by omega) (by omega) hcontents
  have hends := htracks.sound.apply_ends op
  rw [hstep]
  cases hspec : v.apply s.live op with
  | error e =>
      rw [hspec] at hfollows hends
      rw [hfollows]
      exact hends
  | ok r =>
      rw [hspec] at hfollows hends
      obtain ⟨mem, hcode, htracks'⟩ := hfollows
      have hgrows : v.Grows r.1 := hends
      have hblocks' := hgrows.blocks_le
      have hlarges' := hgrows.larges_le
      rw [hcode]
      exact ⟨hcreated, r.1, htracks', by omega, by omega⟩

end PoolState

def Fresh.ZeroFilled (fresh : Fresh) : Prop := ∀ x, fresh.contents x = 0

def PoolOp.answers : PoolOp → List Fresh
  | .createPool answer => answer.toList
  | .malloc _ answer answer' => answer.toList ++ answer'.toList
  | .calloc _ answer answer' => answer.toList ++ answer'.toList
  | _ => []

theorem PoolOp.page_mem {op : PoolOp} {fresh : Fresh} (h : fresh ∈ op.page) :
    fresh ∈ op.answers := by
  have hpage : ∀ size answer answer', fresh ∈ pageAnswer size answer answer' →
      fresh ∈ answer.toList ++ answer'.toList := by
    intro size answer answer' hfresh
    unfold pageAnswer at hfresh
    split_ifs at hfresh
    · exact List.mem_append_right _ (Option.mem_toList.mpr hfresh)
    · exact List.mem_append_left _ (Option.mem_toList.mpr hfresh)
  cases op with
  | createPool answer => exact Option.mem_toList.mpr h
  | malloc size answer answer' => exact hpage size answer answer' h
  | calloc size answer answer' => exact hpage size answer answer' h
  | freeMemory => cases h
  | resetPool => cases h
  | destroyPool => cases h
  | write => cases h

theorem created_bounded {fuel n : ℕ} {cells : Cells} {fresh : Fresh} (hzero : fresh.ZeroFilled)
    (hfuel : n + 1 < fuel) :
    Ends (· = .notEnabled) (fun r => r.1.Bounded fuel n)
      (PoolState.step fuel (PoolState.empty cells) (.createPool (some fresh))) := by
  have hstep : PoolState.step fuel (PoolState.empty cells) (.createPool (some fresh)) =
      (PoolState.empty cells).apply fuel (.createPool (some fresh)) := rfl
  rw [hstep]
  simp only [PoolState.apply]
  by_cases hallows : Allows (PoolState.empty cells).mem.regions fresh.base PAGE_SIZE
  · obtain ⟨m, hcode, hm⟩ := @createPool_represents _ (PoolState.empty cells).pool_ fresh hallows
      (hzero _) (hzero _)
    rw [hcode]
    refine ⟨rfl, _, ⟨hm, PoolView.created_sound hallows List.Pairwise.nil, rfl⟩, ?_, ?_⟩
    · change 1 + n < fuel
      omega
    · change 0 + n < fuel
      omega
  · rw [MemoryPool.createPool, Memory.posix_memalign, if_neg hallows]
    rfl

/-- Every run from `createPool` on in which the regions are fresh, aligned,
disjoint and zero-filled: no operation uses memory that the pool does not
have, and none frees a region that was freed before; before and after every
operation what the program holds is safe. -/
theorem PoolState.safe_of_run {fuel : ℕ} {cells : Cells} {fresh : Fresh} {ops : List PoolOp}
    (hops : ∀ op ∈ ops, op.inUse = true)
    (hzero : ∀ op ∈ PoolOp.createPool (some fresh) :: ops, ∀ f ∈ op.answers, f.ZeroFilled)
    (hfuel : ops.length + 1 < fuel) :
    Ends (· = .notEnabled) (fun r => r.1.Safe ∧ ∀ call ∈ r.2, call.pre.Safe)
      (run (PoolState.step fuel) (PoolState.empty cells)
        (.createPool (some fresh) :: ops)) := by
  obtain ⟨hfirst, hrest⟩ := List.forall_mem_cons.mp hzero
  have hcreated := @created_bounded fuel ops.length cells fresh
    (hfirst fresh List.mem_cons_self) hfuel
  have hempty : (PoolState.empty cells).Safe := by
    constructor <;> simp [PoolState.empty]
  refine hcreated.bind ?_
  intro r hr
  have hguard : ∀ op ∈ ops, op.inUse = true ∧
      ∀ f ∈ op.page, f.contents (f.base + 16) = 0 :=
    fun op hop => ⟨hops op hop, fun f hf => hrest op hop f (PoolOp.page_mem hf) _⟩
  have hstep : ∀ n s op, (op.inUse = true ∧ ∀ f ∈ op.page, f.contents (f.base + 16) = 0) →
      PoolState.Bounded fuel (1 + n) s →
      Ends (· = .notEnabled) (fun r => r.1.Bounded fuel n) (PoolState.step fuel s op) := by
    intro n s op hop hs
    rw [Nat.add_comm] at hs
    exact hs.step hop.1 hop.2
  have hrun := @Ends.run_budget _ _ _ _ _ (PoolState.Bounded fuel) _ _ (fun _ => 1) hstep _ _
    hguard (by simpa using hr)
  refine hrun.bind ?_
  intro r' hr'
  refine ⟨hr'.1.safe, List.forall_mem_cons.mpr ⟨hempty, ?_⟩⟩
  intro call hcall
  obtain ⟨n, hn⟩ := hr'.2 call hcall
  exact hn.safe

def zeroRegion (base : ℕ) : Fresh := ⟨base, fun _ => 0⟩

/-- Two small ranges and a large one, which is freed, and a page of its own
for the last range. -/
def mixedOps : List PoolOp :=
  [.malloc 100 none none,
    .malloc 5000 (some (zeroRegion 65536)) none,
    .freeMemory 65536,
    .calloc 4064 (some (zeroRegion 131072)) none]

theorem mixedOps_run :
    (run (PoolState.step 6) (PoolState.empty fun _ => 0)
      (.createPool (some (zeroRegion 4096)) :: mixedOps)).map (fun r => r.1.live) =
      .ok [(131104, 4064), (4160, 100)] := rfl

theorem PoolState.safe_of_run_mixed :
    ∃ final calls,
      run (PoolState.step 6) (PoolState.empty fun _ => 0)
        (.createPool (some (zeroRegion 4096)) :: mixedOps) = .ok (final, calls) ∧
      final.live = [(131104, 4064), (4160, 100)] ∧ final.Safe := by
  obtain ⟨⟨final, calls⟩, hrun, hlive⟩ := exists_of_map_eq_ok mixedOps_run
  have hops : ∀ op ∈ mixedOps, op.inUse = true := by
    simp [mixedOps, PoolOp.inUse]
  have hzero : ∀ op ∈ PoolOp.createPool (some (zeroRegion 4096)) :: mixedOps,
      ∀ f ∈ op.answers, f.ZeroFilled := by
    simp [mixedOps, PoolOp.answers, Fresh.ZeroFilled, zeroRegion]
  have hsafe := @PoolState.safe_of_run 6 (fun _ => 0) (zeroRegion 4096) mixedOps hops hzero (by decide)
  exact ⟨final, calls, hrun, hlive, (hsafe.of_eq_ok hrun).1⟩

end MyFileServer
