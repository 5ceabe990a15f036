import MyFileServer.Memory.PoolContents

/-!
# When the pool can be destroyed

`free` fails on an address that does not start a region, and a load fails
outside the regions.  A run of `destroyPool` that ends has therefore freed
every region that is gone exactly once and has read no node after its free.
The second loop reads `next_` of the block that it has just freed, so
`destroyPool` ends exactly for a pool whose first block has no successor.
-/

namespace MyFileServer

open LinkedList Execution

namespace PoolState

/-- The large blocks that are left, the additional small blocks and the pool
block. -/
def owned (s : PoolState) : Set ℕ :=
  { a | a ≠ 0 ∧ ∃ l ∈ s.largeNodes, (s.mem.cells.large l).address_ = a } ∪
    (s.smallNodes \ {(s.mem.cells.pool s.pool_).head_} ∪ {s.pool_})

/-- `destroyPool` ends, and it has freed what the pool owns and nothing
else. -/
def DestroysOnce (fuel : ℕ) (s : PoolState) : Prop :=
  ∃ m visited, MemoryPool.destroyPool fuel s.mem s.pool_ = .ok (m, visited) ∧
    (∀ a ∈ s.owned, ∃ region ∈ s.mem.regions, region.1 = a) ∧
    ∀ region, region ∈ m.regions ↔ region ∈ s.mem.regions ∧ region.1 ∉ s.owned

namespace Tracks

variable {s : PoolState} {v : PoolView} (hs : s.Tracks v)
include hs

theorem large_address {l : Large} (hl : l ∈ v.larges) :
    (s.mem.cells.large l.node).address_ = l.address_ := by
  obtain ⟨before, after, hsplit⟩ := List.append_of_mem hl
  rw [hs.represents.large_eq hsplit]
  rfl

theorem mem_bigs {a : ℕ} :
    a ∈ v.bigs.map Prod.fst ↔
      a ≠ 0 ∧ ∃ l ∈ s.largeNodes, (s.mem.cells.large l).address_ = a := by
  constructor
  · intro ha
    obtain ⟨r, hr, rfl⟩ := List.mem_map.mp ha
    obtain ⟨l, hl, hregion⟩ := List.mem_filterMap.mp hr
    refine ⟨(hs.sound.big_mem hr).2.ne_zero, l.node, hs.mem_largeNodes.mpr ⟨l, hl, rfl⟩, ?_⟩
    rw [hs.large_address hl, Large.address_of_region hregion]
  · rintro ⟨hne, _, hnode, haddr⟩
    obtain ⟨l, hl, rfl⟩ := hs.mem_largeNodes.mp hnode
    rw [hs.large_address hl] at haddr
    subst haddr
    obtain ⟨r, hregion, haddr⟩ := Large.exists_region hne
    exact List.mem_map.mpr ⟨r, List.mem_filterMap.mpr ⟨l, hl, hregion⟩, haddr.symm⟩

theorem head_eq : (s.mem.cells.pool s.pool_).head_ = headAddr Block.node v.blocks := by
  rw [hs.pool_eq, hs.represents.pool_eq]
  rfl

/-- The first block has no successor iff it is the only one. -/
theorem next_head_eq_zero_iff :
    (s.mem.cells.small (s.mem.cells.pool s.pool_).head_).next_ = 0 ↔ v.blocks.length = 1 := by
  obtain ⟨h, rest, hblocks, _⟩ := hs.sound.head_block
  have hlinked := hs.represents.blocks_linked
  rw [hs.head_eq]
  rw [hblocks] at hlinked ⊢
  rw [headAddr, hlinked.1, Block.next_content]
  cases rest with
  | nil => exact iff_of_true rfl rfl
  | cons b rest =>
      have hb : b ∈ v.blocks := by simp [hblocks]
      have hne : headAddr Block.node (b :: rest) ≠ 0 := hs.sound.node_ne_zero hb
      exact iff_of_false hne (by simp)

theorem mem_owned_of_one (hone : v.blocks.length = 1) {a : ℕ} :
    a ∈ s.owned ↔ a ∈ v.bigs.map Prod.fst ∨ a = v.pool_ := by
  have hsmalls : s.smallNodes \ {(s.mem.cells.pool s.pool_).head_} = ∅ := by
    obtain ⟨h, hblocks⟩ := List.length_eq_one_iff.mp hone
    rw [Set.sdiff_eq_empty]
    intro x hx
    obtain ⟨b, hb, rfl⟩ := hs.mem_smallNodes.mp hx
    rw [hblocks, List.mem_singleton] at hb
    rw [Set.mem_singleton_iff, hs.head_eq, hblocks, hb]
    rfl
  rw [owned, hsmalls, Set.empty_union, hs.mem_bigs, hs.pool_eq]
  rfl

theorem destroysOnce_iff {fuel : ℕ} (hblocks : v.blocks.length < fuel)
    (hlarges : v.larges.length < fuel) :
    s.DestroysOnce fuel ↔
      (s.mem.cells.small (s.mem.cells.pool s.pool_).head_).next_ = 0 := by
  have hcode := hs.represents.destroyPool hs.sound hblocks hlarges
  rw [← hs.pool_eq] at hcode
  rw [hs.next_head_eq_zero_iff]
  split_ifs at hcode with hone
  · refine iff_of_true ?_ hone
    obtain ⟨cells, hcode⟩ := hcode
    refine ⟨_, _, hcode, ?_, ?_⟩
    · intro a ha
      rw [hs.represents.regions_eq]
      rcases (hs.mem_owned_of_one hone).mp ha with hbig | rfl
      · obtain ⟨r, hr, rfl⟩ := List.mem_map.mp hbig
        exact ⟨r, (hs.sound.big_mem hr).1, rfl⟩
      · obtain ⟨h, rest, hsplit, hbase⟩ := hs.sound.head_block
        have hh : h ∈ v.blocks := by simp [hsplit]
        exact ⟨h.page, (hs.sound.page_mem hh).1, hbase⟩
    · intro region
      rw [hs.mem_owned_of_one hone, hs.represents.regions_eq, hs.pool_eq]
      simp only [without, PoolView.freed, List.mem_filter, decide_eq_true_iff, not_or]
      exact and_assoc
  · refine iff_of_false ?_ hone
    rintro ⟨m, visited, hends, _⟩
    rw [hcode] at hends
    cases hends

end Tracks

end PoolState

/-! ## Every run -/

theorem PoolOp.Prepared.agree {op : PoolOp} (hop : op.Prepared) : op.Agree op := by
  refine ⟨?_, hop, hop, ?_⟩
  · cases op <;> simp [PoolOp.Same]
  · cases op <;> simp [PoolOp.SameFailed]

namespace PoolState

theorem Paired.step_self {fuel n : ℕ} {s : PoolState} {op : PoolOp}
    (hs : s.Paired fuel (n + 1) s) (hop : op.Prepared) :
    Ends (fun _ => True) (fun r => r.1.Paired fuel n r.1) (PoolState.step fuel s op) := by
  have halike := hs.step hop.agree
  cases hstep : PoolState.step fuel s op with
  | error e => trivial
  | ok r =>
      rw [hstep] at halike
      exact halike.2

theorem paired_of_run {fuel : ℕ} {cells : Cells} {ops : List PoolOp}
    (hops : ∀ op ∈ ops, op.Prepared) (hfuel : ops.length + 1 < fuel) :
    Ends (fun _ => True) (fun r => r.1.Paired fuel 0 r.1)
      (run (PoolState.step fuel) (empty cells) ops) := by
  have hempty : (empty cells).Paired fuel ops.length (empty cells) :=
    ⟨rfl, rfl, rfl, rfl, List.Pairwise.nil, hfuel, fun habsurd => by cases habsurd⟩
  have hstep : ∀ n s op, op.Prepared → Paired fuel (1 + n) s s →
      Ends (fun _ => True) (fun r => r.1.Paired fuel n r.1) (PoolState.step fuel s op) := by
    intro n s op hop hs
    rw [Nat.add_comm] at hs
    exact hs.step_self hop
  have hrun := @Ends.run_budget _ _ _ _ _ (fun n s => Paired fuel n s s) _ _ (fun _ => 1) hstep
    _ _ hops (by simpa using hempty)
  exact hrun.mono fun r hr => hr.1

/-- In every state that a run reaches, with the header fields zero that are
read before they are written, `destroyPool` frees everything once iff there is
no block behind the first one. -/
theorem destroysOnce_of_run_iff {fuel : ℕ} {cells : Cells} {ops : List PoolOp} {s : PoolState}
    {calls : List (Call PoolState PoolOp PoolOutcome)}
    (hops : ∀ op ∈ ops, op.Prepared) (hfuel : ops.length + 1 < fuel)
    (hrun : run (PoolState.step fuel) (empty cells) ops = .ok (s, calls))
    (hcreated : s.created = true) :
    s.DestroysOnce fuel ↔
      (s.mem.cells.small (s.mem.cells.pool s.pool_).head_).next_ = 0 := by
  have hpaired := (@paired_of_run fuel cells ops hops hfuel).of_eq_ok hrun
  obtain ⟨v, htracks, _, hblocks, hlarges⟩ := hpaired.view hcreated
  exact htracks.destroysOnce_iff hblocks hlarges

/-- Two small ranges and a large one in a pool of one block. -/
def oneBlockOps : List PoolOp :=
  [.createPool (some (zeroRegion 4096)), .malloc 100 none none,
    .malloc 5000 (some (zeroRegion 65536)) none, .malloc 200 none none]

theorem oneBlockOps_run :
    (run (PoolState.step 6) (empty fun _ => 0) oneBlockOps).map (fun r =>
        (r.1.created, (r.1.mem.cells.small (r.1.mem.cells.pool r.1.pool_).head_).next_)) =
      .ok (true, 0) := rfl

theorem destroysOnce_one_block :
    ∃ s calls, run (PoolState.step 6) (empty fun _ => 0) oneBlockOps = .ok (s, calls) ∧
      s.created = true ∧ s.DestroysOnce 6 := by
  obtain ⟨⟨s, calls⟩, hrun, hfields⟩ := exists_of_map_eq_ok oneBlockOps_run
  obtain ⟨hcreated, hnext⟩ := Prod.mk.inj hfields
  have hops : ∀ op ∈ oneBlockOps, op.Prepared := by
    simp [oneBlockOps, PoolOp.Prepared, PoolOp.page, pageAnswer, zeroRegion, PAGE_SIZE]
  exact ⟨s, calls, hrun, hcreated,
    (destroysOnce_of_run_iff hops (by decide) hrun hcreated).mpr hnext⟩

/-- The last range takes a page of its own; `destroyPool` reads the header of
that page after it has given the page back. -/
theorem not_destroysOnce_two_blocks :
    ∃ s calls, run (PoolState.step 7) (empty fun _ => 0)
        (.createPool (some (zeroRegion 4096)) :: mixedOps) = .ok (s, calls) ∧
      (∀ op ∈ PoolOp.createPool (some (zeroRegion 4096)) :: mixedOps, op.Prepared) ∧
      s.created = true ∧
      MemoryPool.destroyPool 7 s.mem s.pool_ = .error .badAccess ∧ ¬ s.DestroysOnce 7 := by
  have hends : (run (PoolState.step 7) (empty fun _ => 0)
      (.createPool (some (zeroRegion 4096)) :: mixedOps)).map (fun r =>
        (r.1.created, (MemoryPool.destroyPool 7 r.1.mem r.1.pool_).map Prod.snd)) =
      .ok (true, .error .badAccess) := rfl
  obtain ⟨⟨s, calls⟩, hrun, hfields⟩ := exists_of_map_eq_ok hends
  obtain ⟨hcreated, hdestroy⟩ := Prod.mk.inj hfields
  have hfault : MemoryPool.destroyPool 7 s.mem s.pool_ = .error .badAccess := by
    cases hcode : MemoryPool.destroyPool 7 s.mem s.pool_ with
    | error e =>
        rw [hcode] at hdestroy
        exact congrArg _ (Except.error.inj hdestroy)
    | ok r =>
        rw [hcode] at hdestroy
        cases hdestroy
  refine ⟨s, calls, hrun, ?_, hcreated, hfault, ?_⟩
  · simp [mixedOps, PoolOp.Prepared, PoolOp.page, pageAnswer, zeroRegion, PAGE_SIZE]
  · rintro ⟨m, visited, hok, _⟩
    rw [hfault] at hok
    cases hok

end PoolState

end MyFileServer
