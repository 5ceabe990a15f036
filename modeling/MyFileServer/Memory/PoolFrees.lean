import MyFileServer.Memory.PoolRefinement

/-!
# Giving memory back

`freeMemory`, `resetPool` and `destroyPool` on the lists.  `destroyPool` reads
`next_` of a block that it has just freed, so it ends only for a pool that has
no block but the first.
-/

namespace MyFileServer

open LinkedList Execution

namespace Represents

variable {m : Memory} {v : PoolView} {live : List Range} (hm : Represents m v)
  (hv : v.Sound live)
include hm hv

/-! ## Frees -/

theorem find_blocks {fuel p : ℕ} (hfuel : v.blocks.length < fuel) :
    findNode m.loadSmall SmallNode.next_ (MemoryPool.spans p) (fun _ => false) .diverges fuel 0
        v.pool.head_ =
      .ok (found Block.node Block.content (v.blocks.length + 1) v.blocks
        (cut (Block.around p) (v.blocks.length + 1) v.blocks)) := by
  apply findNode_linked
  · exact fun _ _ => rfl
  · exact fun _ _ => rfl
  · exact fun b hb => ⟨hv.node_ne_zero hb, hm.loadSmall hv hb⟩
  · exact hm.blocks_linked
  · exact hfuel
  · exact fun _ _ _ => rfl
  · intro hlt
    exact absurd hlt (lt_irrefl _)

omit hm in
/-- What `freeMemory` writes into a block. -/
theorem release_content {b : Block} {p : ℕ} (hb : b ∈ v.blocks)
    (hgrant : p ∈ b.grants.map Prod.fst) :
    decUInt b.grants.length = (b.drop p).grants.length ∧
      (if b.node = v.pool.head_ then v.pool_ + 24 + 32 else b.node + 32) = b.node + 32 := by
  have hsound := hv.blocks b hb
  constructor
  · obtain ⟨r, hr, rfl⟩ := List.mem_map.mp hgrant
    obtain ⟨before, after, hsplit⟩ := List.append_of_mem hr
    have hnodup := fst_nodup hsound.apart fun r hr => (hsound.grants r hr).2.2.2
    have hcount := hsound.length_lt
    rw [hsplit] at hnodup
    have hrest : (b.drop r.1).grants = before ++ after := by
      rw [← without_middle hnodup, ← hsplit]
      rfl
    rw [hrest]
    rw [hsplit] at hcount ⊢
    simp only [decUInt, List.length_append, List.length_cons] at hcount ⊢
    omega
  · split_ifs with hhead
    · obtain ⟨h, rest, hblocks, hbase⟩ := hv.head_block
      have hnode := (hv.pool_inside hbase).2 (by simp [hblocks])
      rw [hhead, PoolView.pool, hblocks, headAddr, hnode]
    · rfl

/-- The branch of `freeMemory` for a block. -/
theorem releaseBlock {before after : List Block} {b : Block} {p : ℕ} {visited : List ℕ}
    (hblocks : v.blocks = before ++ b :: after) (hgrant : p ∈ b.grants.map Prod.fst)
    (hv' : PoolView.Sound { v with blocks := before ++ (b.release p).1 :: after }
      (without p live)) :
    ∃ m',
      (if decUInt b.grants.length = 0 then do
        let m ← m.storeSmall b.node
          ⟨b.base + PAGE_SIZE,
            if b.node = v.pool.head_ then v.pool_ + 24 + 32 else b.node + 32,
            decUInt b.grants.length, 0, headAddr Block.node after⟩
        let m ← m.storePool v.pool_ { v.pool with current_ := v.pool.head_ }
        return (m, visited, [b.node])
      else do
        let m ← m.storeSmall b.node
          ⟨b.base + PAGE_SIZE, b.last_, decUInt b.grants.length, b.failed_,
            headAddr Block.node after⟩
        return (m, visited, [])) =
        .ok (m', visited, if (b.release p).2 then [b.node] else []) ∧
      Represents m' { v with
        blocks := before ++ (b.release p).1 :: after
        skipped := if (b.release p).2 then 0 else v.skipped } := by
  have hb : b ∈ v.blocks := by simp [hblocks]
  obtain ⟨hcount, hstart⟩ := release_content hv hb hgrant
  have hnode : (b.release p).1.node = b.node := by
    unfold Block.release
    split_ifs <;> rfl
  obtain ⟨hstore, hm'⟩ := hm.setBlock hv hblocks hnode
  rw [hcount, hstart]
  by_cases hempty : (b.drop p).grants = []
  · have hrelease : b.release p = ((b.drop p).reset, true) := by
      rw [Block.release, if_pos hempty]
    have hzero : (b.drop p).grants.length = 0 := by rw [hempty, List.length_nil]
    rw [hrelease] at hstore hm' hv' ⊢
    have hpool : PoolView.pool { v with
        blocks := before ++ (b.drop p).reset :: after, skipped := 0 } =
        { v.pool with current_ := v.pool.head_ } := by
      have hsame : headAddr Block.node (before ++ (b.drop p).reset :: after) =
          headAddr Block.node v.blocks := by
        rw [hblocks]
        exact headAddr_append_cons before after b _ rfl
      simp only [PoolView.pool, PoolView.active, List.drop_zero, hsame]
    have hset := @setPool _ _ _ hm' hv' { v with
        blocks := before ++ (b.drop p).reset :: after, skipped := 0 } rfl rfl rfl
      (hm'.larges_linked.congr fun l hl =>
        (changesIn_setPool _).large (hv'.record_apart_pool hl).symm)
    rw [hpool] at hset
    rw [if_pos hzero, hzero]
    exact ⟨_, bind_eq_ok.mpr ⟨_, hstore, bind_eq_ok.mpr ⟨_, hset.1, rfl⟩⟩, hset.2⟩
  · have hrelease : b.release p = (b.drop p, false) := by
      rw [Block.release, if_neg hempty]
    have hpos : (b.drop p).grants.length ≠ 0 := fun hzero =>
      hempty (List.length_eq_zero_iff.mp hzero)
    rw [hrelease] at hstore hm' ⊢
    rw [if_neg hpos]
    exact ⟨_, bind_eq_ok.mpr ⟨_, hstore, rfl⟩, hm'⟩

/-- The branch of `freeMemory` for a large record. -/
theorem releaseLarge {before after : List Large} {l : Large} {p : ℕ} {visited : List ℕ}
    (hlarges : v.larges = before ++ l :: after) (hl : l.address_ = p)
    (hp : p ∈ live.map Prod.fst) :
    ∃ m',
      (do
        let m ← m.free l.address_
        let m ← m.storeLarge l.node ⟨0, 0, headAddr Large.node after⟩
        return (m, visited, ([] : List ℕ))) = .ok (m', visited, []) ∧
      Represents m' { v with
        larges := before ++ { l with region := none } :: after
        regions := v.regions.filter fun r => r.1 ≠ p } := by
  have hsound := hv.freeLarge hlarges hl hp
  obtain ⟨_, hm'⟩ := hm.setLarge hv hlarges
    (show (Large.mk l.node none).node = l.node from rfl)
  have hfinal := hm'.setRegions (without p v.regions)
  have hmem : Large.mk l.node none ∈ before ++ { l with region := none } :: after := by simp
  have hheld : Holds (without p v.regions) (l.node, 24) := by
    obtain ⟨b, hb, hinside⟩ := hsound.record_held hmem
    exact ⟨b.page, (hsound.page_mem hb).1, hinside⟩
  have hregion : ∃ region ∈ m.regions, region.1 = l.address_ := by
    obtain ⟨r, hregion, haddr⟩ := Large.exists_region (hl ▸ hv.live_ne_zero hp)
    have hbig : r ∈ v.bigs := List.mem_filterMap.mpr ⟨l, by simp [hlarges], hregion⟩
    rw [hm.regions_eq]
    exact ⟨r, (hv.big_mem hbig).1, haddr.symm⟩
  have hfree : m.free l.address_ = .ok { m with regions := without p v.regions } := by
    rw [Memory.free, if_pos hregion, hl, hm.regions_eq]
    rfl
  exact ⟨_, bind_eq_ok.mpr ⟨_, hfree, bind_eq_ok.mpr ⟨_, if_pos hheld, rfl⟩⟩, hfinal⟩

theorem freeMemory {fuel p : ℕ} (hp : p ∈ live.map Prod.fst)
    (hblocks : v.blocks.length < fuel) (hlarges : v.larges.length < fuel) :
    ∃ m', MemoryPool.freeMemory fuel m v.pool_ p =
        .ok (m', (v.freeMemory p).2.1, (v.freeMemory p).2.2) ∧
      Represents m' (v.freeMemory p).1 := by
  have hload := hm.loadPool hv
  have hfind := @find_larges m v live hm hv fuel v.larges.length (fun node => node.address_ = p)
    (fun l => l.address_ = p) (fun _ => false) (fun _ _ => rfl) hlarges (fun _ _ => rfl)
    (fun hlt => absurd hlt (lt_irrefl _))
  unfold PoolView.freeMemory
  split
  · rename_i before l after hcut
    rw [hcut] at hfind
    obtain ⟨hsplit, hl, _⟩ := cut_eq_some hcut
    obtain ⟨m', hrest, hm'⟩ := @releaseLarge m v live hm hv before after l p
      ((before ++ [l]).map Large.node) hsplit (by simpa using hl) hp
    refine ⟨m', ?_, hm'⟩
    refine bind_eq_ok.mpr ⟨_, hload, ?_⟩
    exact bind_eq_ok.mpr ⟨_, hfind, hrest⟩
  · rename_i hcut
    rw [hcut] at hfind
    have hfind' := @find_blocks m v live hm hv fuel p hblocks
    have hvisited : (v.larges.take (v.larges.length + 1)).map Large.node =
        v.larges.map Large.node := by
      rw [List.take_of_length_le (Nat.le_succ _)]
    simp only [found, hvisited] at hfind
    split
    · rename_i before b after hcut'
      rw [hcut'] at hfind'
      obtain ⟨hsplit, haround, _⟩ := cut_eq_some hcut'
      have hbig := PoolView.Sound.not_big hcut
      have hgrant := hv.around_unique (b := b) (by simp [hsplit]) haround (hv.live_start hp hbig)
      have hsound := hv.freeSmall hsplit hv.skipped_lt hp hbig hgrant
      obtain ⟨m', hrest, hm'⟩ := @releaseBlock m v live hm hv before after b p
        (v.larges.map Large.node ++ (before ++ [b]).map Block.node) hsplit hgrant hsound
      refine ⟨m', ?_, hm'⟩
      refine bind_eq_ok.mpr ⟨_, hload, ?_⟩
      refine bind_eq_ok.mpr ⟨_, hfind, ?_⟩
      exact bind_eq_ok.mpr ⟨_, hfind', hrest⟩
    · rename_i hcut'
      rw [hcut'] at hfind'
      have hvisited' : (v.blocks.take (v.blocks.length + 1)).map Block.node =
          v.blocks.map Block.node := by
        rw [List.take_of_length_le (Nat.le_succ _)]
      simp only [found, hvisited'] at hfind'
      refine ⟨m, ?_, hm⟩
      refine bind_eq_ok.mpr ⟨_, hload, ?_⟩
      refine bind_eq_ok.mpr ⟨_, hfind, ?_⟩
      exact bind_eq_ok.mpr ⟨_, hfind', rfl⟩

/-! ## The whole pool -/

end Represents

/-- The regions after a large record has given its own back. -/
def afterFree (regions : List Range) (l : Large) : List Range :=
  match l.region with
  | none => regions
  | some r => without r.1 regions

theorem freed_cons (regions : List Range) (l : Large) (larges : List Large) :
    PoolView.freed regions (l :: larges) = PoolView.freed (afterFree regions l) larges := by
  unfold PoolView.freed afterFree
  cases hregion : l.region with
  | none => rw [List.filterMap_cons_none hregion]
  | some r =>
      rw [List.filterMap_cons_some hregion]
      simp only [without, List.filter_filter]
      apply List.filter_congr
      intro s _
      rw [← Bool.decide_and, decide_eq_decide, List.map_cons, List.mem_cons, not_or]
      exact and_comm

/-- The records of a list lie elsewhere than in the regions that they manage,
and these are still there. -/
structure Held (regions : List Range) (larges : List Large) : Prop where
  ne_zero : ∀ l ∈ larges, l.node ≠ 0
  home : ∀ l ∈ larges, ∃ page ∈ regions, WithinRange l.header page ∧
    page.1 ∉ (larges.filterMap Large.region).map Prod.fst
  mem : ∀ r ∈ larges.filterMap Large.region, r ∈ regions ∧ r.1 ≠ 0
  nodup : ((larges.filterMap Large.region).map Prod.fst).Nodup

namespace Held

variable {regions : List Range} {l : Large} {larges : List Large}
  (hheld : Held regions (l :: larges))
include hheld

theorem holds : Holds regions (l.node, 24) := by
  obtain ⟨page, hpage, hinside, _⟩ := hheld.home l List.mem_cons_self
  exact ⟨page, hpage, hinside⟩

theorem holds_after : Holds (afterFree regions l) (l.node, 24) := by
  obtain ⟨page, hpage, hinside, hother⟩ := hheld.home l List.mem_cons_self
  refine ⟨page, ?_, hinside⟩
  unfold afterFree
  cases hregion : l.region with
  | none => exact hpage
  | some r =>
      have hne : page.1 ≠ r.1 := fun heq => hother (by simp [hregion, heq])
      exact List.mem_filter.mpr ⟨hpage, by simpa using hne⟩

theorem free {m : Memory} (hm : m.regions = regions) (hne : l.address_ ≠ 0) :
    m.free l.address_ = .ok { m with regions := afterFree regions l } := by
  obtain ⟨r, hregion, haddr⟩ := Large.exists_region hne
  have hmem := (hheld.mem r (by simp [hregion])).1
  rw [Memory.free, if_pos (by rw [hm]; exact ⟨r, hmem, haddr.symm⟩), hm, haddr, afterFree,
    hregion]
  rfl

theorem stays (hzero : l.address_ = 0) : afterFree regions l = regions := by
  cases hregion : l.region with
  | none => rw [afterFree, hregion]
  | some r =>
      have hne := (hheld.mem r (by simp [hregion])).2
      exact absurd ((Large.address_of_region hregion).symm.trans hzero) hne

theorem tail : Held (afterFree regions l) larges := by
  have hnodup := hheld.nodup
  constructor
  · exact fun x hx => hheld.ne_zero x (List.mem_cons_of_mem _ hx)
  · intro x hx
    obtain ⟨page, hpage, hinside, hother⟩ := hheld.home x (List.mem_cons_of_mem _ hx)
    unfold afterFree
    cases hregion : l.region with
    | none =>
        refine ⟨page, hpage, hinside, fun hmem => hother ?_⟩
        simpa [List.filterMap_cons, hregion] using hmem
    | some r =>
        simp only [List.filterMap_cons, hregion, List.map_cons, List.mem_cons, not_or] at hother
        exact ⟨page, List.mem_filter.mpr ⟨hpage, by simpa using hother.1⟩, hinside, hother.2⟩
  · intro r hr
    unfold afterFree
    cases hregion : l.region with
    | none => exact hheld.mem r (by simpa [List.filterMap_cons, hregion] using hr)
    | some r' =>
        rw [List.filterMap_cons, hregion, List.map_cons, List.nodup_cons] at hnodup
        have hmem := hheld.mem r (by simp [hregion, List.mem_filterMap.mp hr])
        have hne : r.1 ≠ r'.1 := fun heq => hnodup.1 (heq ▸ List.mem_map_of_mem hr)
        exact ⟨List.mem_filter.mpr ⟨hmem.1, by simpa using hne⟩, hmem.2⟩
  · cases hregion : l.region with
    | none => simpa [List.filterMap_cons, hregion] using hnodup
    | some r =>
        rw [List.filterMap_cons, hregion, List.map_cons, List.nodup_cons] at hnodup
        exact hnodup.2

end Held

theorem freeLarges_linked {larges : List Large} {m : Memory} {fuel : ℕ}
    (hfuel : larges.length < fuel) (hheld : Held m.regions larges)
    (hlinked : Linked Large.node Large.content m.cells.large larges) :
    MemoryPool.freeLarges fuel m (headAddr Large.node larges) =
      .ok ({ m with regions := PoolView.freed m.regions larges }, larges.map Large.node) := by
  induction larges generalizing m fuel with
  | nil =>
      obtain ⟨fuel, rfl⟩ := Nat.exists_eq_succ_of_ne_zero (Nat.ne_of_gt hfuel)
      simp [MemoryPool.freeLarges, headAddr, PoolView.freed]
  | cons l larges ih =>
      obtain ⟨fuel, rfl⟩ := Nat.exists_eq_succ_of_ne_zero (Nat.ne_of_gt (Nat.zero_lt_of_lt hfuel))
      have hload : m.loadLarge l.node = .ok (l.content (headAddr Large.node larges)) := by
        rw [Memory.loadLarge, if_pos hheld.holds, hlinked.1]
      have hfree : (if l.address_ ≠ 0 then m.free l.address_ else .ok m) =
          .ok { m with regions := afterFree m.regions l } := by
        split_ifs with hne
        · exact hheld.free rfl hne
        · rw [hheld.stays (not_not.mp hne)]
      have htail := @ih { m with regions := afterFree m.regions l } fuel
        (Nat.lt_of_succ_lt_succ hfuel) hheld.tail hlinked.2
      rw [freed_cons]
      unfold MemoryPool.freeLarges
      rw [headAddr, if_neg (hheld.ne_zero l List.mem_cons_self)]
      refine bind_eq_ok.mpr ⟨_, hload, ?_⟩
      refine bind_eq_ok.mpr ⟨_, hfree, ?_⟩
      exact bind_eq_ok.mpr ⟨_, htail, rfl⟩

theorem destroyLarges_linked {larges : List Large} {m : Memory} {fuel : ℕ}
    (hfuel : larges.length < fuel) (hheld : Held m.regions larges)
    (hapart : (larges.map Large.header).Pairwise Apart)
    (hlinked : Linked Large.node Large.content m.cells.large larges) :
    ∃ cells, MemoryPool.destroyLarges fuel m (headAddr Large.node larges) =
        .ok (⟨cells, PoolView.freed m.regions larges⟩, larges.map Large.node) ∧
      ∀ a, (∀ l ∈ larges, Apart l.header (a, 32)) → cells.small a = m.cells.small a := by
  induction larges generalizing m fuel with
  | nil =>
      obtain ⟨fuel, rfl⟩ := Nat.exists_eq_succ_of_ne_zero (Nat.ne_of_gt hfuel)
      exact ⟨m.cells, by simp [MemoryPool.destroyLarges, headAddr, PoolView.freed],
        fun _ _ => rfl⟩
  | cons l larges ih =>
      obtain ⟨fuel, rfl⟩ := Nat.exists_eq_succ_of_ne_zero (Nat.ne_of_gt (Nat.zero_lt_of_lt hfuel))
      have hload : m.loadLarge l.node = .ok (l.content (headAddr Large.node larges)) := by
        rw [Memory.loadLarge, if_pos hheld.holds, hlinked.1]
      obtain ⟨hfirst, hrest⟩ := List.pairwise_cons.mp hapart
      have hfree : ∃ cells,
          (if l.address_ ≠ 0 then do
            let m ← m.free l.address_
            m.storeLarge l.node
              { l.content (headAddr Large.node larges) with address_ := 0 }
          else .ok m) = .ok ⟨cells, afterFree m.regions l⟩ ∧
          ChangesIn l.header m.cells cells := by
        split_ifs with hne
        · exact ⟨_, bind_eq_ok.mpr ⟨_, hheld.free rfl hne, if_pos hheld.holds_after⟩,
            changesIn_setLarge _⟩
        · rw [hheld.stays (not_not.mp hne)]
          exact ⟨m.cells, rfl, fun _ _ => rfl⟩
      obtain ⟨cells, hfree, hchanges⟩ := hfree
      have hlinked' : Linked Large.node Large.content cells.large larges :=
        hlinked.2.congr fun x hx => hchanges.large (hfirst _ (List.mem_map_of_mem hx))
      obtain ⟨cells', htail, hsame⟩ := @ih ⟨cells, afterFree m.regions l⟩ fuel
        (Nat.lt_of_succ_lt_succ hfuel) hheld.tail hrest hlinked'
      rw [freed_cons]
      refine ⟨cells', ?_, ?_⟩
      · unfold MemoryPool.destroyLarges
        rw [headAddr, if_neg (hheld.ne_zero l List.mem_cons_self)]
        refine bind_eq_ok.mpr ⟨_, hload, ?_⟩
        refine bind_eq_ok.mpr ⟨_, hfree, ?_⟩
        exact bind_eq_ok.mpr ⟨_, htail, rfl⟩
      · intro a ha
        have hsplit := List.forall_mem_cons.mp ha
        rw [hsame a hsplit.2]
        exact hchanges.small hsplit.1

namespace PoolView.Sound

variable {v : PoolView} {live : List Range} (hv : v.Sound live)
include hv

theorem page_not_big {b : Block} (hb : b ∈ v.blocks) : b.base ∉ v.bigs.map Prod.fst := by
  intro hmem
  obtain ⟨r, hr, hstart⟩ := List.mem_map.mp hmem
  exact (hv.page_apart_big hb hr).fst_ne (Nat.zero_lt_succ _)
    (hv.owned_pos (List.mem_append_right _ hr)) hstart.symm

theorem larges_held : Held v.regions v.larges := by
  constructor
  · exact fun l hl => hv.record_ne_zero hl
  · intro l hl
    obtain ⟨b, hb, hinside⟩ := hv.record_held hl
    exact ⟨b.page, (hv.page_mem hb).1, hinside, hv.page_not_big hb⟩
  · exact fun r hr => ⟨(hv.big_mem hr).1, (hv.big_mem hr).2.ne_zero⟩
  · have hnodup := hv.granted_fst_nodup
    rw [List.map_append] at hnodup
    exact (List.nodup_append.mp hnodup).2.1

/-- Without large records every grant counts as live. -/
theorem dropLarges {skipped : ℕ} (hskipped : skipped < v.blocks.length) :
    Sound { v with larges := [], skipped, regions := freed v.regions v.larges } v.granted := by
  have hpages : PoolView.owned { v with
      larges := [], skipped, regions := freed v.regions v.larges } = v.pages := by
    simp [PoolView.owned, bigs, pages]
  constructor
  · exact hv.head
  · exact hskipped
  · exact hv.blocks
  · rw [hpages]
    intro r hr
    obtain ⟨b, hb, rfl⟩ := List.mem_map.mp hr
    refine ⟨List.mem_filter.mpr ⟨(hv.page_mem hb).1, ?_⟩, (hv.page_mem hb).2⟩
    rw [decide_eq_true_iff]
    exact hv.page_not_big hb
  · rw [hpages]
    exact hv.pages_apart
  · exact hv.disjoint.filter _
  · simp [bigs]
  · simp [records, bigs, granted]

/-- A block that is not the first one starts its page, and nothing holds it
once the page is freed. -/
theorem not_holds_freed {h b : Block} {rest : List Block} (hblocks : v.blocks = h :: b :: rest)
    (hbase : h.base = v.pool_) :
    b.node = b.base ∧ ¬ Holds (without b.node v.regions) (b.node, 32) := by
  have hh : h ∈ v.blocks := by simp [hblocks]
  have hb : b ∈ v.blocks := by simp [hblocks]
  have hpages := hv.pages_apart
  rw [pages, hblocks, List.map_cons, List.map_cons] at hpages
  have hapart := (List.pairwise_cons.mp hpages).1 b.page List.mem_cons_self
  have hother : b.base ≠ v.pool_ := by
    rw [← hbase]
    exact (hapart.fst_ne (Nat.zero_lt_succ _) (Nat.zero_lt_succ _)).symm
  have hnode : b.node = b.base := by
    rw [(hv.blocks b hb).node_eq, if_neg hother, Nat.add_zero]
  refine ⟨hnode, ?_⟩
  rintro ⟨r, hr, hinside⟩
  obtain ⟨hmem, hstart⟩ := List.mem_filter.mp hr
  rw [decide_eq_true_iff, hnode] at hstart
  have hne : r ≠ b.page := fun heq => hstart (by rw [heq]; rfl)
  have hdisjoint := hv.disjoint.forall hmem (hv.page_mem hb).1 hne
  simp only [Apart, Block.page, PAGE_SIZE] at hdisjoint hinside
  omega

end PoolView.Sound

namespace Represents

variable {m : Memory} {v : PoolView} {live : List Range} (hm : Represents m v)
  (hv : v.Sound live)
include hm hv

/-- The second loop of `resetPool`, for a pool without large records. -/
theorem resetSmalls {before rest : List Block} (hlarges : v.larges = [])
    (hblocks : v.blocks = before ++ rest) {fuel : ℕ} (hfuel : rest.length < fuel) :
    ∃ m', MemoryPool.resetSmalls fuel m (headAddr Block.node rest) =
        .ok (m', rest.map Block.node) ∧
      Represents m' { v with blocks := before ++ rest.map Block.reset } := by
  induction rest generalizing m v live before fuel with
  | nil =>
      obtain ⟨fuel, rfl⟩ := Nat.exists_eq_succ_of_ne_zero (Nat.ne_of_gt hfuel)
      refine ⟨m, by simp [MemoryPool.resetSmalls, headAddr], ?_⟩
      rw [List.map_nil, ← hblocks]
      exact hm
  | cons b rest ih =>
      obtain ⟨fuel, rfl⟩ := Nat.exists_eq_succ_of_ne_zero (Nat.ne_of_gt (Nat.zero_lt_of_lt hfuel))
      have hb : b ∈ v.blocks := by simp [hblocks]
      have hload := hm.loadBlock hv hblocks
      obtain ⟨hstore, hm'⟩ := hm.setBlock hv hblocks (show b.reset.node = b.node from rfl)
      have hv' : PoolView.Sound { v with blocks := before ++ b.reset :: rest }
          ((before ++ b.reset :: rest).flatMap Block.grants) := by
        apply hv.setBlock hblocks (show b.reset.base = b.base from rfl) (hv.blocks b hb).reset
        simp [PoolView.records, PoolView.bigs, hlarges]
      have hblocks' : before ++ b.reset :: rest = (before ++ [b.reset]) ++ rest := by simp
      obtain ⟨m'', hloop, hm''⟩ := ih hm' hv' hlarges hblocks' (Nat.lt_of_succ_lt_succ hfuel)
      refine ⟨m'', ?_, by simpa using hm''⟩
      unfold MemoryPool.resetSmalls
      rw [headAddr, if_neg (hv.node_ne_zero hb)]
      refine bind_eq_ok.mpr ⟨_, hload, ?_⟩
      refine bind_eq_ok.mpr ⟨_, hstore, ?_⟩
      exact bind_eq_ok.mpr ⟨_, hloop, rfl⟩

theorem resetPool {fuel : ℕ} (hblocks : v.blocks.length < fuel)
    (hlarges : v.larges.length < fuel) :
    ∃ m', MemoryPool.resetPool fuel m v.pool_ =
        .ok (m', v.resetPool.2.1, v.resetPool.2.2) ∧
      Represents m' v.resetPool.1 := by
  have hheld := hv.larges_held
  rw [← hm.regions_eq] at hheld
  have hfree := freeLarges_linked hlarges hheld hm.larges_linked
  have hskipped : 0 < v.blocks.length := Nat.zero_lt_of_lt hv.skipped_lt
  have hv1 := hv.dropLarges hskipped
  obtain ⟨pool, hpool⟩ : ∃ pool, pool =
      { v.pool with largeList_ := 0, current_ := v.pool.head_ } := ⟨_, rfl⟩
  have hstore : Memory.storePool { m with regions := PoolView.freed m.regions v.larges } v.pool_
      pool = .ok ⟨m.cells.setPool v.pool_ pool, PoolView.freed m.regions v.larges⟩ := by
    obtain ⟨b, hb, hinside⟩ := hv1.pool_held
    rw [Memory.storePool, hm.regions_eq]
    exact if_pos ⟨b.page, (hv1.page_mem hb).1, hinside⟩
  have hm1 : Represents ⟨m.cells.setPool v.pool_ pool, PoolView.freed m.regions v.larges⟩
      { v with larges := [], skipped := 0, regions := PoolView.freed v.regions v.larges } := by
    constructor
    · rw [hm.regions_eq]
    · rw [pool_setPool, hpool]
      rfl
    · refine hm.blocks_linked.congr ?_
      intro b hb
      exact (changesIn_setPool _).small (hv.header_apart_pool hb).symm
    · trivial
  obtain ⟨m', hloop, hm'⟩ := @resetSmalls _ _ _ hm1 hv1 [] v.blocks rfl rfl fuel hblocks
  refine ⟨m', ?_, hm'⟩
  rw [hpool] at hstore hloop
  refine bind_eq_ok.mpr ⟨_, hm.loadPool hv, ?_⟩
  refine bind_eq_ok.mpr ⟨_, hfree, ?_⟩
  refine bind_eq_ok.mpr ⟨_, hstore, ?_⟩
  exact bind_eq_ok.mpr ⟨_, hloop, rfl⟩

/-- What is left of the regions after `destroyPool`, if that ends. -/
theorem destroyPool {fuel : ℕ} (hblocks : v.blocks.length < fuel)
    (hlarges : v.larges.length < fuel) :
    if v.blocks.length = 1 then
      ∃ cells, MemoryPool.destroyPool fuel m v.pool_ =
        .ok (⟨cells, without v.pool_ (PoolView.freed v.regions v.larges)⟩,
          v.larges.map Large.node)
    else MemoryPool.destroyPool fuel m v.pool_ = .error .badAccess := by
  have hheld := hv.larges_held
  rw [← hm.regions_eq] at hheld
  obtain ⟨cells, hdestroy, hsame⟩ :=
    destroyLarges_linked hlarges hheld hv.records_apart hm.larges_linked
  rw [hm.regions_eq] at hdestroy
  have hskipped : 0 < v.blocks.length := Nat.zero_lt_of_lt hv.skipped_lt
  have hv1 := hv.dropLarges hskipped
  have hsmall : ∀ b ∈ v.blocks, cells.small b.node = m.cells.small b.node :=
    fun b hb => hsame _ fun l hl => hv.record_apart_header hb hl
  have hlinked : Linked Block.node Block.content cells.small v.blocks :=
    hm.blocks_linked.congr hsmall
  have hloadSmall : ∀ b ∈ v.blocks,
      Memory.loadSmall ⟨cells, PoolView.freed v.regions v.larges⟩ b.node =
        .ok (cells.small b.node) := by
    intro b hb
    exact if_pos ⟨b.page, (hv1.page_mem hb).1, (hv1.blocks b hb).header_inside⟩
  obtain ⟨h, rest, hsplit, hbase⟩ := hv.head_block
  have hh : h ∈ v.blocks := by simp [hsplit]
  have hhead : v.pool.head_ = h.node := by rw [PoolView.pool, hsplit, headAddr]
  have hload := hloadSmall h hh
  obtain ⟨fuel, rfl⟩ := Nat.exists_eq_succ_of_ne_zero (Nat.ne_of_gt (Nat.zero_lt_of_lt hblocks))
  rw [hsplit] at hlinked
  rw [hlinked.1] at hload
  cases rest with
  | nil =>
      rw [if_pos (by rw [hsplit, List.length_singleton])]
      have hmem : ∃ region ∈ PoolView.freed v.regions v.larges, region.1 = v.pool_ :=
        ⟨h.page, (hv1.page_mem hh).1, hbase⟩
      refine ⟨cells, ?_⟩
      refine bind_eq_ok.mpr ⟨_, hm.loadPool hv, ?_⟩
      refine bind_eq_ok.mpr ⟨_, hdestroy, ?_⟩
      rw [hhead]
      refine bind_eq_ok.mpr ⟨_, hload, ?_⟩
      refine bind_eq_ok.mpr ⟨(⟨cells, PoolView.freed v.regions v.larges⟩, []), rfl, ?_⟩
      refine bind_eq_ok.mpr ⟨_, if_pos hmem, ?_⟩
      rw [List.append_nil]
      rfl
  | cons b rest =>
      rw [if_neg (by rw [hsplit, List.length_cons, List.length_cons]; omega)]
      have hb : b ∈ v.blocks := by simp [hsplit]
      obtain ⟨hnode, hgone⟩ := hv1.not_holds_freed hsplit hbase
      have hmem : ∃ region ∈ PoolView.freed v.regions v.larges, region.1 = b.node :=
        ⟨b.page, (hv1.page_mem hb).1, hnode.symm⟩
      have hsmalls : MemoryPool.destroySmalls (fuel + 1)
          ⟨cells, PoolView.freed v.regions v.larges⟩ b.node = .error .badAccess := by
        unfold MemoryPool.destroySmalls
        rw [if_neg (hv.node_ne_zero hb), hloadSmall b hb]
        have hgone' : Memory.loadSmall
            ⟨cells, without b.node (PoolView.freed v.regions v.larges)⟩ b.node =
            .error .badAccess := if_neg hgone
        unfold without at hgone'
        simp only [bind, Except.bind, Memory.free, if_pos hmem, hgone']
      have hnext : (h.content (headAddr Block.node (b :: rest))).next_ = b.node := rfl
      rw [MemoryPool.destroyPool, hm.loadPool hv]
      simp only [bind, Except.bind] at hdestroy ⊢
      have hlargeList : v.pool.largeList_ = headAddr Large.node v.larges := rfl
      rw [hlargeList, hdestroy, hhead]
      simp only [hload, hnext, hsmalls]

end Represents

end MyFileServer
