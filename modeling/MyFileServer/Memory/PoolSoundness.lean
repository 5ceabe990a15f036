import MyFileServer.Memory.PoolInvariant

/-!
# The operations keep the invariant

One lemma for each way the lists change, and from these one for each
operation.
-/

namespace MyFileServer

open LinkedList

theorem failAll_map {β : Type} {f : Block → β} (hf : ∀ b, f b.fail = f b) (l : List Block) :
    (failAll l).map f = l.map f := by
  induction l with
  | nil => rfl
  | cons b rest ih =>
      cases rest with
      | nil => rfl
      | cons b' rest =>
          rw [failAll_cons, List.map_cons, hf, ih]
          rfl

theorem failAll_map_base (l : List Block) : (failAll l).map Block.base = l.map Block.base :=
  failAll_map (fun _ => rfl) l

theorem failAll_map_node (l : List Block) : (failAll l).map Block.node = l.map Block.node :=
  failAll_map (fun _ => rfl) l

theorem failAll_ne_nil {l : List Block} (hl : l ≠ []) : failAll l ≠ [] := by
  intro hnil
  have hmap := failAll_map_node l
  rw [hnil] at hmap
  exact hl (List.map_eq_nil_iff.mp hmap.symm)

theorem failAll_getLast {l : List Block} (hl : l ≠ []) :
    ((failAll l).getLast (failAll_ne_nil hl)).node = (l.getLast hl).node := by
  have hmap := failAll_map_node l
  have hlast := List.getLast_map (f := Block.node) (l := l) (by simpa using hl)
  have hlast' := List.getLast_map (f := Block.node) (l := failAll l)
    (by simpa using failAll_ne_nil hl)
  rw [← hlast, ← hlast']
  simp only [hmap]

theorem failAll_grants (l : List Block) :
    (failAll l).flatMap Block.grants = l.flatMap Block.grants := by
  rw [List.flatMap_def, List.flatMap_def, failAll_map (fun _ => rfl)]

theorem failAll_sound {pool_ : ℕ} {l : List Block} (hl : ∀ b ∈ l, b.Sound pool_) :
    ∀ b ∈ failAll l, b.Sound pool_ := by
  induction l with
  | nil => exact hl
  | cons b rest ih =>
      cases rest with
      | nil => exact hl
      | cons b' rest =>
          have hsplit := List.forall_mem_cons.mp hl
          exact List.forall_mem_cons.mpr ⟨hsplit.1.fail, ih hsplit.2⟩

theorem jump_lt {l : List Block} (hl : l ≠ []) : jump l < l.length := by
  induction l with
  | nil => exact absurd rfl hl
  | cons b rest ih =>
      cases rest with
      | nil => simp [jump]
      | cons b' rest =>
          have htail := ih (by simp)
          unfold jump
          rw [List.length_cons]
          split_ifs <;> omega

namespace PoolView

theorem passed_append_active (v : PoolView) : v.passed ++ v.active = v.blocks :=
  List.take_append_drop _ _

theorem length_active (v : PoolView) : v.active.length = v.blocks.length - v.skipped :=
  List.length_drop

theorem pages_congr {v v' : PoolView}
    (h : v'.blocks.map Block.base = v.blocks.map Block.base) : v'.pages = v.pages := by
  have hmap : ∀ l : List Block,
      l.map Block.page = (l.map Block.base).map fun base => (base, PAGE_SIZE) := by
    intro l
    rw [List.map_map]
    rfl
  rw [pages, pages, hmap, hmap, h]

theorem failRound_map_base (v : PoolView) :
    v.failRound.blocks.map Block.base = v.blocks.map Block.base := by
  rw [failRound, List.map_append, failAll_map_base, ← List.map_append, v.passed_append_active]

theorem failRound_length (v : PoolView) : v.failRound.blocks.length = v.blocks.length := by
  rw [← List.length_map (f := Block.base), failRound_map_base, List.length_map]

theorem failRound_owned (v : PoolView) : v.failRound.owned = v.owned := by
  rw [PoolView.owned, PoolView.owned, pages_congr v.failRound_map_base]
  rfl

theorem owned_push_perm (v : PoolView) (b : Block) (skipped : ℕ) (regions : List Range) :
    (PoolView.owned { v with blocks := v.blocks ++ [b], skipped, regions }).Perm
      (b.page :: v.owned) := by
  simp only [PoolView.owned, pages, List.map_append, List.map_cons, List.map_nil,
    List.append_assoc]
  exact List.perm_middle

theorem created_sound {base : ℕ} {regions : List Range}
    (hallows : Allows regions base PAGE_SIZE) (hdisjoint : regions.Pairwise Apart) :
    (created base regions).Sound [] := by
  have hpage : (created base regions).owned = [(base, PAGE_SIZE)] := rfl
  constructor
  · rfl
  · simp [created]
  · intro b hb
    rw [created, List.mem_singleton] at hb
    subst hb
    constructor <;> simp [created, PAGE_SIZE]
  · intro r hr
    rw [hpage, List.mem_singleton] at hr
    subst hr
    exact ⟨List.mem_cons_self, hallows.isRegion⟩
  · rw [hpage]
    exact List.pairwise_singleton _ _
  · exact List.pairwise_cons.mpr ⟨fun r hr => (hallows.apart hr).symm, hdisjoint⟩
  · simp [created, bigs]
  · simp [created, bigs, records, granted]

/-- What an allocation of a small range leaves as it was: a region that is
not in use yet stays apart. -/
structure Extends (v v' : PoolView) : Prop where
  pool_eq : v'.pool_ = v.pool_
  larges_eq : v'.larges = v.larges
  regions : ∀ r ∈ v.regions, r ∈ v'.regions
  spare : ∀ r ∈ v.regions, (∀ s ∈ v.owned, Apart s r) → ∀ s ∈ v'.owned, Apart s r
  length_le : v'.blocks.length ≤ v.blocks.length + 1

/-- The same for any allocation. -/
structure Grows (v v' : PoolView) : Prop where
  pool_eq : v'.pool_ = v.pool_
  blocks_le : v'.blocks.length ≤ v.blocks.length + 1
  larges_le : v'.larges.length ≤ v.larges.length + 1

theorem Extends.grows {v v' : PoolView} (h : v.Extends v') : v.Grows v' :=
  ⟨h.pool_eq, h.length_le, by rw [h.larges_eq]; exact Nat.le_succ _⟩

theorem Extends.refl (v : PoolView) : v.Extends v :=
  ⟨rfl, rfl, fun _ hr => hr, fun _ _ hs => hs, Nat.le_succ _⟩

namespace Sound

variable {v : PoolView} {live : List Range} (hv : v.Sound live)
include hv

/-! ## Changes of the lists -/

theorem setBlocks {blocks : List Block} {skipped : ℕ} {live' : List Range}
    (hbase : blocks.map Block.base = v.blocks.map Block.base)
    (hskipped : skipped < v.blocks.length) (hblocks : ∀ b ∈ blocks, b.Sound v.pool_)
    (haccount : (live' ++ v.records).Perm (blocks.flatMap Block.grants ++ v.bigs)) :
    Sound { v with blocks, skipped } live' := by
  have howned : PoolView.owned { v with blocks, skipped } = v.owned := by
    rw [PoolView.owned, PoolView.owned, pages_congr hbase]
    rfl
  have hlength : blocks.length = v.blocks.length := by
    rw [← List.length_map (f := Block.base), hbase, List.length_map]
  constructor
  · have hhead := hv.head
    rw [headAddr_congr hbase]
    exact hhead
  · rw [hlength]
    exact hskipped
  · exact hblocks
  · rw [howned]
    exact hv.owned
  · rw [howned]
    exact hv.apart
  · exact hv.disjoint
  · exact hv.large
  · exact haccount

/-- A change of one block that stays where it is. -/
theorem setBlock {before after : List Block} {b b' : Block} {live' : List Range}
    (hblocks : v.blocks = before ++ b :: after) (hbase : b'.base = b.base)
    (hb' : b'.Sound v.pool_)
    (haccount : (live' ++ v.records).Perm
      ((before ++ b' :: after).flatMap Block.grants ++ v.bigs)) :
    Sound { v with blocks := before ++ b' :: after } live' := by
  apply hv.setBlocks
  · simp [hblocks, hbase]
  · exact hv.skipped_lt
  · intro other hother
    rcases List.mem_append.mp hother with hin | hin
    · exact hv.blocks other (by simp [hblocks, hin])
    · rcases List.mem_cons.mp hin with rfl | hin
      · exact hb'
      · exact hv.blocks other (by simp [hblocks, hin])
  · exact haccount

theorem setLarges {larges : List Large} {regions : List Range} {live' : List Range}
    (howned : ∀ r ∈ v.pages ++ larges.filterMap Large.region, r ∈ regions ∧ IsRegion r)
    (hapart : (v.pages ++ larges.filterMap Large.region).Pairwise Apart)
    (hdisjoint : regions.Pairwise Apart)
    (hlarge : ∀ r ∈ larges.filterMap Large.region, PAGE_SIZE - 32 < r.2)
    (haccount : (live' ++ larges.map Large.header).Perm
      (v.granted ++ larges.filterMap Large.region)) :
    Sound { v with larges, regions } live' :=
  ⟨hv.head, hv.skipped_lt, hv.blocks, howned, hapart, hdisjoint, hlarge, haccount⟩

theorem setRegions {regions : List Range} (hkeep : ∀ r ∈ v.owned, r ∈ regions)
    (hdisjoint : regions.Pairwise Apart) : Sound { v with regions } live :=
  ⟨hv.head, hv.skipped_lt, hv.blocks, fun r hr => ⟨hkeep r hr, (hv.owned r hr).2⟩, hv.apart,
    hdisjoint, hv.large, hv.account⟩

theorem setSkipped {skipped : ℕ} (hskipped : skipped < v.blocks.length) :
    Sound { v with skipped } live :=
  ⟨hv.head, hskipped, hv.blocks, hv.owned, hv.apart, hv.disjoint, hv.large, hv.account⟩

theorem addRegion {base size : ℕ} (hallows : Allows v.regions base size) :
    Sound { v with regions := (base, size) :: v.regions } live :=
  hv.setRegions (fun s hs => List.mem_cons_of_mem _ (hv.owned s hs).1)
    (List.pairwise_cons.mpr ⟨fun _ hr => (hallows.apart hr).symm, hv.disjoint⟩)

/-- A new page with one grant. -/
theorem push {b : Block} {skipped : ℕ} {r : Range} (hgrants : b.grants = [r])
    (hb : b.Sound v.pool_) (hregion : IsRegion b.page)
    (hapart : ∀ s ∈ v.regions, Apart s b.page) (hskipped : skipped ≤ v.blocks.length) :
    Sound { v with
      blocks := v.blocks ++ [b], skipped, regions := b.page :: v.regions } (r :: live) := by
  have hperm := v.owned_push_perm b skipped (b.page :: v.regions)
  constructor
  · obtain ⟨h, rest, hblocks, hbase⟩ := hv.head_block
    rw [hblocks]
    exact hbase
  · simp only [List.length_append, List.length_singleton]
    omega
  · intro b' hb'
    rcases List.mem_append.mp hb' with hold | hnew
    · exact hv.blocks b' hold
    · rw [List.mem_singleton.mp hnew]
      exact hb
  · intro s hs
    rw [hperm.mem_iff] at hs
    rcases List.mem_cons.mp hs with rfl | hold
    · exact ⟨List.mem_cons_self, hregion⟩
    · exact ⟨List.mem_cons_of_mem _ (hv.owned s hold).1, (hv.owned s hold).2⟩
  · rw [hperm.pairwise_iff Apart.symm]
    exact List.pairwise_cons.mpr
      ⟨fun s hs => (hapart s (hv.owned s hs).1).symm, hv.apart⟩
  · exact List.pairwise_cons.mpr ⟨fun s hs => (hapart s hs).symm, hv.disjoint⟩
  · exact hv.large
  · have hgranted : (v.blocks ++ [b]).flatMap Block.grants = v.granted ++ [r] := by
      simp [granted, hgrants]
    change (r :: (live ++ v.records)).Perm ((v.blocks ++ [b]).flatMap Block.grants ++ v.bigs)
    rw [hgranted, List.append_assoc]
    exact (hv.account.cons r).trans List.perm_middle.symm

/-! ## Small ranges -/

theorem active_ne_nil : v.active ≠ [] := by
  have hlt := hv.skipped_lt
  intro hnil
  have hlength := v.length_active
  rw [hnil, List.length_nil] at hlength
  omega

theorem grant_of_page {page : NewPage} {size : ℕ}
    (hallows : Allows v.regions page.base PAGE_SIZE) (hsize : 0 < size)
    (hfits : size ≤ PAGE_SIZE - 32) :
    page.base ≠ v.pool_ ∧ mp_align_ptr (page.base + 32) ≠ 0 ∧
      (page.block size).Sound v.pool_ := by
  obtain ⟨h, rest, hblocks, hbase⟩ := hv.head_block
  have hh : h ∈ v.blocks := by simp [hblocks]
  have hapart := hallows.apart (hv.page_mem hh).1
  have hother : page.base ≠ v.pool_ := by
    rw [← hbase]
    exact (hapart.fst_ne (Nat.zero_lt_succ _) (Nat.zero_lt_succ _)).symm
  have hsound := NewPage.block_sound hallows.isRegion hother hsize hfits
  refine ⟨hother, ?_, hsound⟩
  have hgrant := hsound.grants (mp_align_ptr (page.base + 32), size) List.mem_cons_self
  change page.base + 32 ≤ mp_align_ptr (page.base + 32) ∧ _ at hgrant
  omega

theorem failRound : v.failRound.Sound live := by
  have hjump := jump_lt hv.active_ne_nil
  rw [v.length_active] at hjump
  apply hv.setBlocks v.failRound_map_base
  · omega
  · intro b hb
    rcases List.mem_append.mp hb with hpassed | hactive
    · exact hv.blocks b (List.mem_of_mem_take hpassed)
    · exact failAll_sound (fun b hb => hv.blocks b (List.mem_of_mem_drop hb)) b hactive
  · rw [PoolView.failRound, List.flatMap_append, failAll_grants, ← List.flatMap_append,
      v.passed_append_active]
    exact hv.account

theorem mallocSmallNode {size p : ℕ} {page : Option NewPage} {v' : PoolView}
    {visited : List ℕ} (hsize : 0 < size) (hfits : size ≤ PAGE_SIZE - 32)
    (h : v.mallocSmallNode size page = .ok (p, v', visited)) :
    v'.Sound (PoolState.grant live p size) ∧ v.Extends v' := by
  cases page with
  | none =>
      cases h
      exact ⟨hv, Extends.refl v⟩
  | some page =>
      by_cases hallows : Allows v.regions page.base PAGE_SIZE
      · simp only [PoolView.mallocSmallNode, if_pos hallows] at h
        cases h
        obtain ⟨hother, haddr, hblock⟩ := hv.grant_of_page hallows hsize hfits
        have hfailed := hv.failRound
        have hpushed := hfailed.push rfl hblock hallows.isRegion
          (fun s hs => hallows.apart hs) (Nat.le_of_lt hfailed.skipped_lt)
        rw [PoolState.grant, if_neg haddr]
        refine ⟨hpushed, rfl, rfl, fun r hr => List.mem_cons_of_mem _ hr, ?_, ?_⟩
        · intro r hr hspare s hs
          rw [(v.failRound.owned_push_perm (page.block size) _ _).mem_iff,
            v.failRound_owned] at hs
          rcases List.mem_cons.mp hs with rfl | hold
          · exact (hallows.apart hr).symm
          · exact hspare s hold
        · rw [List.length_append, v.failRound_length]
          rfl
      · simp only [PoolView.mallocSmallNode, if_neg hallows] at h
        cases h

theorem take {before after : List Block} {b : Block} {size : ℕ}
    (hblocks : v.blocks = before ++ b :: after) (hsize : 0 < size)
    (hfits : b.fits size = true) :
    Sound { v with blocks := before ++ b.take size :: after }
      ((mp_align_ptr b.last_, size) :: live) := by
  have hmem : ∀ b' ∈ before ++ b :: after, b' ∈ v.blocks := by
    intro b' hb'
    rwa [hblocks]
  have hb := hmem b (by simp)
  apply hv.setBlocks
  · simp [hblocks, Block.take]
  · exact hv.skipped_lt
  · intro b' hb'
    rcases List.mem_append.mp hb' with hbefore | hrest
    · exact hv.blocks b' (hmem b' (List.mem_append_left _ hbefore))
    · rcases List.mem_cons.mp hrest with rfl | hafter
      · exact (hv.blocks b hb).take (hv.page_mem hb).2 hsize hfits
      · exact hv.blocks b' (hmem b' (by simp [hafter]))
  · have hgranted : ((before ++ b.take size :: after).flatMap Block.grants).Perm
        ((mp_align_ptr b.last_, size) :: v.granted) := by
      rw [granted, hblocks, List.flatMap_append, List.flatMap_append, List.flatMap_cons,
        List.flatMap_cons]
      exact List.perm_middle
    exact (hv.account.cons _).trans (hgranted.append_right v.bigs).symm

theorem mallocSmall {size p : ℕ} {page : Option NewPage} {v' : PoolView}
    {visited : List ℕ} (hsize : 0 < size) (hfits : size ≤ PAGE_SIZE - 32)
    (h : v.mallocSmall size page = .ok (p, v', visited)) :
    v'.Sound (PoolState.grant live p size) ∧ v.Extends v' := by
  unfold PoolView.mallocSmall at h
  split at h
  · rename_i before b after hcut
    cases h
    obtain ⟨hactive, hroom, _⟩ := cut_eq_some hcut
    have hblocks : v.blocks = v.passed ++ before ++ b :: after := by
      rw [List.append_assoc, ← hactive, v.passed_append_active]
    have hb : b ∈ v.blocks := by simp [hblocks]
    have haddr : mp_align_ptr b.last_ ≠ 0 := by
      have halign := (hv.blocks b hb).align_last (hv.page_mem hb).2
      have hfull := (hv.blocks b hb).full
      omega
    have hbase : (v.passed ++ before ++ b.take size :: after).map Block.base =
        v.blocks.map Block.base := by
      simp [hblocks, Block.take]
    have howned : PoolView.owned { v with blocks := v.passed ++ before ++ b.take size :: after } =
        v.owned := by
      rw [PoolView.owned, PoolView.owned, pages_congr hbase]
      rfl
    rw [PoolState.grant, if_neg haddr]
    refine ⟨hv.take hblocks hsize hroom, rfl, rfl, fun _ hr => hr, ?_, ?_⟩
    · intro r _ hspare
      rw [howned]
      exact hspare
    · simp [hblocks]
  · obtain ⟨⟨p', v'', visited'⟩, hnode, hrest⟩ := Execution.bind_eq_ok.mp h
    cases hrest
    exact hv.mallocSmallNode hsize hfits hnode

/-! ## Large ranges -/

/-- A region that is not in use yet comes to a large record. -/
theorem addBig {larges : List Large} {r : Range} {live' : List Range} (hmem : r ∈ v.regions)
    (hregion : IsRegion r) (hspare : ∀ s ∈ v.owned, Apart s r) (hlarge : PAGE_SIZE - 32 < r.2)
    (hbigs : (larges.filterMap Large.region).Perm (r :: v.bigs))
    (haccount : (live' ++ larges.map Large.header).Perm (r :: (live ++ v.records))) :
    Sound { v with larges } live' := by
  have hperm : (v.pages ++ larges.filterMap Large.region).Perm (r :: v.owned) :=
    (hbigs.append_left v.pages).trans List.perm_middle
  apply @setLarges v live hv larges v.regions
  · intro s hs
    rcases List.mem_cons.mp (hperm.mem_iff.mp hs) with rfl | hold
    · exact ⟨hmem, hregion⟩
    · exact hv.owned s hold
  · rw [hperm.pairwise_iff Apart.symm]
    exact List.pairwise_cons.mpr ⟨fun s hs => (hspare s hs).symm, hv.apart⟩
  · exact hv.disjoint
  · intro s hs
    rcases List.mem_cons.mp (hbigs.mem_iff.mp hs) with rfl | hold
    · exact hlarge
    · exact hv.large s hold
  · refine haccount.trans ((hv.account.cons r).trans ?_)
    exact List.perm_middle.symm.trans (hbigs.append_left v.granted).symm

theorem address_eq_zero {l : Large} (hl : l ∈ v.larges) (hzero : l.address_ = 0) :
    l.region = none := by
  cases hregion : l.region with
  | none => rfl
  | some r =>
      have hbig : r ∈ v.bigs := List.mem_filterMap.mpr ⟨l, hl, hregion⟩
      have hne := (hv.big_mem hbig).2.ne_zero
      exact absurd ((Large.address_of_region hregion).symm.trans hzero) hne

theorem owned_pos {r : Range} (hr : r ∈ v.owned) : 0 < r.2 := by
  rcases List.mem_append.mp hr with hpage | hbig
  · obtain ⟨b, _, rfl⟩ := List.mem_map.mp hpage
    exact Nat.zero_lt_succ _
  · exact Nat.zero_lt_of_lt (hv.large r hbig)

theorem mallocLargeNode {size p : ℕ} {region : Option ℕ} {page : Option NewPage}
    {v' : PoolView} {visited : List ℕ} (hlarge : PAGE_SIZE - 32 < size)
    (h : v.mallocLargeNode size region page = .ok (p, v', visited)) :
    v'.Sound (PoolState.grant live p size) ∧ v.Grows v' := by
  cases region with
  | none =>
      cases h
      exact ⟨hv, (Extends.refl v).grows⟩
  | some addr =>
      unfold PoolView.mallocLargeNode at h
      by_cases hallows : Allows v.regions addr size
      case neg => simp only [if_neg hallows, reduceCtorEq] at h
      simp only [if_pos hallows] at h
      have hadded := hv.addRegion hallows
      have hmem : (addr, size) ∈ (addr, size) :: v.regions := List.mem_cons_self
      have hspare : ∀ s ∈ v.owned, Apart s (addr, size) :=
        fun s hs => hallows.apart (hv.owned s hs).1
      split at h
      · rename_i before l after hcut
        cases h
        obtain ⟨hlarges, hzero, _⟩ := cut_eq_some hcut
        have hregion := hv.address_eq_zero (l := l) (by simp [hlarges]) (by simpa using hzero)
        rw [PoolState.grant, if_neg hallows.isRegion.ne_zero]
        refine ⟨hadded.addBig hmem hallows.isRegion hspare hlarge ?_ ?_, rfl, Nat.le_succ _, ?_⟩
        · simp only [bigs, hlarges, List.filterMap_append, List.filterMap_cons, hregion]
          exact List.perm_middle
        · simp [records, hlarges, Large.header]
        · simp [hlarges]
      · obtain ⟨⟨node, v'', visited'⟩, hnode, hrest⟩ := Execution.bind_eq_ok.mp h
        obtain ⟨hsound, hextends⟩ := hadded.mallocSmall (Nat.zero_lt_succ _) (by decide) hnode
        have hmem' := hextends.regions _ hmem
        have hspare' := hextends.spare _ hmem hspare
        by_cases hzero : node = 0
        · simp only [if_pos hzero] at hrest
          cases hrest
          rw [PoolState.grant, if_pos hzero] at hsound
          refine ⟨hsound.setRegions ?_ (hsound.disjoint.filter _), hextends.pool_eq, hextends.length_le, ?_⟩
          · intro s hs
            have hne := (hspare' s hs).fst_ne (hsound.owned_pos hs) (Nat.zero_lt_of_lt hlarge)
            exact List.mem_filter.mpr ⟨(hsound.owned s hs).1, by simpa using hne⟩
          · exact le_trans (le_of_eq (congrArg _ hextends.larges_eq)) (Nat.le_succ _)
        · simp only [if_neg hzero] at hrest
          cases hrest
          rw [PoolState.grant, if_neg hzero] at hsound
          rw [PoolState.grant, if_neg hallows.isRegion.ne_zero]
          refine ⟨hsound.addBig hmem' hallows.isRegion hspare' hlarge (List.Perm.refl _) ?_,
            hextends.pool_eq, hextends.length_le, ?_⟩
          · exact List.perm_middle.cons _
          · exact le_of_eq (congrArg (fun l => l.length + 1) hextends.larges_eq)

theorem malloc {size p : ℕ} {answer answer' : Option Fresh} {v' : PoolView}
    {visited : List ℕ} (h : v.malloc size answer answer' = .ok (p, v', visited)) :
    v'.Sound (PoolState.grant live p size) ∧ v.Grows v' := by
  unfold PoolView.malloc at h
  by_cases hzero : size = 0
  · rw [if_pos hzero] at h
    cases h
    exact ⟨hv, (Extends.refl v).grows⟩
  · rw [if_neg hzero] at h
    by_cases hlarge : PAGE_SIZE - 32 < size
    · rw [if_pos hlarge] at h
      exact hv.mallocLargeNode hlarge h
    · rw [if_neg hlarge] at h
      have hsmall := hv.mallocSmall (Nat.pos_of_ne_zero hzero) (not_lt.mp hlarge) h
      exact ⟨hsmall.1, hsmall.2.grows⟩

/-! ## Frees -/

theorem live_ne_zero {p : ℕ} (hp : p ∈ live.map Prod.fst) : p ≠ 0 := by
  obtain ⟨r, hr, rfl⟩ := List.mem_map.mp hp
  have hgranted := hv.account.mem_iff.mp (List.mem_append_left v.records hr)
  rcases List.mem_append.mp hgranted with hsmall | hbig
  · obtain ⟨b, hb, hgrant, _⟩ := hv.granted_inside hsmall
    have hbehind := ((hv.blocks b hb).grants r hgrant).1
    omega
  · exact (hv.big_mem hbig).2.ne_zero

theorem account_without {p : ℕ} (hp : p ∈ live.map Prod.fst) :
    (without p live ++ v.records).Perm (without p v.granted ++ without p v.bigs) := by
  have hrecords : p ∉ v.records.map Prod.fst := by
    have hnodup := hv.live_fst_nodup
    rw [List.map_append] at hnodup
    exact fun hrecord => (List.nodup_append.mp hnodup).2.2 p hp p hrecord rfl
  have hfilter := hv.account.filter fun r => decide (r.1 ≠ p)
  rw [List.filter_append, List.filter_append] at hfilter
  have hself := without_eq_self hrecords
  unfold without at *
  rwa [hself] at hfilter

theorem freeLarge {before after : List Large} {l : Large} {p : ℕ}
    (hlarges : v.larges = before ++ l :: after) (hl : l.address_ = p)
    (hp : p ∈ live.map Prod.fst) :
    Sound { v with
      larges := before ++ { l with region := none } :: after
      regions := without p v.regions } (without p live) := by
  obtain ⟨r, hregion, haddr⟩ := Large.exists_region (hl ▸ hv.live_ne_zero hp)
  obtain rfl : r.1 = p := haddr.symm.trans hl
  have hbigs : v.bigs = before.filterMap Large.region ++ r :: after.filterMap Large.region := by
    simp [bigs, hlarges, hregion]
  have hrest : (before ++ { l with region := none } :: after).filterMap Large.region =
      before.filterMap Large.region ++ after.filterMap Large.region := by
    simp
  have hperm : v.owned.Perm (r :: (v.pages ++ (before.filterMap Large.region ++
      after.filterMap Large.region))) := by
    rw [PoolView.owned, hbigs]
    exact (List.perm_middle.append_left v.pages).trans List.perm_middle
  have hapart := (hperm.pairwise_iff Apart.symm).mp hv.apart
  obtain ⟨hother, hkeep⟩ := List.pairwise_cons.mp hapart
  have hpos : 0 < r.2 := hv.owned_pos (hperm.mem_iff.mpr List.mem_cons_self)
  have hnodup := hv.granted_fst_nodup
  apply hv.setLarges
  · rw [hrest]
    intro s hs
    have howned : s ∈ v.owned := hperm.mem_iff.mpr (List.mem_cons_of_mem _ hs)
    have hstart := (hother s hs).symm.fst_ne (hv.owned_pos howned) hpos
    exact ⟨List.mem_filter.mpr ⟨(hv.owned s howned).1, by simpa using hstart⟩,
      (hv.owned s howned).2⟩
  · rw [hrest]
    exact hkeep
  · exact hv.disjoint.filter _
  · rw [hrest]
    intro s hs
    apply hv.large
    rw [hbigs]
    exact List.perm_middle.mem_iff.mpr (List.mem_cons_of_mem _ hs)
  · have haccount := hv.account_without hp
    rw [hbigs, List.map_append] at hnodup
    have hgranted : r.1 ∉ v.granted.map Prod.fst := by
      intro hmem
      exact (List.nodup_append.mp hnodup).2.2 r.1 hmem r.1 (by simp) rfl
    rw [without_eq_self hgranted, hbigs,
      without_middle (List.nodup_append.mp hnodup).2.1] at haccount
    rw [hrest]
    simpa [records, hlarges, Large.header] using haccount

/-- Only one block has a pointer that it granted between its header and its
end. -/
theorem around_unique {b : Block} {p : ℕ} (hb : b ∈ v.blocks) (haround : b.around p = true)
    (hp : p ∈ v.granted.map Prod.fst) : p ∈ b.grants.map Prod.fst := by
  obtain ⟨r, hr, rfl⟩ := List.mem_map.mp hp
  obtain ⟨b', hb', hgrant, _⟩ := hv.granted_inside hr
  by_cases hsame : b' = b
  · subst hsame
    exact List.mem_map_of_mem hgrant
  · have hapart := hv.page_apart_page hb' hb hsame
    have hplace := (hv.blocks b' hb').grants r hgrant
    have hlast := (hv.blocks b' hb').last_le
    have hbase' := (hv.blocks b' hb').base_le
    have hbase := (hv.blocks b hb).base_le
    rw [Block.around_iff] at haround
    simp only [Apart, Block.page] at hapart
    omega

theorem around_granted {p : ℕ} (hp : p ∈ v.granted.map Prod.fst) :
    ∃ b ∈ v.blocks, b.around p = true := by
  obtain ⟨r, hr, rfl⟩ := List.mem_map.mp hp
  obtain ⟨b, hb, hgrant, _⟩ := hv.granted_inside hr
  have hplace := (hv.blocks b hb).grants r hgrant
  have hlast := (hv.blocks b hb).last_le
  refine ⟨b, hb, (b.around_iff r.1).mpr ?_⟩
  omega

theorem freeSmall {before after : List Block} {b : Block} {p skipped : ℕ}
    (hblocks : v.blocks = before ++ b :: after) (hskipped : skipped < v.blocks.length)
    (hp : p ∈ live.map Prod.fst) (hbig : p ∉ v.bigs.map Prod.fst)
    (hgrant : p ∈ b.grants.map Prod.fst) :
    Sound { v with blocks := before ++ (b.release p).1 :: after, skipped } (without p live) := by
  have hmem : ∀ b' ∈ before ++ b :: after, b' ∈ v.blocks := by
    intro b' hb'
    rwa [hblocks]
  have hbase : (b.release p).1.base = b.base := by
    unfold Block.release
    split_ifs <;> rfl
  have hgrants : (b.release p).1.grants = without p b.grants := by
    unfold Block.release
    split_ifs with hempty
    · exact hempty.symm
    · rfl
  have hgranted : v.granted = before.flatMap Block.grants ++
      (b.grants ++ after.flatMap Block.grants) := by
    simp [granted, hblocks]
  have hnodup := (List.nodup_append.mp (List.map_append ▸ hv.granted_fst_nodup)).1
  rw [hgranted, List.map_append, List.map_append] at hnodup
  obtain ⟨_, hrest, hbefore⟩ := List.nodup_append.mp hnodup
  have hbefore' : p ∉ (before.flatMap Block.grants).map Prod.fst := fun hmem =>
    hbefore p hmem p (List.mem_append_left _ hgrant) rfl
  have hafter' : p ∉ (after.flatMap Block.grants).map Prod.fst := fun hmem =>
    (List.nodup_append.mp hrest).2.2 p hgrant p hmem rfl
  apply hv.setBlocks
  · simp [hblocks, hbase]
  · exact hskipped
  · intro b' hb'
    rcases List.mem_append.mp hb' with hin | hin
    · exact hv.blocks b' (hmem b' (List.mem_append_left _ hin))
    · rcases List.mem_cons.mp hin with rfl | hin
      · exact (hv.blocks b (hmem b (by simp))).release p
      · exact hv.blocks b' (hmem b' (by simp [hin]))
  · have haccount := hv.account_without hp
    have hfilter : without p v.granted = before.flatMap Block.grants ++
        (without p b.grants ++ after.flatMap Block.grants) := by
      have hself := without_eq_self hbefore'
      have hself' := without_eq_self hafter'
      unfold without at *
      rw [hgranted, List.filter_append, List.filter_append, hself, hself']
    rw [hfilter, without_eq_self hbig] at haccount
    rw [List.flatMap_append, List.flatMap_cons, hgrants]
    exact haccount

/-- A live pointer belongs to a large record or to a block. -/
theorem live_start {p : ℕ} (hp : p ∈ live.map Prod.fst) (hbig : p ∉ v.bigs.map Prod.fst) :
    p ∈ v.granted.map Prod.fst := by
  have hmem : p ∈ (live ++ v.records).map Prod.fst := by
    rw [List.map_append]
    exact List.mem_append_left _ hp
  have hgranted := (hv.account.map Prod.fst).mem_iff.mp hmem
  rw [List.map_append] at hgranted
  exact (List.mem_append.mp hgranted).resolve_right hbig

omit hv in
theorem not_big {p : ℕ}
    (hcut : cut (fun l : Large => l.address_ = p) (v.larges.length + 1) v.larges = none) :
    p ∉ v.bigs.map Prod.fst := by
  intro hmem
  obtain ⟨r, hr, rfl⟩ := List.mem_map.mp hmem
  obtain ⟨l, hl, hregion⟩ := List.mem_filterMap.mp hr
  have hother := cut_eq_none.mp hcut l hl
  simp [Large.address_of_region hregion] at hother

theorem freeMemory {p : ℕ} (hp : p ∈ live.map Prod.fst) :
    (v.freeMemory p).1.Sound (without p live) ∧ v.Grows (v.freeMemory p).1 := by
  unfold PoolView.freeMemory
  split
  · rename_i before l after hcut
    obtain ⟨hlarges, hl, _⟩ := cut_eq_some hcut
    refine ⟨hv.freeLarge hlarges (by simpa using hl) hp, rfl, Nat.le_succ _, ?_⟩
    simp [hlarges]
  · rename_i hcut
    have hbig := not_big hcut
    have hgranted := hv.live_start hp hbig
    split
    · rename_i before b after hcut'
      obtain ⟨hblocks, haround, _⟩ := cut_eq_some hcut'
      have hgrant := hv.around_unique (b := b) (by simp [hblocks]) haround hgranted
      have hskipped : (if (b.release p).2 then 0 else v.skipped) < v.blocks.length := by
        have hlt := hv.skipped_lt
        split_ifs <;> omega
      refine ⟨hv.freeSmall hblocks hskipped hp hbig hgrant, rfl, ?_, Nat.le_succ _⟩
      simp [hblocks]
    · rename_i hcut'
      obtain ⟨b, hb, haround⟩ := hv.around_granted hgranted
      rw [cut_eq_none.mp hcut' b hb] at haround
      cases haround

theorem resetPool : (v.resetPool).1.Sound [] ∧ v.Grows (v.resetPool).1 := by
  have hbase : (v.blocks.map Block.reset).map Block.base = v.blocks.map Block.base := by
    rw [List.map_map]
    rfl
  have hgrants : (v.blocks.map Block.reset).flatMap Block.grants = [] := by
    simp [Block.reset]
  have hpages : pages { v with blocks := v.blocks.map Block.reset } = v.pages := pages_congr hbase
  refine ⟨?_, rfl, ?_, Nat.zero_le _⟩
  · unfold PoolView.resetPool
    constructor
    · rw [headAddr_congr hbase]
      exact hv.head
    · simp only [List.length_map]
      exact Nat.zero_lt_of_lt hv.skipped_lt
    · intro b hb
      obtain ⟨b', hb', rfl⟩ := List.mem_map.mp hb
      exact (hv.blocks b' hb').reset
    · intro r hr
      simp only [PoolView.owned, bigs, List.filterMap_nil, List.append_nil] at hr
      have hpage : r ∈ v.pages := hpages ▸ hr
      have howned : r ∈ v.owned := List.mem_append_left _ hpage
      refine ⟨List.mem_filter.mpr ⟨(hv.owned r howned).1, ?_⟩, (hv.owned r howned).2⟩
      rw [decide_eq_true_iff]
      intro hmem
      obtain ⟨big, hbig, hstart⟩ := List.mem_map.mp hmem
      have hapart := (List.pairwise_append.mp hv.apart).2.2 r hpage big hbig
      exact hapart.fst_ne (hv.owned_pos howned)
        (hv.owned_pos (List.mem_append_right _ hbig)) hstart.symm
    · have hpages' := hv.pages_apart
      rw [← hpages] at hpages'
      simp only [PoolView.owned, bigs, List.filterMap_nil, List.append_nil]
      exact hpages'
    · exact hv.disjoint.filter _
    · simp [bigs]
    · simp [records, bigs, granted, hgrants]
  · simp [PoolView.resetPool]

end Sound

end PoolView

end MyFileServer
