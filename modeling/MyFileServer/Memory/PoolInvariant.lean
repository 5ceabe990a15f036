import MyFileServer.Memory.PoolLists

/-!
# What holds of the lists of the pool

Every block has a page, its grants lie behind its header and in front of
`last_`, and the count of them fits below `last_`.  The pages and the regions
of the large records do not overlap.  What the program holds, together with
the large records, is what the blocks granted together with the regions.
-/

namespace MyFileServer

open LinkedList

/-! ## Ranges -/

def WithinRange (r s : Range) : Prop := s.1 ≤ r.1 ∧ r.1 + r.2 ≤ s.1 + s.2

theorem WithinRange.refl (r : Range) : WithinRange r r := ⟨le_refl _, le_refl _⟩

theorem Apart.symm {r s : Range} (h : Apart r s) : Apart s r := Or.symm h

instance : Std.Symm Apart := ⟨fun _ _ => Apart.symm⟩

theorem Apart.mono {r s r' s' : Range} (h : Apart r s) (hr : WithinRange r' r) (hs : WithinRange s' s) :
    Apart r' s' := by
  unfold Apart WithinRange at *
  omega

theorem Apart.fst_ne {r s : Range} (h : Apart r s) (hr : 0 < r.2) (hs : 0 < s.2) :
    r.1 ≠ s.1 := by
  unfold Apart at h
  omega

theorem fst_nodup {l : List Range} (hapart : l.Pairwise Apart) (hpos : ∀ r ∈ l, 0 < r.2) :
    (l.map Prod.fst).Nodup := by
  rw [List.Nodup, List.pairwise_map]
  exact hapart.imp_of_mem fun hr hs h => h.fst_ne (hpos _ hr) (hpos _ hs)

/-- The ranges that do not start at `p`. -/
def without (p : ℕ) (l : List Range) : List Range := l.filter fun r => r.1 ≠ p

theorem without_eq_self {p : ℕ} {l : List Range} (hp : p ∉ l.map Prod.fst) :
    without p l = l := by
  rw [without, List.filter_eq_self]
  intro r hr
  rw [decide_eq_true_iff]
  intro heq
  exact hp (heq ▸ List.mem_map_of_mem hr)

theorem without_middle {before after : List Range} {r : Range}
    (hnodup : ((before ++ r :: after).map Prod.fst).Nodup) :
    without r.1 (before ++ r :: after) = before ++ after := by
  rw [List.map_append, List.map_cons, List.nodup_middle, List.nodup_cons, List.mem_append,
    not_or] at hnodup
  have hbefore := without_eq_self hnodup.1.1
  have hafter := without_eq_self hnodup.1.2
  unfold without at *
  rw [List.filter_append, List.filter_cons_of_neg (by simp), hbefore, hafter]

theorem apart_others {α : Type} {f : α → Range} {before after : List α} {a : α}
    (hapart : ((before ++ a :: after).map f).Pairwise Apart) :
    ∀ other ∈ before ++ after, Apart (f a) (f other) := by
  rw [List.pairwise_map, List.perm_middle.pairwise_iff Apart.symm] at hapart
  exact (List.pairwise_cons.mp hapart).1

structure IsRegion (r : Range) : Prop where
  ne_zero : r.1 ≠ 0
  aligned : r.1 % 16 = 0
  lt : r.1 + r.2 < 2 ^ 64

theorem Allows.isRegion {regions : List Range} {base size : ℕ}
    (h : Allows regions base size) : IsRegion (base, size) :=
  ⟨h.1, h.2.1, h.2.2.1⟩

theorem Allows.apart {regions : List Range} {base size : ℕ} {r : Range}
    (h : Allows regions base size) (hr : r ∈ regions) : Apart r (base, size) :=
  h.2.2.2 r hr

theorem mp_align_ptr_eq {p : ℕ} (hp : p + 15 < 2 ^ 64) :
    mp_align_ptr p = (p + 15) / 16 * 16 := by
  rw [mp_align_ptr, addSizeT, Nat.mod_eq_of_lt hp]

/-! ## Blocks -/

/-- The pool itself stands in front of the header of its own page. -/
structure Block.Sound (pool_ : ℕ) (b : Block) : Prop where
  node_eq : b.node = b.base + if b.base = pool_ then 24 else 0
  full : b.node + 32 + b.grants.length ≤ b.last_
  last_le : b.last_ ≤ b.base + PAGE_SIZE
  grants : ∀ r ∈ b.grants,
    b.node + 32 ≤ r.1 ∧ r.1 + r.2 ≤ b.last_ ∧ r.1 % 16 = 0 ∧ 0 < r.2
  apart : b.grants.Pairwise Apart

namespace Block.Sound

variable {pool_ : ℕ} {b : Block}

theorem base_le (hb : b.Sound pool_) : b.base ≤ b.node := by
  rw [hb.node_eq]
  exact Nat.le_add_right _ _

theorem header_inside (hb : b.Sound pool_) : WithinRange b.header b.page := by
  have hbase := hb.base_le
  have hfull := hb.full
  have hlast := hb.last_le
  exact ⟨hbase, by simp only [Block.header, Block.page]; omega⟩

theorem grant_inside {r : Range} (hb : b.Sound pool_) (hr : r ∈ b.grants) :
    WithinRange r b.page := by
  have hbase := hb.base_le
  have hlast := hb.last_le
  have hgrant := hb.grants r hr
  exact ⟨by simp only [Block.page]; omega, by simp only [Block.page]; omega⟩

theorem length_lt (hb : b.Sound pool_) : b.grants.length < 2 ^ 32 - 1 := by
  have hbase := hb.base_le
  have hfull := hb.full
  have hlast := hb.last_le
  simp only [PAGE_SIZE] at hlast
  omega

/-- The next grant starts behind the last one and not behind the page. -/
theorem align_last (hb : b.Sound pool_) (hpage : IsRegion b.page) :
    b.last_ ≤ mp_align_ptr b.last_ ∧ mp_align_ptr b.last_ ≤ b.base + PAGE_SIZE ∧
      mp_align_ptr b.last_ % 16 = 0 := by
  have hlast := hb.last_le
  have haligned := hpage.aligned
  have hlt := hpage.lt
  simp only [Block.page, PAGE_SIZE] at haligned hlt hlast ⊢
  rw [mp_align_ptr_eq (by omega)]
  omega

theorem fits_iff (hb : b.Sound pool_) (hpage : IsRegion b.page) (size : ℕ) :
    b.fits size = true ↔ mp_align_ptr b.last_ + size ≤ b.base + PAGE_SIZE := by
  have halign := hb.align_last hpage
  have hlt : b.base + PAGE_SIZE < 2 ^ 64 := hpage.lt
  have hdiff : toSizeT ((b.base + PAGE_SIZE : ℕ) - (mp_align_ptr b.last_ : ℤ)) =
      b.base + PAGE_SIZE - mp_align_ptr b.last_ := by
    unfold toSizeT
    omega
  rw [Block.fits, MemoryPool.hasRoom, Block.content, hdiff, decide_eq_true_iff]
  omega

theorem take (hb : b.Sound pool_) (hpage : IsRegion b.page) {size : ℕ} (hsize : 0 < size)
    (hfits : b.fits size = true) : (b.take size).Sound pool_ := by
  have halign := hb.align_last hpage
  have hroom := (hb.fits_iff hpage size).mp hfits
  have hfull := hb.full
  constructor
  · exact hb.node_eq
  · simp only [Block.take, List.length_cons]
    omega
  · exact hroom
  · intro r hr
    rcases List.mem_cons.mp hr with rfl | hr
    · simp only [Block.take]
      omega
    · have hgrant := hb.grants r hr
      simp only [Block.take]
      omega
  · refine List.pairwise_cons.mpr ⟨?_, hb.apart⟩
    intro r hr
    have hgrant := hb.grants r hr
    right
    change r.1 + r.2 ≤ mp_align_ptr b.last_
    omega

theorem fail (hb : b.Sound pool_) : b.fail.Sound pool_ :=
  ⟨hb.node_eq, hb.full, hb.last_le, hb.grants, hb.apart⟩

theorem reset (hb : b.Sound pool_) : b.reset.Sound pool_ := by
  have hfull := hb.full
  have hlast := hb.last_le
  constructor
  · exact hb.node_eq
  · simp [Block.reset]
  · simp only [Block.reset]
    omega
  · simp [Block.reset]
  · simp [Block.reset]

theorem drop (hb : b.Sound pool_) (p : ℕ) : (b.drop p).Sound pool_ := by
  have hlen := List.length_filter_le (fun range : Range => decide (range.1 ≠ p)) b.grants
  have hfull := hb.full
  constructor
  · exact hb.node_eq
  · simp only [Block.drop]
    omega
  · exact hb.last_le
  · intro r hr
    exact hb.grants r (List.mem_filter.mp hr).1
  · exact hb.apart.filter _

theorem release (hb : b.Sound pool_) (p : ℕ) : (b.release p).1.Sound pool_ := by
  unfold Block.release
  split_ifs
  · exact (hb.drop p).reset
  · exact hb.drop p

end Block.Sound

theorem NewPage.block_sound {page : NewPage} {pool_ size : ℕ}
    (hregion : IsRegion (page.base, PAGE_SIZE)) (hother : page.base ≠ pool_)
    (hsize : 0 < size) (hfits : size ≤ PAGE_SIZE - 32) : (page.block size).Sound pool_ := by
  have haligned := hregion.aligned
  have hlt := hregion.lt
  have haddr : mp_align_ptr (page.base + 32) = page.base + 32 := by
    simp only [PAGE_SIZE] at haligned hlt
    rw [mp_align_ptr_eq (by omega)]
    omega
  simp only [PAGE_SIZE] at haligned hlt hfits
  constructor
  · simp [NewPage.block, hother]
  · simp only [NewPage.block, haddr, List.length_singleton]
    omega
  · simp only [NewPage.block, haddr, PAGE_SIZE]
    omega
  · intro r hr
    simp only [NewPage.block, haddr, List.mem_singleton] at hr
    simp only [NewPage.block, haddr, hr]
    omega
  · exact List.pairwise_singleton _ _

/-! ## The whole pool -/

namespace PoolView

def pages (v : PoolView) : List Range := v.blocks.map Block.page

def owned (v : PoolView) : List Range := v.pages ++ v.bigs

def granted (v : PoolView) : List Range := v.blocks.flatMap Block.grants

def records (v : PoolView) : List Range := v.larges.map Large.header

structure Sound (v : PoolView) (live : List Range) : Prop where
  head : headAddr Block.base v.blocks = v.pool_
  skipped_lt : v.skipped < v.blocks.length
  blocks : ∀ b ∈ v.blocks, b.Sound v.pool_
  owned : ∀ r ∈ v.owned, r ∈ v.regions ∧ IsRegion r
  apart : v.owned.Pairwise Apart
  disjoint : v.regions.Pairwise Apart
  large : ∀ r ∈ v.bigs, PAGE_SIZE - 32 < r.2
  account : (live ++ v.records).Perm (v.granted ++ v.bigs)

namespace Sound

variable {v : PoolView} {live : List Range} (hv : v.Sound live)
include hv

theorem page_mem {b : Block} (hb : b ∈ v.blocks) : b.page ∈ v.regions ∧ IsRegion b.page :=
  hv.owned b.page (List.mem_append_left _ (List.mem_map_of_mem hb))

theorem big_mem {r : Range} (hr : r ∈ v.bigs) : r ∈ v.regions ∧ IsRegion r :=
  hv.owned r (List.mem_append_right _ hr)

theorem pages_apart : v.pages.Pairwise Apart :=
  (List.pairwise_append.mp hv.apart).1

theorem page_apart_big {b : Block} {r : Range} (hb : b ∈ v.blocks) (hr : r ∈ v.bigs) :
    Apart b.page r :=
  (List.pairwise_append.mp hv.apart).2.2 b.page (List.mem_map_of_mem hb) r hr

theorem granted_inside {r : Range} (hr : r ∈ v.granted) :
    ∃ b ∈ v.blocks, r ∈ b.grants ∧ WithinRange r b.page := by
  obtain ⟨b, hb, hgrant⟩ := List.mem_flatMap.mp hr
  exact ⟨b, hb, hgrant, (hv.blocks b hb).grant_inside hgrant⟩

theorem granted_apart : (v.granted ++ v.bigs).Pairwise Apart := by
  refine List.pairwise_append.mpr ⟨?_, (List.pairwise_append.mp hv.apart).2.1, ?_⟩
  · refine List.pairwise_flatMap.mpr ⟨fun b hb => (hv.blocks b hb).apart, ?_⟩
    have hpages := List.pairwise_map.mp hv.pages_apart
    refine hpages.imp_of_mem ?_
    intro b b' hb hb' hapart r hr r' hr'
    exact hapart.mono ((hv.blocks b hb).grant_inside hr) ((hv.blocks b' hb').grant_inside hr')
  · intro r hr big hbig
    obtain ⟨b, hb, _, hinside⟩ := hv.granted_inside hr
    exact (hv.page_apart_big hb hbig).mono hinside (WithinRange.refl _)

theorem live_apart : (live ++ v.records).Pairwise Apart :=
  hv.granted_apart.perm hv.account.symm Apart.symm

theorem granted_pos {r : Range} (hr : r ∈ v.granted ++ v.bigs) : 0 < r.2 := by
  rcases List.mem_append.mp hr with hgranted | hbig
  · obtain ⟨b, hb, hgrant, _⟩ := hv.granted_inside hgranted
    exact ((hv.blocks b hb).grants r hgrant).2.2.2
  · exact Nat.zero_lt_of_lt (hv.large r hbig)

theorem live_fst_nodup : ((live ++ v.records).map Prod.fst).Nodup :=
  fst_nodup hv.live_apart fun _ hr => hv.granted_pos (hv.account.mem_iff.mp hr)

theorem granted_fst_nodup : ((v.granted ++ v.bigs).map Prod.fst).Nodup :=
  fst_nodup hv.granted_apart fun _ hr => hv.granted_pos hr

/-- A large record is too small for a region of its own. -/
theorem record_granted {l : Large} (hl : l ∈ v.larges) : l.header ∈ v.granted := by
  have hrecord : l.header ∈ live ++ v.records :=
    List.mem_append_right _ (List.mem_map_of_mem hl)
  rcases List.mem_append.mp (hv.account.mem_iff.mp hrecord) with hgranted | hbig
  · exact hgranted
  · have hsize := hv.large l.header hbig
    simp [Large.header, PAGE_SIZE] at hsize

/-- The page of the pool itself. -/
theorem head_block : ∃ b rest, v.blocks = b :: rest ∧ b.base = v.pool_ := by
  cases hblocks : v.blocks with
  | nil =>
      have hlt := hv.skipped_lt
      simp [hblocks] at hlt
  | cons b rest =>
      have hhead := hv.head
      rw [hblocks] at hhead
      exact ⟨b, rest, rfl, hhead⟩

theorem page_apart_page {b b' : Block} (hb : b ∈ v.blocks) (hb' : b' ∈ v.blocks)
    (hne : b ≠ b') : Apart b.page b'.page := by
  have hsymm : Std.Symm fun b b' : Block => Apart b.page b'.page := ⟨fun _ _ => Apart.symm⟩
  exact (List.pairwise_map.mp hv.pages_apart).forall hb hb' hne

theorem pool_inside {b : Block} (hbase : b.base = v.pool_) :
    WithinRange (v.pool_, 24) b.page ∧ (b ∈ v.blocks → b.node = v.pool_ + 24) := by
  refine ⟨⟨le_of_eq hbase, ?_⟩, ?_⟩
  · simp [Block.page, PAGE_SIZE, hbase]
  · intro hb
    rw [(hv.blocks b hb).node_eq, hbase, if_pos rfl]

theorem grant_apart_header {b : Block} {r : Range} (hb : b ∈ v.blocks)
    (hr : r ∈ v.granted ++ v.bigs) : Apart r b.header := by
  have hheader := (hv.blocks b hb).header_inside
  rcases List.mem_append.mp hr with hgranted | hbig
  · obtain ⟨b', hb', hgrant, hinside⟩ := hv.granted_inside hgranted
    by_cases hsame : b' = b
    · subst hsame
      exact Or.inr ((hv.blocks b' hb').grants r hgrant).1
    · exact (hv.page_apart_page hb' hb hsame).mono hinside hheader
  · exact (hv.page_apart_big hb hbig).symm.mono (WithinRange.refl _) hheader

theorem grant_apart_pool {r : Range} (hr : r ∈ v.granted ++ v.bigs) :
    Apart r (v.pool_, 24) := by
  obtain ⟨h, rest, hblocks, hbase⟩ := hv.head_block
  have hh : h ∈ v.blocks := by simp [hblocks]
  obtain ⟨hpool, hnode⟩ := hv.pool_inside hbase
  rcases List.mem_append.mp hr with hgranted | hbig
  · obtain ⟨b, hb, hgrant, hinside⟩ := hv.granted_inside hgranted
    by_cases hsame : b = h
    · subst hsame
      have hbehind := ((hv.blocks b hb).grants r hgrant).1
      rw [hnode hb] at hbehind
      exact Or.inr (le_trans (by simp) hbehind)
    · exact (hv.page_apart_page hb hh hsame).mono hinside hpool
  · exact (hv.page_apart_big hh hbig).symm.mono (WithinRange.refl _) hpool

theorem header_apart_pool {b : Block} (hb : b ∈ v.blocks) : Apart b.header (v.pool_, 24) := by
  obtain ⟨h, rest, hblocks, hbase⟩ := hv.head_block
  have hh : h ∈ v.blocks := by simp [hblocks]
  obtain ⟨hpool, hnode⟩ := hv.pool_inside hbase
  by_cases hsame : b = h
  · subst hsame
    exact Or.inr (le_of_eq (hnode hb).symm)
  · exact (hv.page_apart_page hb hh hsame).mono (hv.blocks b hb).header_inside hpool

theorem record_apart_header {b : Block} {l : Large} (hb : b ∈ v.blocks) (hl : l ∈ v.larges) :
    Apart l.header b.header :=
  hv.grant_apart_header hb (List.mem_append_left _ (hv.record_granted hl))

theorem record_apart_pool {l : Large} (hl : l ∈ v.larges) : Apart l.header (v.pool_, 24) :=
  hv.grant_apart_pool (List.mem_append_left _ (hv.record_granted hl))

theorem records_apart : v.records.Pairwise Apart :=
  (List.pairwise_append.mp hv.live_apart).2.1

/-! Everything lies in a page or in a region. -/

theorem pool_held : ∃ b ∈ v.blocks, WithinRange (v.pool_, 24) b.page := by
  obtain ⟨h, rest, hblocks, hbase⟩ := hv.head_block
  exact ⟨h, by simp [hblocks], (hv.pool_inside hbase).1⟩

theorem record_held {l : Large} (hl : l ∈ v.larges) :
    ∃ b ∈ v.blocks, WithinRange l.header b.page := by
  obtain ⟨b, hb, _, hinside⟩ := hv.granted_inside (hv.record_granted hl)
  exact ⟨b, hb, hinside⟩

theorem node_ne_zero {b : Block} (hb : b ∈ v.blocks) : b.node ≠ 0 := by
  have hbase := (hv.blocks b hb).base_le
  have hne : b.base ≠ 0 := (hv.page_mem hb).2.ne_zero
  omega

theorem record_ne_zero {l : Large} (hl : l ∈ v.larges) : l.node ≠ 0 := by
  obtain ⟨b, hb, hinside⟩ := hv.record_held hl
  have hne : b.base ≠ 0 := (hv.page_mem hb).2.ne_zero
  have hle : b.base ≤ l.node := hinside.1
  omega

theorem granted_held {r : Range} (hr : r ∈ v.granted ++ v.bigs) : Holds v.regions r := by
  rcases List.mem_append.mp hr with hgranted | hbig
  · obtain ⟨b, hb, _, hinside⟩ := hv.granted_inside hgranted
    exact ⟨b.page, (hv.page_mem hb).1, hinside⟩
  · exact ⟨r, (hv.big_mem hbig).1, le_refl _, le_refl _⟩

end Sound

end PoolView

end MyFileServer
