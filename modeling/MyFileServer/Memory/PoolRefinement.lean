import MyFileServer.Memory.PoolSoundness

/-!
# The memory refines the lists

`Represents` says that a memory holds the lists of a view.  A change of one
header leaves the others, so each operation in memory does what its namesake
does on the lists, and with enough fuel every loop ends.
-/

namespace MyFileServer

open LinkedList Execution

/-! ## What a store leaves -/

def ChangesIn (r : Range) (cells cells' : Cells) : Prop :=
  ∀ x, x < r.1 ∨ r.1 + r.2 ≤ x → cells' x = cells x

section

variable {r : Range} {cells cells' : Cells} {a : ℕ}

theorem ChangesIn.small (h : ChangesIn r cells cells') (hapart : Apart r (a, 32)) :
    cells'.small a = cells.small a := by
  have hsame : ∀ i, i < 32 → cells' (a + i) = cells (a + i) := by
    intro i hi
    apply h
    simp only [Apart] at hapart
    omega
  simp only [Cells.small, hsame 8 (by omega), hsame 16 (by omega), hsame 20 (by omega),
    hsame 24 (by omega), show cells' a = cells a from hsame 0 (by omega)]

theorem ChangesIn.large (h : ChangesIn r cells cells') (hapart : Apart r (a, 24)) :
    cells'.large a = cells.large a := by
  have hsame : ∀ i, i < 24 → cells' (a + i) = cells (a + i) := by
    intro i hi
    apply h
    simp only [Apart] at hapart
    omega
  simp only [Cells.large, hsame 8 (by omega), hsame 16 (by omega),
    show cells' a = cells a from hsame 0 (by omega)]

theorem ChangesIn.pool (h : ChangesIn r cells cells') (hapart : Apart r (a, 24)) :
    cells'.pool a = cells.pool a := by
  have hlarge := congrArg (fun node : LargeNode => (node.address_, node.size_, node.next_))
    (h.large hapart)
  simp only [Cells.large, Prod.mk.injEq] at hlarge
  simp only [Cells.pool, hlarge.1, hlarge.2.1, hlarge.2.2]

theorem changesIn_setSmall (node : SmallNode) :
    ChangesIn (a, 32) cells (cells.setSmall a node) := by
  intro x hx
  simp only [Cells.setSmall]
  repeat rw [if_neg (by omega)]

theorem changesIn_setLarge (node : LargeNode) :
    ChangesIn (a, 24) cells (cells.setLarge a node) := by
  intro x hx
  simp only [Cells.setLarge]
  repeat rw [if_neg (by omega)]

theorem changesIn_setPool (pool : Pool) :
    ChangesIn (a, 24) cells (cells.setPool a pool) := by
  intro x hx
  simp only [Cells.setPool]
  repeat rw [if_neg (by omega)]

theorem changesIn_fill (contents : Cells) : ChangesIn r cells (cells.fill r contents) := by
  intro x hx
  simp only [Cells.fill]
  rw [if_neg (by omega)]

theorem ChangesIn.mono {s : Range} (h : ChangesIn r cells cells') (hinside : WithinRange r s) :
    ChangesIn s cells cells' := by
  intro x hx
  apply h
  unfold WithinRange at hinside
  omega

theorem ChangesIn.trans {cells'' : Cells} (h : ChangesIn r cells cells')
    (h' : ChangesIn r cells' cells'') : ChangesIn r cells cells'' :=
  fun x hx => (h' x hx).trans (h x hx)

@[simp] theorem small_setSmall (node : SmallNode) : (cells.setSmall a node).small a = node := by
  simp [Cells.small, Cells.setSmall]

@[simp] theorem large_setLarge (node : LargeNode) : (cells.setLarge a node).large a = node := by
  simp [Cells.large, Cells.setLarge]

@[simp] theorem pool_setPool (pool : Pool) : (cells.setPool a pool).pool a = pool := by
  simp [Cells.pool, Cells.setPool]

end

/-! ## Memory and lists -/

structure Represents (m : Memory) (v : PoolView) : Prop where
  regions_eq : m.regions = v.regions
  pool_eq : m.cells.pool v.pool_ = v.pool
  blocks_linked : Linked Block.node Block.content m.cells.small v.blocks
  larges_linked : Linked Large.node Large.content m.cells.large v.larges

/-- The operation on the lists gives the result of the operation in memory. -/
def Refines (spec : MemExec (ℕ × PoolView × List ℕ)) (code : MemExec (ℕ × Memory × List ℕ)) :
    Prop :=
  match spec with
  | .error e => code = .error e
  | .ok (p, v, visited) => ∃ m, code = .ok (p, m, visited) ∧ Represents m v

theorem Refines.bind {spec : MemExec (ℕ × PoolView × List ℕ)}
    {code : MemExec (ℕ × Memory × List ℕ)}
    {f : ℕ × PoolView × List ℕ → MemExec (ℕ × PoolView × List ℕ)}
    {g : ℕ × Memory × List ℕ → MemExec (ℕ × Memory × List ℕ)}
    (hrefines : Refines spec code)
    (hrest : ∀ p v m visited, spec = .ok (p, v, visited) → Represents m v →
      Refines (f (p, v, visited)) (g (p, m, visited))) :
    Refines (spec >>= f) (code >>= g) := by
  cases spec with
  | error e =>
      have hcode : code = .error e := hrefines
      rw [hcode]
      exact rfl
  | ok result =>
      obtain ⟨p, v, visited⟩ := result
      obtain ⟨m, hcode, hm⟩ := hrefines
      rw [hcode]
      exact hrest p v m visited rfl hm

/-- A range that no record of the pool uses. -/
structure PoolView.Clear (v : PoolView) (r : Range) : Prop where
  pool : Apart r (v.pool_, 24)
  blocks : ∀ b ∈ v.blocks, Apart r b.header
  larges : ∀ l ∈ v.larges, Apart r l.header

theorem PoolView.pool_congr {v v' : PoolView}
    (hblocks : v'.blocks.map Block.node = v.blocks.map Block.node)
    (hlarges : v'.larges.map Large.node = v.larges.map Large.node)
    (hskipped : v'.skipped = v.skipped) : v'.pool = v.pool := by
  have hactive : v'.active.map Block.node = v.active.map Block.node := by
    rw [active, active, List.map_drop, List.map_drop, hblocks, hskipped]
  rw [PoolView.pool, PoolView.pool, headAddr_congr hlarges, headAddr_congr hblocks,
    headAddr_congr hactive]

theorem currentAfter_cons (b b' : Block) (rest : List Block) (current : ℕ) :
    (if jump (b :: b' :: rest) = 0 then current
      else headAddr Block.node ((b :: b' :: rest).drop (jump (b :: b' :: rest)))) =
    if jump (b' :: rest) = 0 then if 5 ≤ b.failed_ then b'.node else current
    else headAddr Block.node ((b' :: rest).drop (jump (b' :: rest))) := by
  rw [jump_cons]
  by_cases hjump : jump (b' :: rest) = 0
  · by_cases hfailed : 5 ≤ b.failed_ <;> simp [hjump, hfailed, headAddr]
  · simp [hjump]

namespace Represents

variable {m : Memory} {v : PoolView} {live : List Range} (hm : Represents m v)
  (hv : v.Sound live)
include hm

theorem frame {cells : Cells} {r : Range} (hclear : v.Clear r)
    (hchanges : ChangesIn r m.cells cells) : Represents { m with cells } v := by
  constructor
  · exact hm.regions_eq
  · exact (hchanges.pool hclear.pool).trans hm.pool_eq
  · exact hm.blocks_linked.congr fun b hb => hchanges.small (hclear.blocks b hb)
  · exact hm.larges_linked.congr fun l hl => hchanges.large (hclear.larges l hl)

/-- What memory holds at the header of a block. -/
theorem small_eq {before after : List Block} {b : Block}
    (hblocks : v.blocks = before ++ b :: after) :
    m.cells.small b.node = b.content (headAddr Block.node after) := by
  have hlinked := hm.blocks_linked
  rw [hblocks] at hlinked
  exact hlinked.view_eq

theorem large_eq {before after : List Large} {l : Large}
    (hlarges : v.larges = before ++ l :: after) :
    m.cells.large l.node = l.content (headAddr Large.node after) := by
  have hlinked := hm.larges_linked
  rw [hlarges] at hlinked
  exact hlinked.view_eq

include hv

theorem holds {r : Range} {b : Block} (hb : b ∈ v.blocks) (hinside : WithinRange r b.page) :
    Holds m.regions r := by
  rw [hm.regions_eq]
  exact ⟨b.page, (hv.page_mem hb).1, hinside⟩

theorem holds_header {b : Block} (hb : b ∈ v.blocks) : Holds m.regions (b.node, 32) :=
  hm.holds hv hb (hv.blocks b hb).header_inside

theorem holds_record {l : Large} (hl : l ∈ v.larges) : Holds m.regions (l.node, 24) := by
  obtain ⟨b, hb, hinside⟩ := hv.record_held hl
  exact hm.holds hv hb hinside

theorem holds_pool : Holds m.regions (v.pool_, 24) := by
  obtain ⟨b, hb, hinside⟩ := hv.pool_held
  exact hm.holds hv hb hinside

theorem loadPool : m.loadPool v.pool_ = .ok v.pool := by
  rw [Memory.loadPool, if_pos (hm.holds_pool hv), hm.pool_eq]

theorem loadSmall {b : Block} (hb : b ∈ v.blocks) :
    m.loadSmall b.node = .ok (m.cells.small b.node) := by
  rw [Memory.loadSmall, if_pos (hm.holds_header hv hb)]

theorem loadBlock {before after : List Block} {b : Block}
    (hblocks : v.blocks = before ++ b :: after) :
    m.loadSmall b.node = .ok (b.content (headAddr Block.node after)) := by
  have hb : b ∈ v.blocks := by simp [hblocks]
  rw [hm.loadSmall hv hb, hm.small_eq hblocks]

theorem loadLarge {l : Large} (hl : l ∈ v.larges) :
    m.loadLarge l.node = .ok (m.cells.large l.node) := by
  rw [Memory.loadLarge, if_pos (hm.holds_record hv hl)]

theorem setBlock {before after : List Block} {b b' : Block}
    (hblocks : v.blocks = before ++ b :: after) (hnode : b'.node = b.node) :
    m.storeSmall b.node (b'.content (headAddr Block.node after)) =
      .ok { m with cells := m.cells.setSmall b.node (b'.content (headAddr Block.node after)) } ∧
    Represents { m with cells := m.cells.setSmall b.node (b'.content (headAddr Block.node after)) }
      { v with blocks := before ++ b' :: after } := by
  have hb : b ∈ v.blocks := by simp [hblocks]
  have hchanges := @changesIn_setSmall m.cells b.node
    (b'.content (headAddr Block.node after))
  refine ⟨by rw [Memory.storeSmall, if_pos (hm.holds_header hv hb)], ?_⟩
  constructor
  · exact hm.regions_eq
  · rw [hchanges.pool (hv.header_apart_pool hb), hm.pool_eq]
    apply PoolView.pool_congr
    · simp [hblocks, hnode]
    · rfl
    · rfl
  · have hlinked := hm.blocks_linked
    rw [hblocks] at hlinked
    refine hlinked.set hnode ?_ ?_
    · rw [hnode, small_setSmall]
    · intro other hother
      have hpages := hv.pages_apart
      rw [PoolView.pages, hblocks] at hpages
      have hmem : other ∈ v.blocks := by
        rw [hblocks]
        exact List.perm_middle.mem_iff.mpr (List.mem_cons_of_mem _ hother)
      exact hchanges.small ((apart_others hpages other hother).mono
        (hv.blocks b hb).header_inside (hv.blocks other hmem).header_inside)
  · exact hm.larges_linked.congr fun l hl =>
      hchanges.large (hv.record_apart_header hb hl).symm

theorem setLarge {before after : List Large} {l l' : Large}
    (hlarges : v.larges = before ++ l :: after) (hnode : l'.node = l.node) :
    m.storeLarge l.node (l'.content (headAddr Large.node after)) =
      .ok { m with cells := m.cells.setLarge l.node (l'.content (headAddr Large.node after)) } ∧
    Represents { m with cells := m.cells.setLarge l.node (l'.content (headAddr Large.node after)) }
      { v with larges := before ++ l' :: after } := by
  have hl : l ∈ v.larges := by simp [hlarges]
  have hchanges := @changesIn_setLarge m.cells l.node
    (l'.content (headAddr Large.node after))
  refine ⟨by rw [Memory.storeLarge, if_pos (hm.holds_record hv hl)], ?_⟩
  constructor
  · exact hm.regions_eq
  · rw [hchanges.pool (hv.record_apart_pool hl), hm.pool_eq]
    apply PoolView.pool_congr
    · rfl
    · simp [hlarges, hnode]
    · rfl
  · exact hm.blocks_linked.congr fun b hb => hchanges.small (hv.record_apart_header hb hl)
  · have hlinked := hm.larges_linked
    rw [hlarges] at hlinked
    refine hlinked.set hnode ?_ ?_
    · rw [hnode, large_setLarge]
    · intro other hother
      have hrecords := hv.records_apart
      rw [PoolView.records, hlarges] at hrecords
      exact hchanges.large (apart_others hrecords other hother)

/-- The fields of the pool, for lists that change only in where they begin. -/
theorem setPool {v' : PoolView} (hpool_ : v'.pool_ = v.pool_) (hregions : v'.regions = v.regions)
    (hblocks : v'.blocks = v.blocks)
    (hlarges : Linked Large.node Large.content (m.cells.setPool v.pool_ v'.pool).large v'.larges) :
    m.storePool v.pool_ v'.pool = .ok { m with cells := m.cells.setPool v.pool_ v'.pool } ∧
    Represents { m with cells := m.cells.setPool v.pool_ v'.pool } v' := by
  have hchanges := @changesIn_setPool m.cells v.pool_ v'.pool
  refine ⟨by rw [Memory.storePool, if_pos (hm.holds_pool hv)], ?_⟩
  constructor
  · exact hm.regions_eq.trans hregions.symm
  · rw [hpool_, pool_setPool]
  · rw [hblocks]
    exact hm.blocks_linked.congr fun b hb => hchanges.small (hv.header_apart_pool hb).symm
  · exact hlarges

/-! ## Small ranges -/

omit hv in
theorem active_linked : Linked Block.node Block.content m.cells.small v.active := by
  have hlinked := hm.blocks_linked
  rw [← v.passed_append_active] at hlinked
  exact hlinked.tail

theorem find_active {fuel size : ℕ} (hfuel : v.blocks.length < fuel) :
    findNode m.loadSmall SmallNode.next_ (fun _ node => MemoryPool.hasRoom size node)
        (fun _ => false) .diverges fuel 0 v.pool.current_ =
      .ok (found Block.node Block.content (v.active.length + 1) v.active
        (cut (Block.fits size) (v.active.length + 1) v.active)) := by
  have hlength := v.length_active
  apply findNode_linked
  · exact fun _ _ => rfl
  · exact fun _ _ => rfl
  · intro b hb
    have hmem : b ∈ v.blocks := List.mem_of_mem_drop hb
    exact ⟨hv.node_ne_zero hmem, hm.loadSmall hv hmem⟩
  · exact hm.active_linked
  · omega
  · exact fun _ _ _ => rfl
  · intro hlt
    exact absurd hlt (lt_irrefl _)

/-- The loop of `mallocSmallNode` over the blocks from some block on. -/
theorem skipFailed {before rest : List Block} (hblocks : v.blocks = before ++ rest)
    (hne : rest ≠ []) {fuel : ℕ} (hfuel : rest.length ≤ fuel) (current : ℕ) :
    ∃ m', MemoryPool.skipFailed fuel m current (headAddr Block.node rest) =
        .ok (if jump rest = 0 then current else headAddr Block.node (rest.drop (jump rest)),
          (rest.getLast hne).node, m', rest.map Block.node) ∧
      Represents m' { v with blocks := before ++ failAll rest } ∧
      ∀ a, (∀ b ∈ rest, Apart b.header (a, 32)) → m'.cells.small a = m.cells.small a := by
  induction rest generalizing m v before fuel current with
  | nil => exact absurd rfl hne
  | cons b rest ih =>
      obtain ⟨fuel, rfl⟩ := Nat.exists_eq_succ_of_ne_zero (Nat.ne_of_gt (Nat.zero_lt_of_lt hfuel))
      have hb : b ∈ v.blocks := by simp [hblocks]
      have hload := hm.loadBlock hv hblocks
      cases rest with
      | nil =>
          refine ⟨m, ?_, ?_, fun _ _ => rfl⟩
          · simp [MemoryPool.skipFailed, headAddr, hload, Block.content, jump, bind, Except.bind,
              pure, Except.pure]
          · rw [failAll, ← hblocks]
            exact hm
      | cons b' rest =>
          have hnext : b'.node ≠ 0 := hv.node_ne_zero (by simp [hblocks])
          obtain ⟨hstore, hm'⟩ := hm.setBlock hv hblocks (show b.fail.node = b.node from rfl)
          have hv' : PoolView.Sound { v with blocks := before ++ b.fail :: b' :: rest } live := by
            apply hv.setBlock hblocks (show b.fail.base = b.base from rfl) (hv.blocks b hb).fail
            have haccount := hv.account
            rw [PoolView.granted, hblocks] at haccount
            simpa [Block.fail] using haccount
          have hblocks' : before ++ b.fail :: b' :: rest =
              (before ++ [b.fail]) ++ b' :: rest := by simp
          obtain ⟨m'', hloop, hm'', hsame⟩ := ih hm' hv' hblocks' (by simp)
            (Nat.le_of_succ_le_succ hfuel) (if 5 ≤ b.failed_ then b'.node else current)
          refine ⟨m'', ?_, ?_, ?_⟩
          · refine bind_eq_ok.mpr ⟨_, hload, ?_⟩
            rw [if_pos (show (b.content (headAddr Block.node (b' :: rest))).next_ ≠ 0 from hnext)]
            refine bind_eq_ok.mpr ⟨_, hstore, ?_⟩
            refine bind_eq_ok.mpr ⟨_, hloop, ?_⟩
            rw [currentAfter_cons]
            rfl
          · rw [failAll_cons]
            simpa using hm''
          · intro a ha
            have hsplit := List.forall_mem_cons.mp ha
            rw [hsame a hsplit.2]
            exact (@changesIn_setSmall m.cells b.node _).small hsplit.1

omit hm in
theorem clear_of_page {r : Range} (hspare : ∀ s ∈ v.regions, Apart s r) : v.Clear r := by
  have hpage : ∀ b ∈ v.blocks, Apart r b.page :=
    fun b hb => (hspare b.page (hv.page_mem hb).1).symm
  constructor
  · obtain ⟨b, hb, hinside⟩ := hv.pool_held
    exact (hpage b hb).mono (WithinRange.refl r) hinside
  · exact fun b hb => (hpage b hb).mono (WithinRange.refl r) (hv.blocks b hb).header_inside
  · intro l hl
    obtain ⟨b, hb, hinside⟩ := hv.record_held hl
    exact (hpage b hb).mono (WithinRange.refl r) hinside

theorem addRegion {r : Range} {cells : Cells} (hspare : ∀ s ∈ v.regions, Apart s r)
    (hchanges : ChangesIn r m.cells cells) :
    Represents { cells, regions := r :: m.regions } { v with regions := r :: v.regions } := by
  have hframe := hm.frame (clear_of_page hv hspare) hchanges
  exact ⟨by rw [hm.regions_eq], hframe.pool_eq, hframe.blocks_linked, hframe.larges_linked⟩

/-- A block at the end of the list, once its header is written. -/
theorem link {new : Block} {skipped current : ℕ} (hne : v.blocks ≠ [])
    (hnew : m.cells.small new.node = new.content 0)
    (hheader : ∀ b ∈ v.blocks, Apart b.header new.header)
    (hpool : Apart (v.pool_, 24) new.header)
    (hcurrent : current = headAddr Block.node ((v.blocks ++ [new]).drop skipped)) :
    ∃ m', (do
        let node ← m.loadSmall (v.blocks.getLast hne).node
        let m ← m.storeSmall (v.blocks.getLast hne).node { node with next_ := new.node }
        m.storePool v.pool_ { v.pool with current_ := current }) = .ok m' ∧
      Represents m' { v with blocks := v.blocks ++ [new], skipped } := by
  obtain ⟨last, hlast⟩ : ∃ last, last = v.blocks.getLast hne := ⟨_, rfl⟩
  obtain ⟨front, hfront⟩ : ∃ front, v.blocks = front ++ [last] :=
    ⟨_, hlast ▸ (List.dropLast_append_getLast hne).symm⟩
  rw [← hlast]
  have hmem : last ∈ v.blocks := by simp [hfront]
  have hlinked := hm.blocks_linked
  rw [hfront] at hlinked
  have hload := hm.loadBlock hv hfront
  have hsmall := @changesIn_setSmall m.cells last.node (last.content new.node)
  have hpool' := @changesIn_setPool (m.cells.setSmall last.node (last.content new.node))
    v.pool_ { v.pool with current_ := current }
  have hstore : m.storeSmall last.node (last.content new.node) =
      .ok { m with cells := m.cells.setSmall last.node (last.content new.node) } := by
    rw [Memory.storeSmall, if_pos (hm.holds_header hv hmem)]
  have hstorePool : Memory.storePool
      { m with cells := m.cells.setSmall last.node (last.content new.node) } v.pool_
      { v.pool with current_ := current } =
      .ok { m with
        cells := (m.cells.setSmall last.node (last.content new.node)).setPool v.pool_
          { v.pool with current_ := current } } := by
    rw [Memory.storePool, if_pos (hm.holds_pool hv)]
  refine ⟨_, bind_eq_ok.mpr ⟨_, hload, bind_eq_ok.mpr ⟨_, hstore, hstorePool⟩⟩, ?_⟩
  constructor
  · exact hm.regions_eq
  · rw [pool_setPool, hcurrent]
    simp only [PoolView.pool, PoolView.active, hfront]
    congr 1
    cases front <;> rfl
  · change Linked _ _ _ (v.blocks ++ [new])
    rw [hfront, List.append_assoc]
    apply hlinked.snoc
    · rw [hpool'.small (hv.header_apart_pool hmem).symm, small_setSmall]
    · rw [hpool'.small hpool, hsmall.small (hheader last hmem), hnew]
    · intro other hother
      have hin : other ∈ v.blocks := by simp [hfront, hother]
      have hpages := hv.pages_apart
      rw [PoolView.pages, hfront] at hpages
      have hapart := apart_others hpages other (by simpa using hother)
      rw [hpool'.small (hv.header_apart_pool hin).symm]
      exact hsmall.small (hapart.mono (hv.blocks last hmem).header_inside
        (hv.blocks other hin).header_inside)
  · refine hm.larges_linked.congr ?_
    intro l hl
    rw [hpool'.large (hv.record_apart_pool hl).symm]
    exact hsmall.large (hv.record_apart_header hmem hl).symm

omit hm in
/-- Where `current_` stands after a round. -/
theorem current_after (new : Block) :
    (if jump v.active = 0 then headAddr Block.node v.active
      else headAddr Block.node (v.active.drop (jump v.active))) =
    headAddr Block.node ((v.failRound.blocks ++ [new]).drop (v.skipped + jump v.active)) := by
  have hjump := jump_lt hv.active_ne_nil
  have hpassed : v.passed.length = v.skipped :=
    List.length_take_of_le (Nat.le_of_lt hv.skipped_lt)
  have hlength : (failAll v.active).length = v.active.length := by
    rw [← List.length_map (f := Block.node), failAll_map_node, List.length_map]
  have hdrop : (v.failRound.blocks ++ [new]).drop (v.skipped + jump v.active) =
      (failAll v.active).drop (jump v.active) ++ [new] := by
    rw [PoolView.failRound, List.append_assoc, ← List.drop_drop, ← hpassed, List.drop_left,
      List.drop_append_of_le_length (by omega)]
  have hmap : ((failAll v.active).drop (jump v.active)).map Block.node =
      (v.active.drop (jump v.active)).map Block.node := by
    rw [List.map_drop, failAll_map_node, List.map_drop]
  have hne : (failAll v.active).drop (jump v.active) ≠ [] := by
    intro hnil
    have hzero := congrArg List.length hnil
    rw [List.length_drop, List.length_nil] at hzero
    omega
  rw [hdrop, headAddr_append_of_ne_nil hne, headAddr_congr hmap]
  split_ifs with hstay
  · rw [hstay, List.drop_zero]
  · rfl

omit hm hv in
/-- The header of a new page, where `quote_` was zero. -/
theorem newHeader (fresh : Fresh) (size : ℕ) (hquote : fresh.contents (fresh.base + 16) = 0) :
    ∃ node cells,
      Memory.loadSmall
        { cells := m.cells.fill (fresh.base, PAGE_SIZE) fresh.contents
          regions := (fresh.base, PAGE_SIZE) :: m.regions } fresh.base = .ok node ∧
      Memory.storeSmall
        { cells := m.cells.fill (fresh.base, PAGE_SIZE) fresh.contents
          regions := (fresh.base, PAGE_SIZE) :: m.regions } fresh.base
        { node with
          end_ := fresh.base + PAGE_SIZE
          next_ := 0
          last_ := mp_align_ptr (fresh.base + 32) + size
          quote_ := incUInt node.quote_ } =
        .ok { cells, regions := (fresh.base, PAGE_SIZE) :: m.regions } ∧
      ChangesIn (fresh.base, PAGE_SIZE) m.cells cells ∧
      cells.small fresh.base = (fresh.page.block size).content 0 := by
  have hheader : WithinRange (fresh.base, 32) (fresh.base, PAGE_SIZE) :=
    ⟨le_refl _, by simp [PAGE_SIZE]⟩
  have hheld : Holds ((fresh.base, PAGE_SIZE) :: m.regions) (fresh.base, 32) :=
    ⟨_, List.mem_cons_self, hheader⟩
  have hfill : ∀ i, i < PAGE_SIZE →
      m.cells.fill (fresh.base, PAGE_SIZE) fresh.contents (fresh.base + i) =
        fresh.contents (fresh.base + i) := by
    intro i hi
    simp only [Cells.fill]
    rw [if_pos (by omega)]
  refine ⟨_, _, if_pos hheld, if_pos hheld, ?_, ?_⟩
  · exact (changesIn_fill fresh.contents).trans ((changesIn_setSmall _).mono hheader)
  · rw [small_setSmall]
    simp only [Cells.small, hfill 16 (by simp [PAGE_SIZE]), hfill 20 (by simp [PAGE_SIZE]), hquote]
    rfl

omit hm in
theorem failRound_ne_nil : v.passed ++ failAll v.active ≠ [] :=
  List.append_ne_nil_of_right_ne_nil _ (failAll_ne_nil hv.active_ne_nil)

omit hm in
theorem failRound_getLast (hne : v.passed ++ failAll v.active ≠ []) :
    ((v.passed ++ failAll v.active).getLast hne).node =
      (v.active.getLast hv.active_ne_nil).node := by
  rw [List.getLast_append_of_ne_nil _ (failAll_ne_nil hv.active_ne_nil)]
  exact failAll_getLast hv.active_ne_nil

omit hm hv in
theorem failRound_pool (regions : List Range) :
    PoolView.pool { v with blocks := v.passed ++ failAll v.active, regions } = v.pool := by
  apply PoolView.pool_congr
  · rw [List.map_append, failAll_map_node, ← List.map_append, v.passed_append_active]
  · rfl
  · rfl

omit hm in
theorem failRound_header_apart {r : Range} (hspare : ∀ s ∈ v.regions, Apart s r) {b : Block}
    (hb : b ∈ v.passed ++ failAll v.active) : Apart b.header r := by
  have howned : b.page ∈ v.owned := by
    rw [← v.failRound_owned]
    exact List.mem_append_left _ (List.mem_map_of_mem hb)
  exact (hspare b.page (hv.owned b.page howned).1).mono
    (hv.failRound.blocks b hb).header_inside (WithinRange.refl r)

theorem mallocSmallNode {fuel size : ℕ} {answer : Option Fresh}
    (hfuel : v.blocks.length < fuel)
    (hcontents : ∀ fresh ∈ answer, fresh.contents (fresh.base + 16) = 0) :
    Refines (v.mallocSmallNode size (answer.map Fresh.page))
      (MemoryPool.mallocSmallNode fuel m v.pool_ size answer) := by
  cases answer with
  | none => exact ⟨m, rfl, hm⟩
  | some fresh =>
      have hregions := hm.regions_eq
      by_cases hallows : Allows v.regions fresh.base PAGE_SIZE
      case neg =>
        simp only [PoolView.mallocSmallNode, Option.map_some, Fresh.page, if_neg hallows, Refines]
        rw [MemoryPool.mallocSmallNode, Memory.posix_memalign, hregions, if_neg hallows]
        rfl
      simp only [PoolView.mallocSmallNode, Option.map_some, Fresh.page, if_pos hallows, Refines]
      have hspare : ∀ s ∈ v.regions, Apart s (fresh.base, PAGE_SIZE) :=
        fun s hs => hallows.apart hs
      have hclear := clear_of_page hv hspare
      have hheader : WithinRange (fresh.base, 32) (fresh.base, PAGE_SIZE) :=
        ⟨le_refl _, by simp [PAGE_SIZE]⟩
      obtain ⟨node, cells, hload, hstore, hchanges, hsmall⟩ :=
        @newHeader m fresh size (hcontents fresh rfl)
      have hm1 := hm.addRegion hv hspare hchanges
      have hv1 := hv.addRegion hallows
      have hfuel' : v.active.length ≤ fuel := by
        rw [v.length_active]
        omega
      -- the round over the blocks
      obtain ⟨m2, hloop, hm2, hsame⟩ := hm1.skipFailed hv1 v.passed_append_active.symm
        hv.active_ne_nil hfuel' v.pool.current_
      have hskipped : v.skipped < v.failRound.blocks.length := by
        rw [v.failRound_length]
        exact hv.skipped_lt
      have hv2 := hv1.failRound.setSkipped hskipped
      have hne := failRound_ne_nil hv
      have hapart : ∀ b ∈ v.passed ++ failAll v.active,
          Apart b.header (fresh.page.block size).header :=
        fun b hb => (failRound_header_apart hv hspare hb).mono (WithinRange.refl _) hheader
      have hold : m2.cells.small fresh.base = (fresh.page.block size).content 0 := by
        rw [hsame]
        · exact hsmall
        · intro b hb
          exact (hclear.blocks b (List.mem_of_mem_drop hb)).symm.mono (WithinRange.refl _) hheader
      -- the new page comes behind the last block
      obtain ⟨m3, hlink, hm3⟩ := hm2.link hv2 hne hold hapart
        (hclear.pool.symm.mono (WithinRange.refl _) hheader) (current_after hv _)
      obtain ⟨last, hload', hrest⟩ := bind_eq_ok.mp hlink
      obtain ⟨m4, hstore', hstorePool⟩ := bind_eq_ok.mp hrest
      rw [@failRound_pool v ((fresh.base, PAGE_SIZE) :: v.regions)] at hstorePool
      refine ⟨m3, ?_, hm3⟩
      refine bind_eq_ok.mpr ⟨_, if_pos (hregions ▸ hallows), ?_⟩
      refine bind_eq_ok.mpr ⟨_, hload, ?_⟩
      refine bind_eq_ok.mpr ⟨_, hstore, ?_⟩
      refine bind_eq_ok.mpr ⟨_, hm1.loadPool hv1, ?_⟩
      refine bind_eq_ok.mpr ⟨_, hloop, ?_⟩
      rw [failRound_getLast hv] at hload' hstore'
      refine bind_eq_ok.mpr ⟨_, hload', ?_⟩
      refine bind_eq_ok.mpr ⟨_, hstore', ?_⟩
      exact bind_eq_ok.mpr ⟨_, hstorePool, rfl⟩

theorem mallocSmall {fuel size : ℕ} {answer : Option Fresh}
    (hfuel : v.blocks.length < fuel)
    (hcontents : ∀ fresh ∈ answer, fresh.contents (fresh.base + 16) = 0) :
    Refines (v.mallocSmall size (answer.map Fresh.page))
      (MemoryPool.mallocSmall fuel m v.pool_ size answer) := by
  have hload := hm.loadPool hv
  have hfind := @find_active m v live hm hv fuel size hfuel
  unfold PoolView.mallocSmall
  split
  · rename_i before b after hcut
    obtain ⟨hactive, _, _⟩ := cut_eq_some hcut
    have hblocks : v.blocks = v.passed ++ before ++ b :: after := by
      rw [List.append_assoc, ← hactive, v.passed_append_active]
    have hb : b ∈ v.blocks := by simp [hblocks]
    rw [hcut] at hfind
    obtain ⟨hstore, hm'⟩ := hm.setBlock hv hblocks (show (b.take size).node = b.node from rfl)
    have hcount := (hv.blocks b hb).length_lt
    have hquote : incUInt b.grants.length = (b.take size).grants.length := by
      rw [incUInt, Nat.mod_eq_of_lt (by omega)]
      rfl
    refine ⟨_, ?_, hm'⟩
    refine bind_eq_ok.mpr ⟨_, hload, ?_⟩
    refine bind_eq_ok.mpr ⟨_, hfind, ?_⟩
    refine bind_eq_ok.mpr ⟨_, ?_, rfl⟩
    change m.storeSmall b.node ⟨b.base + PAGE_SIZE, mp_align_ptr b.last_ + size,
      incUInt b.grants.length, b.failed_, headAddr Block.node after⟩ = _
    rw [hquote]
    exact hstore
  · rename_i hcut
    rw [hcut] at hfind
    have hnode := @mallocSmallNode m v live hm hv fuel size answer hfuel hcontents
    have hvisited : (v.active.take (v.active.length + 1)).map Block.node =
        v.active.map Block.node := by
      rw [List.take_of_length_le (Nat.le_succ _)]
    have hcode : MemoryPool.mallocSmall fuel m v.pool_ size answer =
        MemoryPool.mallocSmallNode fuel m v.pool_ size answer >>= fun r =>
          .ok (r.1, r.2.1, v.active.map Block.node ++ r.2.2) := by
      rw [MemoryPool.mallocSmall, hload]
      simp only [bind, Except.bind, hfind, found, hvisited]
      rfl
    rw [hcode]
    refine hnode.bind ?_
    intro p v' m' visited _ hm'
    exact ⟨m', rfl, hm'⟩

/-! ## Large ranges -/

omit hm in
theorem clear_of_live {r : Range} (hr : r ∈ live) : v.Clear r := by
  have hgranted := hv.account.mem_iff.mp (List.mem_append_left v.records hr)
  constructor
  · exact hv.grant_apart_pool hgranted
  · exact fun b hb => hv.grant_apart_header hb hgranted
  · intro l hl
    exact (List.pairwise_append.mp hv.live_apart).2.2 r hr _ (List.mem_map_of_mem hl)

theorem holds_live {r : Range} (hr : r ∈ live) : Holds m.regions r := by
  rw [hm.regions_eq]
  exact hv.granted_held (hv.account.mem_iff.mp (List.mem_append_left v.records hr))

theorem find_larges {fuel limit : ℕ} {test : LargeNode → Bool} {passes : Large → Bool}
    {giveUp : ℕ → Bool} (htest : ∀ l n, test (l.content n) = passes l)
    (hfuel : v.larges.length < fuel) (hgo : ∀ j, j < limit → giveUp j = false)
    (hstop : limit < v.larges.length → giveUp limit = true) :
    findNode m.loadLarge LargeNode.next_ (fun _ node => test node) giveUp .diverges fuel 0
        v.pool.largeList_ =
      .ok (found Large.node Large.content (limit + 1) v.larges
        (cut passes (limit + 1) v.larges)) := by
  apply findNode_linked
  · exact fun _ _ => rfl
  · exact htest
  · exact fun l hl => ⟨hv.record_ne_zero hl, hm.loadLarge hv hl⟩
  · exact hm.larges_linked
  · exact hfuel
  · intro j _ hj
    exact hgo j (by omega)
  · rwa [Nat.zero_add]

/-- A new large record comes to the front of the list. -/
theorem pushLarge {node : ℕ} {r : Range} {live' : List Range}
    (hlive : live = (node, 24) :: live') :
    ∃ m', (do
        let pool ← m.loadPool v.pool_
        let m ← m.storeLarge node ⟨r.1, r.2 % 2 ^ 32, pool.largeList_⟩
        m.storePool v.pool_ { pool with largeList_ := node }) = .ok m' ∧
      Represents m' { v with larges := ⟨node, some r⟩ :: v.larges } := by
  have hmem : (node, 24) ∈ live := by simp [hlive]
  have hclear := clear_of_live hv hmem
  obtain ⟨content, hcontent⟩ : ∃ content, content =
      Large.content ⟨node, some r⟩ (headAddr Large.node v.larges) := ⟨_, rfl⟩
  have hchanges := @changesIn_setLarge m.cells node content
  have hm1 := hm.frame hclear hchanges
  have hstore : m.storeLarge node content = .ok { m with cells := m.cells.setLarge node content } :=
    if_pos (hm.holds_live hv hmem)
  have hpool := @changesIn_setPool (m.cells.setLarge node content) v.pool_
    (PoolView.pool { v with larges := ⟨node, some r⟩ :: v.larges })
  have hset := @setPool _ v live hm1 hv { v with larges := ⟨node, some r⟩ :: v.larges } rfl rfl rfl
    (by
      refine ⟨?_, ?_⟩
      · rw [hpool.large hclear.pool.symm, large_setLarge, hcontent]
      · refine hm1.larges_linked.congr fun l hl => ?_
        exact hpool.large (hv.record_apart_pool hl).symm)
  rw [hcontent] at hstore hset
  exact ⟨_, bind_eq_ok.mpr ⟨_, hm.loadPool hv, bind_eq_ok.mpr ⟨_, hstore, hset.1⟩⟩, hset.2⟩

omit hv in
theorem setRegions (regions : List Range) :
    Represents { m with regions } { v with regions } :=
  ⟨rfl, hm.pool_eq, hm.blocks_linked, hm.larges_linked⟩

/-- What `mallocLargeNode` does with the range for a new record. -/
theorem finishLarge {pool_ node : ℕ} {r : Range} {visited : List ℕ} {live' : List Range}
    (hpool_ : v.pool_ = pool_) (hlive : node ≠ 0 → live = (node, 24) :: live')
    (hr : r ∈ v.regions) :
    Refines
      (if node = 0 then
        .ok (0, { v with regions := v.regions.filter fun s => s.1 ≠ r.1 }, visited)
      else .ok (r.1, { v with larges := ⟨node, some r⟩ :: v.larges }, visited))
      (if node = 0 then do
        let m ← m.free r.1
        return (0, m, visited)
      else do
        let pool ← m.loadPool pool_
        let m ← m.storeLarge node ⟨r.1, r.2 % 2 ^ 32, pool.largeList_⟩
        let m ← m.storePool pool_ { pool with largeList_ := node }
        return (r.1, m, visited)) := by
  subst hpool_
  by_cases hzero : node = 0
  · have hmem : ∃ region ∈ m.regions, region.1 = r.1 := by
      rw [hm.regions_eq]
      exact ⟨r, hr, rfl⟩
    rw [if_pos hzero, if_pos hzero]
    simp only [bind, Except.bind, pure, Except.pure, Memory.free, if_pos hmem]
    refine ⟨_, rfl, ?_⟩
    rw [hm.regions_eq]
    exact hm.setRegions _
  · obtain ⟨m', hpush, hm'⟩ := @pushLarge m v live hm hv node r live' (hlive hzero)
    obtain ⟨pool, hpool, hrest⟩ := bind_eq_ok.mp hpush
    obtain ⟨m'', hstore, hstorePool⟩ := bind_eq_ok.mp hrest
    rw [if_neg hzero, if_neg hzero]
    refine ⟨m', ?_, hm'⟩
    refine bind_eq_ok.mpr ⟨pool, hpool, ?_⟩
    refine bind_eq_ok.mpr ⟨m'', hstore, ?_⟩
    exact bind_eq_ok.mpr ⟨m', hstorePool, rfl⟩

theorem mallocLargeNode {fuel size : ℕ} {answer answer' : Option Fresh}
    (hblocks : v.blocks.length < fuel) (hlarges : v.larges.length < fuel)
    (hcontents : ∀ fresh ∈ answer', fresh.contents (fresh.base + 16) = 0) :
    Refines (v.mallocLargeNode size (answer.map Fresh.base) (answer'.map Fresh.page))
      (MemoryPool.mallocLargeNode fuel m v.pool_ size answer answer') := by
  cases answer with
  | none => exact ⟨m, rfl, hm⟩
  | some fresh =>
      have hregions := hm.regions_eq
      unfold PoolView.mallocLargeNode
      by_cases hallows : Allows v.regions fresh.base size
      case neg =>
        simp only [Option.map_some, if_neg hallows, Refines]
        rw [MemoryPool.mallocLargeNode, Memory.posix_memalign, hregions, if_neg hallows]
        rfl
      simp only [Option.map_some, if_pos hallows]
      have hm1 := hm.addRegion hv (fun s hs => hallows.apart hs)
        (changesIn_fill fresh.contents)
      have hv1 := hv.addRegion hallows
      have hposix : m.posix_memalign size (some fresh) = .ok (some fresh.base,
          { cells := m.cells.fill (fresh.base, size) fresh.contents
            regions := (fresh.base, size) :: m.regions }) := if_pos (hregions ▸ hallows)
      have hload := hm1.loadPool hv1
      have hfind := @find_larges _ _ live hm1 hv1 fuel 4 (fun node => node.address_ = 0)
        (fun l => l.address_ = 0) (fun count => 3 < count) (fun _ _ => rfl) hlarges
        (by intro j hj; simp; omega) (by simp)
      split
      · rename_i before l after hcut
        rw [hcut] at hfind
        obtain ⟨hsplit, _, _⟩ := cut_eq_some hcut
        obtain ⟨hstore, hm2⟩ := hm1.setLarge hv1 hsplit
          (show (Large.mk l.node (some (fresh.base, size))).node = l.node from rfl)
        refine ⟨_, ?_, hm2⟩
        refine bind_eq_ok.mpr ⟨_, hposix, ?_⟩
        refine bind_eq_ok.mpr ⟨_, hload, ?_⟩
        refine bind_eq_ok.mpr ⟨_, hfind, ?_⟩
        exact bind_eq_ok.mpr ⟨_, hstore, rfl⟩
      · rename_i hcut
        rw [hcut] at hfind
        have hnode := @mallocSmall _ _ live hm1 hv1 fuel 24 answer' hblocks hcontents
        have hcode : MemoryPool.mallocLargeNode fuel m v.pool_ size (some fresh) answer' =
            (MemoryPool.mallocSmall fuel
              { cells := m.cells.fill (fresh.base, size) fresh.contents
                regions := (fresh.base, size) :: m.regions } v.pool_ 24 answer' >>= fun r =>
            if r.1 = 0 then do
              let m ← r.2.1.free fresh.base
              return (0, m, (v.larges.take 5).map Large.node ++ r.2.2)
            else do
              let pool ← r.2.1.loadPool v.pool_
              let m ← r.2.1.storeLarge r.1 ⟨fresh.base, size % 2 ^ 32, pool.largeList_⟩
              let m ← m.storePool v.pool_ { pool with largeList_ := r.1 }
              return (fresh.base, m, (v.larges.take 5).map Large.node ++ r.2.2)) := by
          rw [MemoryPool.mallocLargeNode, hposix]
          simp only [bind, Except.bind] at hload hfind ⊢
          rw [hload]
          simp only [hfind]
          rfl
        rw [hcode]
        refine hnode.bind ?_
        intro node v2 m2 visited hspec hm2
        obtain ⟨hv2, hextends⟩ := hv1.mallocSmall (Nat.zero_lt_succ _) (by decide) hspec
        exact hm2.finishLarge hv2 hextends.pool_eq (fun hne => if_neg hne)
          (hextends.regions (fresh.base, size) List.mem_cons_self)

theorem malloc {fuel size : ℕ} {answer answer' : Option Fresh}
    (hblocks : v.blocks.length < fuel) (hlarges : v.larges.length < fuel)
    (hcontents : ∀ fresh ∈ pageAnswer size answer answer',
      fresh.contents (fresh.base + 16) = 0) :
    Refines (v.malloc size answer answer')
      (MemoryPool.malloc fuel m v.pool_ size answer answer') := by
  unfold PoolView.malloc MemoryPool.malloc
  unfold pageAnswer at hcontents
  split_ifs with hzero hlarge
  · exact ⟨m, rfl, hm⟩
  · rw [if_pos hlarge] at hcontents
    exact hm.mallocLargeNode hv hblocks hlarges hcontents
  · rw [if_neg hlarge] at hcontents
    exact hm.mallocSmall hv hblocks hcontents

end Represents

end MyFileServer
