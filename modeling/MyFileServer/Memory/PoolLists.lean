import MyFileServer.Memory.MemoryPool

/-!
# The pool as lists

The records of the pool as the lists that they link.  A block carries the
ranges that were cut out of it instead of a count of them, and a large record
the region that it manages.  The operations here do on these lists what
`MemoryPool` does in memory.  Of the contents of a new page they see
`failed_` only, because nothing writes it.
-/

namespace MyFileServer

open LinkedList

structure Block where
  base : ℕ
  node : ℕ
  last_ : ℕ
  failed_ : ℕ
  grants : List Range
  deriving DecidableEq

structure Large where
  node : ℕ
  region : Option Range
  deriving DecidableEq

/-- A new page, with what it holds in the place of `failed_`. -/
structure NewPage where
  base : ℕ
  failed_ : ℕ

def Fresh.page (fresh : Fresh) : NewPage :=
  ⟨fresh.base, fresh.contents (fresh.base + 20)⟩

namespace Block

def content (b : Block) (next : ℕ) : SmallNode :=
  ⟨b.base + PAGE_SIZE, b.last_, b.grants.length, b.failed_, next⟩

theorem next_content (b : Block) (next : ℕ) : (b.content next).next_ = next := rfl

def page (b : Block) : Range := (b.base, PAGE_SIZE)

def header (b : Block) : Range := (b.node, 32)

def fits (size : ℕ) (b : Block) : Bool := MemoryPool.hasRoom size (b.content 0)

def around (p : ℕ) (b : Block) : Bool := MemoryPool.spans p b.node (b.content 0)

theorem around_iff (p : ℕ) (b : Block) :
    b.around p = true ↔ b.node ≤ p ∧ p ≤ b.base + PAGE_SIZE := by
  rw [around, MemoryPool.spans, decide_eq_true_iff]
  rfl

def take (size : ℕ) (b : Block) : Block :=
  { b with
    last_ := mp_align_ptr b.last_ + size
    grants := (mp_align_ptr b.last_, size) :: b.grants }

def fail (b : Block) : Block := { b with failed_ := incUInt b.failed_ }

def reset (b : Block) : Block := { b with last_ := b.node + 32, failed_ := 0, grants := [] }

def drop (p : ℕ) (b : Block) : Block :=
  { b with grants := b.grants.filter fun range => range.1 ≠ p }

/-- The block after a free, with the note whether it was reset. -/
def release (p : ℕ) (b : Block) : Block × Bool :=
  if (b.drop p).grants = [] then ((b.drop p).reset, true) else (b.drop p, false)

end Block

namespace Large

def address_ (l : Large) : ℕ := (l.region.map Prod.fst).getD 0

def size_ (l : Large) : ℕ := (l.region.map Prod.snd).getD 0 % 2 ^ 32

def content (l : Large) (next : ℕ) : LargeNode := ⟨l.address_, l.size_, next⟩

theorem next_content (l : Large) (next : ℕ) : (l.content next).next_ = next := rfl

def header (l : Large) : Range := (l.node, 24)

theorem address_of_region {l : Large} {r : Range} (hregion : l.region = some r) :
    l.address_ = r.1 := by
  rw [address_, hregion]
  rfl

theorem exists_region {l : Large} (hne : l.address_ ≠ 0) :
    ∃ r, l.region = some r ∧ l.address_ = r.1 := by
  cases hregion : l.region with
  | none =>
      rw [address_, hregion] at hne
      exact absurd rfl hne
  | some r => exact ⟨r, rfl, address_of_region hregion⟩

end Large

def NewPage.block (page : NewPage) (size : ℕ) : Block :=
  let addr := mp_align_ptr (page.base + 32)
  ⟨page.base, page.base, addr + size, page.failed_, [(addr, size)]⟩

/-- The blocks that a full round over them marks as failed: all but the last. -/
def failAll : List Block → List Block
  | [] => []
  | [b] => [b]
  | b :: rest => b.fail :: failAll rest

theorem failAll_cons (b b' : Block) (rest : List Block) :
    failAll (b :: b' :: rest) = b.fail :: failAll (b' :: rest) := rfl

/-- How far `current_` moves in this round. -/
def jump : List Block → ℕ
  | [] => 0
  | [_] => 0
  | b :: rest =>
      if jump rest = 0 then if 5 ≤ b.failed_ then 1 else 0 else jump rest + 1

theorem jump_cons (b b' : Block) (rest : List Block) :
    jump (b :: b' :: rest) =
      if jump (b' :: rest) = 0 then if 5 ≤ b.failed_ then 1 else 0
      else jump (b' :: rest) + 1 := rfl

/-- `skipped` is the number of blocks in front of `current_`. -/
structure PoolView where
  pool_ : ℕ
  blocks : List Block
  skipped : ℕ
  larges : List Large
  regions : List Range

/-- The page that an allocation of `size` may take. -/
def pageAnswer (size : ℕ) (answer answer' : Option Fresh) : Option Fresh :=
  if PAGE_SIZE - 32 < size then answer' else answer

namespace PoolView

def passed (v : PoolView) : List Block := v.blocks.take v.skipped

def active (v : PoolView) : List Block := v.blocks.drop v.skipped

def pool (v : PoolView) : Pool :=
  ⟨headAddr Large.node v.larges, headAddr Block.node v.blocks, headAddr Block.node v.active⟩

def created (base : ℕ) (regions : List Range) : PoolView where
  pool_ := base
  blocks := [⟨base, base + 24, base + 56, 0, []⟩]
  skipped := 0
  larges := []
  regions := (base, PAGE_SIZE) :: regions

/-- The loop of `mallocSmallNode`, which starts at `current_`. -/
def failRound (v : PoolView) : PoolView :=
  { v with
    blocks := v.passed ++ failAll v.active
    skipped := v.skipped + jump v.active }

def mallocSmallNode (v : PoolView) (size : ℕ) :
    Option NewPage → MemExec (ℕ × PoolView × List ℕ)
  | none => .ok (0, v, [])
  | some page =>
      if Allows v.regions page.base PAGE_SIZE then
        .ok (mp_align_ptr (page.base + 32),
          { v.failRound with
            blocks := v.failRound.blocks ++ [page.block size]
            regions := (page.base, PAGE_SIZE) :: v.regions },
          v.active.map Block.node)
      else .error .notEnabled

def mallocSmall (v : PoolView) (size : ℕ) (page : Option NewPage) :
    MemExec (ℕ × PoolView × List ℕ) :=
  match cut (Block.fits size) (v.active.length + 1) v.active with
  | some (before, b, after) =>
      .ok (mp_align_ptr b.last_,
        { v with blocks := v.passed ++ before ++ b.take size :: after },
        (before ++ [b]).map Block.node)
  | none => do
      let (addr, v', visited) ← v.mallocSmallNode size page
      return (addr, v', v.active.map Block.node ++ visited)

def mallocLargeNode (v : PoolView) (size : ℕ) (region : Option ℕ) (page : Option NewPage) :
    MemExec (ℕ × PoolView × List ℕ) :=
  match region with
  | none => .ok (0, v, [])
  | some addr =>
      if Allows v.regions addr size then
        let v := { v with regions := (addr, size) :: v.regions }
        match cut (fun l : Large => l.address_ = 0) 5 v.larges with
        | some (before, l, after) =>
            .ok (addr,
              { v with larges := before ++ { l with region := some (addr, size) } :: after },
              (before ++ [l]).map Large.node)
        | none => do
            let (node, v', visited) ← v.mallocSmall 24 page
            let visited := (v.larges.take 5).map Large.node ++ visited
            if node = 0 then
              return (0, { v' with regions := v'.regions.filter fun r => r.1 ≠ addr }, visited)
            else
              return (addr, { v' with larges := ⟨node, some (addr, size)⟩ :: v'.larges }, visited)
      else .error .notEnabled

def malloc (v : PoolView) (size : ℕ) (answer answer' : Option Fresh) :
    MemExec (ℕ × PoolView × List ℕ) :=
  if size = 0 then .ok (0, v, [])
  else if PAGE_SIZE - 32 < size then
    v.mallocLargeNode size (answer.map Fresh.base) (answer'.map Fresh.page)
  else v.mallocSmall size (answer.map Fresh.page)

def freeMemory (v : PoolView) (p : ℕ) : PoolView × List ℕ × List ℕ :=
  match cut (fun l : Large => l.address_ = p) (v.larges.length + 1) v.larges with
  | some (before, l, after) =>
      ({ v with
          larges := before ++ { l with region := none } :: after
          regions := v.regions.filter fun r => r.1 ≠ p },
        (before ++ [l]).map Large.node, [])
  | none =>
      match cut (Block.around p) (v.blocks.length + 1) v.blocks with
      | some (before, b, after) =>
          ({ v with
              blocks := before ++ (b.release p).1 :: after
              skipped := if (b.release p).2 then 0 else v.skipped },
            v.larges.map Large.node ++ (before ++ [b]).map Block.node,
            if (b.release p).2 then [b.node] else [])
      | none =>
          (v, v.larges.map Large.node ++ v.blocks.map Block.node, [])

/-- The regions of the large records. -/
def bigs (v : PoolView) : List Range := v.larges.filterMap Large.region

/-- The regions without those of the large records. -/
def freed (regions : List Range) (larges : List Large) : List Range :=
  regions.filter fun r => r.1 ∉ (larges.filterMap Large.region).map Prod.fst

def resetPool (v : PoolView) : PoolView × List ℕ × List ℕ :=
  ({ v with
      blocks := v.blocks.map Block.reset
      skipped := 0
      larges := []
      regions := freed v.regions v.larges },
    v.larges.map Large.node ++ v.blocks.map Block.node, v.blocks.map Block.node)

end PoolView

end MyFileServer
