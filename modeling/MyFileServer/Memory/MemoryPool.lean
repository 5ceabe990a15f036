import MyFileServer.Base.Runtime
import MyFileServer.Lib.Execution
import MyFileServer.Lib.LinkedList

/-!
# The memory pool

`MemoryPool` cuts small allocations out of pages of its own and hands out
large ones from `posix_memalign`; its records lie in the same memory.  The
memory is a value for the address of each field, whatever it held before, and
the regions that the system has given and not got back.  Each loop has a fuel
argument and reports when it runs out.
-/

namespace MyFileServer

open LinkedList

/-- Why an operation has no result: the caller or the system does what their
contract rules out, memory outside the regions is used, `free` is given
something else than a region, or a loop does not end within its fuel. -/
inductive MemFault
  | notEnabled
  | badAccess
  | badFree
  | diverges
  deriving DecidableEq, Repr

abbrev MemExec := Except MemFault

structure SmallNode where
  end_ : ℕ
  last_ : ℕ
  quote_ : ℕ
  failed_ : ℕ
  next_ : ℕ
  deriving DecidableEq, Repr

structure LargeNode where
  address_ : ℕ
  size_ : ℕ
  next_ : ℕ
  deriving DecidableEq, Repr

structure Pool where
  largeList_ : ℕ
  head_ : ℕ
  current_ : ℕ
  deriving DecidableEq, Repr

/-! ## Fields in memory -/

abbrev Cells := ℕ → ℕ

/-- An address and a number of bytes. -/
abbrev Range := ℕ × ℕ

namespace Cells

def small (cells : Cells) (a : ℕ) : SmallNode :=
  ⟨cells a, cells (a + 8), cells (a + 16), cells (a + 20), cells (a + 24)⟩

def large (cells : Cells) (a : ℕ) : LargeNode :=
  ⟨cells a, cells (a + 8), cells (a + 16)⟩

def pool (cells : Cells) (a : ℕ) : Pool :=
  ⟨cells a, cells (a + 8), cells (a + 16)⟩

def setSmall (cells : Cells) (a : ℕ) (node : SmallNode) : Cells :=
  fun x =>
    if x = a then node.end_
    else if x = a + 8 then node.last_
    else if x = a + 16 then node.quote_
    else if x = a + 20 then node.failed_
    else if x = a + 24 then node.next_
    else cells x

def setLarge (cells : Cells) (a : ℕ) (node : LargeNode) : Cells :=
  fun x =>
    if x = a then node.address_
    else if x = a + 8 then node.size_
    else if x = a + 16 then node.next_
    else cells x

def setPool (cells : Cells) (a : ℕ) (pool : Pool) : Cells :=
  fun x =>
    if x = a then pool.largeList_
    else if x = a + 8 then pool.head_
    else if x = a + 16 then pool.current_
    else cells x

/-- The contents of a range replaced. -/
def fill (cells : Cells) (range : Range) (contents : Cells) : Cells :=
  fun x => if range.1 ≤ x ∧ x < range.1 + range.2 then contents x else cells x

end Cells

/-- One of the regions contains the range. -/
def Holds (regions : List Range) (range : Range) : Prop :=
  ∃ region ∈ regions, region.1 ≤ range.1 ∧ range.1 + range.2 ≤ region.1 + region.2

instance (regions : List Range) (range : Range) : Decidable (Holds regions range) := by
  unfold Holds
  infer_instance

def Apart (r s : Range) : Prop :=
  r.1 + r.2 ≤ s.1 ∨ s.1 + s.2 ≤ r.1

instance (r s : Range) : Decidable (Apart r s) := by
  unfold Apart
  infer_instance

/-- What `posix_memalign` promises of a region: it is aligned, lies in the
address space, and no region that is in use overlaps it. -/
def Allows (regions : List Range) (base size : ℕ) : Prop :=
  base ≠ 0 ∧ base % 16 = 0 ∧ base + size < 2 ^ 64 ∧
    ∀ region ∈ regions, Apart region (base, size)

instance (regions : List Range) (base size : ℕ) : Decidable (Allows regions base size) := by
  unfold Allows
  infer_instance

structure Memory where
  cells : Cells
  regions : List Range

/-- A region that `posix_memalign` returns, with what it contains. -/
structure Fresh where
  base : ℕ
  contents : Cells

namespace Memory

def loadSmall (m : Memory) (a : ℕ) : MemExec SmallNode :=
  if Holds m.regions (a, 32) then .ok (m.cells.small a) else .error .badAccess

def loadLarge (m : Memory) (a : ℕ) : MemExec LargeNode :=
  if Holds m.regions (a, 24) then .ok (m.cells.large a) else .error .badAccess

def loadPool (m : Memory) (a : ℕ) : MemExec Pool :=
  if Holds m.regions (a, 24) then .ok (m.cells.pool a) else .error .badAccess

def storeSmall (m : Memory) (a : ℕ) (node : SmallNode) : MemExec Memory :=
  if Holds m.regions (a, 32) then .ok { m with cells := m.cells.setSmall a node }
  else .error .badAccess

def storeLarge (m : Memory) (a : ℕ) (node : LargeNode) : MemExec Memory :=
  if Holds m.regions (a, 24) then .ok { m with cells := m.cells.setLarge a node }
  else .error .badAccess

def storePool (m : Memory) (a : ℕ) (pool : Pool) : MemExec Memory :=
  if Holds m.regions (a, 24) then .ok { m with cells := m.cells.setPool a pool }
  else .error .badAccess

def memset (m : Memory) (range : Range) (contents : Cells) : MemExec Memory :=
  if Holds m.regions range then .ok { m with cells := m.cells.fill range contents }
  else .error .badAccess

/-- `posix_memalign`, which may fail. -/
def posix_memalign (m : Memory) (size : ℕ) (answer : Option Fresh) :
    MemExec (Option ℕ × Memory) :=
  match answer with
  | none => .ok (none, m)
  | some fresh =>
      if Allows m.regions fresh.base size then
        .ok (some fresh.base,
          { cells := m.cells.fill (fresh.base, size) fresh.contents
            regions := (fresh.base, size) :: m.regions })
      else .error .notEnabled

def free (m : Memory) (a : ℕ) : MemExec Memory :=
  if ∃ region ∈ m.regions, region.1 = a then
    .ok { m with regions := m.regions.filter fun region => region.1 ≠ a }
  else .error .badFree

end Memory

/-! ## The functions of the pool -/

def PAGE_SIZE : ℕ := 4096

/-- `mp_align_ptr(p, MP_ALIGNMENT)`. -/
def mp_align_ptr (p : ℕ) : ℕ :=
  addSizeT p 15 / 16 * 16

/-- `count++` on an `unsigned int`, and `count--`. -/
def incUInt (n : ℕ) : ℕ := (n + 1) % 2 ^ 32
def decUInt (n : ℕ) : ℕ := (n + (2 ^ 32 - 1)) % 2 ^ 32

/-- What an operation returns, the nodes that it visits and the blocks that it
resets. -/
structure PoolOutcome where
  returned : ℕ := 0
  visited : List ℕ := []
  resets : List ℕ := []
  deriving DecidableEq, Repr

namespace MemoryPool

open Memory

/-- `pool_` keeps its value if there is no page. -/
def createPool (m : Memory) (pool_ : ℕ) (answer : Option Fresh) : MemExec (ℕ × Memory) := do
  let (page, m) ← m.posix_memalign PAGE_SIZE answer
  match page with
  | none => return (pool_, m)
  | some pool_ =>
      let head := pool_ + 24
      let node ← m.loadSmall head
      let m ← m.storeSmall head { node with
        last_ := pool_ + 24 + 32
        end_ := pool_ + PAGE_SIZE
        failed_ := 0 }
      let m ← m.storePool pool_ ⟨0, head, head⟩
      return (pool_, m)

/-- `cur->end_ - addr >= size`, where the difference of the pointers is
converted to `unsigned long`. -/
def hasRoom (size : ℕ) (node : SmallNode) : Bool :=
  size ≤ toSizeT ((node.end_ : ℤ) - mp_align_ptr node.last_)

/-- The loop of `mallocSmallNode`, with `current` and `cur`. -/
def skipFailed : ℕ → Memory → ℕ → ℕ → MemExec (ℕ × ℕ × Memory × List ℕ)
  | 0, _, _, _ => .error .diverges
  | fuel + 1, m, current, cur => do
      let node ← m.loadSmall cur
      if node.next_ ≠ 0 then
        let current := if 5 ≤ node.failed_ then node.next_ else current
        let m ← m.storeSmall cur { node with failed_ := incUInt node.failed_ }
        let (current, last, m, visited) ← skipFailed fuel m current node.next_
        return (current, last, m, cur :: visited)
      else return (current, cur, m, [cur])

def mallocSmallNode (fuel : ℕ) (m : Memory) (pool_ size : ℕ) (answer : Option Fresh) :
    MemExec (ℕ × Memory × List ℕ) := do
  let (page, m) ← m.posix_memalign PAGE_SIZE answer
  match page with
  | none => return (0, m, [])
  | some block =>
      -- `quote_` is incremented and `failed_` is left as the region has them
      let node ← m.loadSmall block
      let addr := mp_align_ptr (block + 32)
      let m ← m.storeSmall block { node with
        end_ := block + PAGE_SIZE
        next_ := 0
        last_ := addr + size
        quote_ := incUInt node.quote_ }
      let pool ← m.loadPool pool_
      let (current, last, m, visited) ← skipFailed fuel m pool.current_ pool.current_
      let node ← m.loadSmall last
      let m ← m.storeSmall last { node with next_ := block }
      let m ← m.storePool pool_ { pool with current_ := current }
      return (addr, m, visited)

/-- `malloc` for a size that fits into a page. -/
def mallocSmall (fuel : ℕ) (m : Memory) (pool_ size : ℕ) (answer : Option Fresh) :
    MemExec (ℕ × Memory × List ℕ) := do
  let pool ← m.loadPool pool_
  let (found, visited) ← findNode m.loadSmall SmallNode.next_
    (fun _ node => hasRoom size node) (fun _ => false) .diverges fuel 0 pool.current_
  match found with
  | some (cur, node) =>
      let addr := mp_align_ptr node.last_
      let m ← m.storeSmall cur { node with
        quote_ := incUInt node.quote_
        last_ := addr + size }
      return (addr, m, visited)
  | none =>
      let (addr, m, visited') ← mallocSmallNode fuel m pool_ size answer
      return (addr, m, visited ++ visited')

/-- The size of a `LargeNode` fits into a page, so the inner call of `malloc`
is one of `mallocSmall`. -/
def mallocLargeNode (fuel : ℕ) (m : Memory) (pool_ size : ℕ)
    (answer answer' : Option Fresh) : MemExec (ℕ × Memory × List ℕ) := do
  let (region, m) ← m.posix_memalign size answer
  match region with
  | none => return (0, m, [])
  | some addr =>
      let pool ← m.loadPool pool_
      let (found, visited) ← findNode m.loadLarge LargeNode.next_
        (fun _ node => node.address_ = 0) (fun count => 3 < count) .diverges fuel 0
        pool.largeList_
      match found with
      | some (largeNode, node) =>
          let m ← m.storeLarge largeNode { node with
            size_ := size % 2 ^ 32
            address_ := addr }
          return (addr, m, visited)
      | none =>
          let (largeNode, m, visited') ← mallocSmall fuel m pool_ 24 answer'
          if largeNode = 0 then
            let m ← m.free addr
            return (0, m, visited ++ visited')
          else
            let pool ← m.loadPool pool_
            let m ← m.storeLarge largeNode ⟨addr, size % 2 ^ 32, pool.largeList_⟩
            let m ← m.storePool pool_ { pool with largeList_ := largeNode }
            return (addr, m, visited ++ visited')

def malloc (fuel : ℕ) (m : Memory) (pool_ size : ℕ) (answer answer' : Option Fresh) :
    MemExec (ℕ × Memory × List ℕ) :=
  if size = 0 then .ok (0, m, [])
  else if PAGE_SIZE - 32 < size then mallocLargeNode fuel m pool_ size answer answer'
  else mallocSmall fuel m pool_ size answer

def calloc (fuel : ℕ) (m : Memory) (pool_ size : ℕ) (answer answer' : Option Fresh) :
    MemExec (ℕ × Memory × List ℕ) := do
  let (addr, m, visited) ← malloc fuel m pool_ size answer answer'
  if addr ≠ 0 then
    let m ← m.memset (addr, size) fun _ => 0
    return (addr, m, visited)
  else return (addr, m, visited)

/-- The bytes of the block around `p`, its end included. -/
def spans (p : ℕ) (small : ℕ) (node : SmallNode) : Bool :=
  small ≤ p ∧ p ≤ node.end_

def freeMemory (fuel : ℕ) (m : Memory) (pool_ p : ℕ) :
    MemExec (Memory × List ℕ × List ℕ) := do
  let pool ← m.loadPool pool_
  let (found, visited) ← findNode m.loadLarge LargeNode.next_
    (fun _ node => node.address_ = p) (fun _ => false) .diverges fuel 0 pool.largeList_
  match found with
  | some (large, node) =>
      let m ← m.free node.address_
      let m ← m.storeLarge large { node with size_ := 0, address_ := 0 }
      return (m, visited, [])
  | none =>
      let (found, visited') ← findNode m.loadSmall SmallNode.next_ (spans p)
        (fun _ => false) .diverges fuel 0 pool.head_
      match found with
      | some (small, node) =>
          let node := { node with quote_ := decUInt node.quote_ }
          if node.quote_ = 0 then
            let start := if small = pool.head_ then pool_ + 24 + 32 else small + 32
            let m ← m.storeSmall small { node with last_ := start, failed_ := 0 }
            let m ← m.storePool pool_ { pool with current_ := pool.head_ }
            return (m, visited ++ visited', [small])
          else
            let m ← m.storeSmall small node
            return (m, visited ++ visited', [])
      | none => return (m, visited ++ visited', [])

/-- The first loop of `resetPool`. -/
def freeLarges : ℕ → Memory → ℕ → MemExec (Memory × List ℕ)
  | 0, _, _ => .error .diverges
  | fuel + 1, m, large =>
      if large = 0 then .ok (m, [])
      else do
        let node ← m.loadLarge large
        let m ← (if node.address_ ≠ 0 then m.free node.address_ else .ok m)
        let (m, visited) ← freeLarges fuel m node.next_
        return (m, large :: visited)

def resetSmalls : ℕ → Memory → ℕ → MemExec (Memory × List ℕ)
  | 0, _, _ => .error .diverges
  | fuel + 1, m, small =>
      if small = 0 then .ok (m, [])
      else do
        let node ← m.loadSmall small
        let m ← m.storeSmall small { node with
          last_ := small + 32
          failed_ := 0
          quote_ := 0 }
        let (m, visited) ← resetSmalls fuel m node.next_
        return (m, small :: visited)

def resetPool (fuel : ℕ) (m : Memory) (pool_ : ℕ) :
    MemExec (Memory × List ℕ × List ℕ) := do
  let pool ← m.loadPool pool_
  let (m, larges) ← freeLarges fuel m pool.largeList_
  let m ← m.storePool pool_ { pool with largeList_ := 0, current_ := pool.head_ }
  let (m, smalls) ← resetSmalls fuel m pool.head_
  return (m, larges ++ smalls, smalls)

/-- The first loop of `destroyPool`. -/
def destroyLarges : ℕ → Memory → ℕ → MemExec (Memory × List ℕ)
  | 0, _, _ => .error .diverges
  | fuel + 1, m, large =>
      if large = 0 then .ok (m, [])
      else do
        let node ← m.loadLarge large
        let m ←
          (if node.address_ ≠ 0 then do
            let m ← m.free node.address_
            m.storeLarge large { node with address_ := 0 }
          else .ok m)
        let (m, visited) ← destroyLarges fuel m node.next_
        return (m, large :: visited)

/-- The second loop of `destroyPool` reads `next_` of the block that it has
just freed. -/
def destroySmalls : ℕ → Memory → ℕ → MemExec (Memory × List ℕ)
  | 0, _, _ => .error .diverges
  | fuel + 1, m, cur =>
      if cur = 0 then .ok (m, [])
      else do
        let _ ← m.loadSmall cur
        let m ← m.free cur
        let node ← m.loadSmall cur
        let (m, visited) ← destroySmalls fuel m node.next_
        return (m, cur :: visited)

def destroyPool (fuel : ℕ) (m : Memory) (pool_ : ℕ) : MemExec (Memory × List ℕ) := do
  let pool ← m.loadPool pool_
  let (m, larges) ← destroyLarges fuel m pool.largeList_
  let head ← m.loadSmall pool.head_
  let (m, smalls) ← destroySmalls fuel m head.next_
  let m ← m.free pool_
  return (m, larges ++ smalls)

end MemoryPool

/-! ## Runs -/

/-- The pool and the memory around it; `created` says that the pool is between
`createPool` and `destroyPool`, and `live` are the ranges that were returned
and not freed. -/
structure PoolState where
  mem : Memory
  pool_ : ℕ
  created : Bool
  live : List Range

inductive PoolOp
  | createPool (answer : Option Fresh)
  | malloc (size : ℕ) (answer answer' : Option Fresh)
  | calloc (size : ℕ) (answer answer' : Option Fresh)
  | freeMemory (p : ℕ)
  | resetPool
  | destroyPool
  /-- The program writes into a range that it was given. -/
  | write (range : Range) (contents : Cells)

def PoolOp.needsPool : PoolOp → Bool
  | .createPool _ => false
  | _ => true

namespace PoolState

open Memory MemoryPool

def empty (cells : Cells) : PoolState where
  mem := { cells, regions := [] }
  pool_ := 0
  created := false
  live := []

def IsLive (live : List Range) (range : Range) : Prop := range ∈ live

instance (live : List Range) (range : Range) : Decidable (IsLive live range) := by
  unfold IsLive
  infer_instance

/-- A null pointer is not live. -/
def grant (live : List Range) (p size : ℕ) : List Range :=
  if p = 0 then live else (p, size) :: live

/-- The program frees live pointers only and writes into live ranges only. -/
def apply (fuel : ℕ) (s : PoolState) : PoolOp → MemExec (PoolState × PoolOutcome)
  | .createPool answer => do
      let (pool_, mem) ← MemoryPool.createPool s.mem s.pool_ answer
      return ({ mem, pool_, created := s.created || answer.isSome,
                live := if answer.isSome then [] else s.live }, { returned := pool_ })
  | .malloc size answer answer' => do
      let (p, mem, visited) ← MemoryPool.malloc fuel s.mem s.pool_ size answer answer'
      return ({ s with mem, live := grant s.live p size }, { returned := p, visited })
  | .calloc size answer answer' => do
      let (p, mem, visited) ← MemoryPool.calloc fuel s.mem s.pool_ size answer answer'
      return ({ s with mem, live := grant s.live p size }, { returned := p, visited })
  | .freeMemory p =>
      if p ∈ s.live.map Prod.fst then do
        let (mem, visited, resets) ← MemoryPool.freeMemory fuel s.mem s.pool_ p
        return ({ s with mem, live := s.live.filter fun range => range.1 ≠ p },
          { visited, resets })
      else .error .notEnabled
  | .resetPool => do
      let (mem, visited, resets) ← MemoryPool.resetPool fuel s.mem s.pool_
      return ({ s with mem, live := [] }, { visited, resets })
  | .destroyPool => do
      let (mem, visited) ← MemoryPool.destroyPool fuel s.mem s.pool_
      return ({ s with mem, created := false, live := [] }, { visited })
  | .write range contents =>
      if IsLive s.live range then do
        let mem ← s.mem.memset range contents
        return ({ s with mem }, {})
      else .error .notEnabled

/-- The program uses the pool between `createPool` and `destroyPool`. -/
def step (fuel : ℕ) (s : PoolState) (op : PoolOp) : MemExec (PoolState × PoolOutcome) :=
  if op.needsPool && !s.created then .error .notEnabled else apply fuel s op

end PoolState

end MyFileServer
