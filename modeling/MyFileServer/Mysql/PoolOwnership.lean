import MyFileServer.Mysql.ConnectionPool
import Mathlib.Data.List.Perm.Basic

/-!
# Who owns a pooled connection

The queue and the loans together list every connection that exists exactly
once.  Each critical section permutes this list, or adds or removes a
connection together with its object.
-/

namespace MyFileServer

open Execution

namespace ConnectionPool

variable {Caller Conn : Type}

def lentConns (pool : ConnectionPool Caller Conn) : List Conn :=
  pool.lent.map Prod.snd

structure Owned (pool : ConnectionPool Caller Conn) : Prop where
  heap_nodup : pool.heap.Nodup
  owners_perm : (pool.connectionQueue_ ++ pool.lentConns).Perm pool.heap

theorem owned_empty (aliveTime : Conn → ℤ) :
    Owned (empty aliveTime : ConnectionPool Caller Conn) where
  heap_nodup := List.nodup_nil
  owners_perm := List.Perm.nil

/-- Only a step that no thread can take and a counter that leaves the range
of `int` end a run. -/
def Benign (stop : PoolStop) : Prop :=
  stop = .notEnabled ∨ stop = .intOverflow

theorem increment_ends (size : ℤ) : Ends Benign (fun _ => True) (increment size) := by
  unfold increment
  split_ifs
  · trivial
  · exact Or.inr rfl

theorem decrement_ends (size : ℤ) : Ends Benign (fun _ => True) (decrement size) := by
  unfold decrement
  split_ifs
  · trivial
  · exact Or.inr rfl

variable [DecidableEq Conn]

theorem Owned.addConnection {pool : ConnectionPool Caller Conn} (hpool : pool.Owned)
    (fresh : Conn) (now : ℤ) : Ends Benign Owned (pool.addConnection fresh now) := by
  unfold ConnectionPool.addConnection
  split_ifs with hfresh
  · exact Or.inl rfl
  · refine (increment_ends _).bind ?_
    intro size _
    constructor
    · exact List.nodup_cons.mpr ⟨hfresh, hpool.heap_nodup⟩
    · change (pool.connectionQueue_ ++ [fresh] ++ pool.lentConns).Perm (fresh :: pool.heap)
      rw [List.append_assoc]
      exact List.perm_middle.trans (hpool.owners_perm.cons fresh)

theorem Owned.addAndCount {pool : ConnectionPool Caller Conn} (hpool : pool.Owned)
    (fresh : Conn) (now : ℤ) : Ends Benign Owned (pool.addAndCount fresh now) := by
  refine (hpool.addConnection fresh now).bind ?_
  intro added hadded
  refine (increment_ends added.currentSize_).bind ?_
  intro size _
  exact ⟨hadded.heap_nodup, hadded.owners_perm⟩

theorem owned_construct (cfg : PoolConfig) (aliveTime : Conn → ℤ)
    (created : ℕ → Conn × ℤ) :
    Ends Benign Owned
      (construct cfg aliveTime created : Except PoolStop (ConnectionPool Caller Conn)) := by
  have hround : ∀ (past : List ℕ) (pool : ConnectionPool Caller Conn) (i : ℕ), pool.Owned →
      Ends Benign Owned (pool.addAndCount (created i).1 (created i).2) :=
    fun _ _ _ hpool => hpool.addAndCount _ _
  exact Ends.foldlM hround [] (owned_empty aliveTime) _

/-- A critical section keeps the ownership and deletes nothing that is lent. -/
def Keeps (pool : ConnectionPool Caller Conn)
    (result : ConnectionPool Caller Conn × List (PoolEvent Caller Conn)) : Prop :=
  result.1.Owned ∧ ∀ conn, .deleted conn ∈ result.2 → conn ∉ pool.lentConns

omit [DecidableEq Conn] in
theorem Owned.takeOrWait {pool : ConnectionPool Caller Conn} (hpool : pool.Owned)
    (caller : Caller) : Ends Benign pool.Keeps (pool.takeOrWait caller) := by
  unfold ConnectionPool.takeOrWait
  cases hqueue : pool.connectionQueue_ with
  | nil =>
      rw [if_pos List.isEmpty_nil]
      refine ⟨⟨hpool.heap_nodup, ?_⟩, by simp⟩
      have hperm := hpool.owners_perm
      rwa [hqueue] at hperm
  | cons conn rest =>
      have hperm := hpool.owners_perm
      rw [hqueue] at hperm
      rw [if_neg (by simp)]
      refine ⟨⟨hpool.heap_nodup, ?_⟩, by simp⟩
      change (rest ++ conn :: pool.lentConns).Perm pool.heap
      exact List.perm_middle.trans hperm

theorem Owned.giveBack [DecidableEq Caller] {pool : ConnectionPool Caller Conn}
    (hpool : pool.Owned) {caller : Caller} {conn : Conn}
    (hlent : (caller, conn) ∈ pool.lent) (now : ℤ) :
    Ends Benign pool.Keeps (pool.giveBack caller conn now) := by
  have hconn : conn ∈ pool.lentConns := List.mem_map_of_mem hlent
  have hheap : conn ∈ pool.heap :=
    hpool.owners_perm.subset (List.mem_append_right _ hconn)
  have hloan : pool.lentConns.Perm
      (conn :: (pool.lent.erase (caller, conn)).map Prod.snd) :=
    (List.perm_cons_erase hlent).map Prod.snd
  unfold ConnectionPool.giveBack
  rw [if_pos hheap]
  refine ⟨⟨hpool.heap_nodup, ?_⟩, by simp⟩
  change (pool.connectionQueue_ ++ [conn] ++
    (pool.lent.erase (caller, conn)).map Prod.snd).Perm pool.heap
  rw [List.append_assoc]
  exact (hloan.symm.append_left _).trans hpool.owners_perm

theorem Owned.produceConnection {pool : ConnectionPool Caller Conn} (hpool : pool.Owned)
    (cfg : PoolConfig) (fresh : Conn) (now : ℤ) :
    Ends Benign pool.Keeps (pool.produceConnection cfg fresh now) := by
  unfold ConnectionPool.produceConnection
  split_ifs
  · exact ⟨hpool, by simp⟩
  · refine (hpool.addAndCount fresh now).bind ?_
    intro next hnext
    exact ⟨hnext, by simp⟩
  · exact ⟨hpool, by simp⟩

/-- The invariant of the loop: the connections still in the queue and the
loans, which the loop does not touch, are those that exist. -/
theorem Owned.recycleLoop (cfg : PoolConfig) (now : Conn → ℤ) {queue : List Conn}
    {pool : ConnectionPool Caller Conn} (hpool : pool.Owned)
    (hqueue : pool.connectionQueue_ = queue) :
    Ends Benign pool.Keeps (ConnectionPool.recycleLoop cfg now queue pool) := by
  induction queue generalizing pool with
  | nil => exact ⟨hpool, by simp⟩
  | cons conn rest ih =>
      have hperm := hpool.owners_perm
      rw [hqueue] at hperm
      have hnodup := hperm.nodup_iff.mpr hpool.heap_nodup
      have hheap : conn ∈ pool.heap := hperm.subset (List.mem_cons_self)
      have hfree : conn ∉ pool.lentConns := by
        intro hlent
        exact (List.nodup_cons.mp hnodup).1 (List.mem_append_right _ hlent)
      unfold ConnectionPool.recycleLoop
      split_ifs
      · refine (decrement_ends pool.currentSize_).bind ?_
        intro size _
        have hrest : ({ pool with
            connectionQueue_ := rest
            heap := pool.heap.erase conn
            currentSize_ := size } : ConnectionPool Caller Conn).Owned := by
          constructor
          · exact hpool.heap_nodup.erase conn
          · have herase := hperm.erase conn
            rwa [List.cons_append, List.erase_cons_head] at herase
        refine (ih hrest rfl).bind ?_
        intro result hresult
        refine ⟨hresult.1, ?_⟩
        intro gone hgone
        rcases List.mem_cons.mp hgone with hhead | htail
        · cases hhead
          exact hfree
        · exact hresult.2 gone htail
      · exact ⟨hpool, by simp⟩
      · exact ⟨hpool, by simp⟩

variable [DecidableEq Caller]

theorem Owned.step (cfg : PoolConfig) {pool : ConnectionPool Caller Conn}
    (hpool : pool.Owned) (input : PoolInput Caller Conn) :
    Ends Benign pool.Keeps (pool.step cfg input) := by
  cases input with
  | getConnection caller =>
      simp only [ConnectionPool.step]
      split_ifs
      · exact Or.inl rfl
      · exact hpool.takeOrWait caller
  | wake caller =>
      simp only [ConnectionPool.step]
      split_ifs
      · have hwoken : ({ pool with waiting := pool.waiting.erase caller } :
            ConnectionPool Caller Conn).Owned :=
          ⟨hpool.heap_nodup, hpool.owners_perm⟩
        exact hwoken.takeOrWait caller
      · exact Or.inl rfl
  | release caller conn now =>
      simp only [ConnectionPool.step]
      split_ifs with hlent
      · exact hpool.giveBack hlent now
      · exact Or.inl rfl
  | produce fresh now => exact hpool.produceConnection cfg fresh now
  | recycle now => exact hpool.recycleLoop cfg now rfl

omit [DecidableEq Caller] in
theorem Owned.count_add_count {pool : ConnectionPool Caller Conn} (hpool : pool.Owned)
    {conn : Conn} (hconn : conn ∈ pool.heap) :
    pool.connectionQueue_.count conn + pool.lentConns.count conn = 1 := by
  rw [← List.count_append, hpool.owners_perm.count_eq]
  exact List.count_eq_one_of_mem hpool.heap_nodup hconn

/-- Every connection that exists is in the queue once or lent once, and
nothing else is in either place. -/
structure Exclusive (pool : ConnectionPool Caller Conn) : Prop where
  queued_or_lent : ∀ conn ∈ pool.heap,
    (pool.connectionQueue_.count conn = 1 ∧ ∀ caller, (caller, conn) ∉ pool.lent) ∨
      (conn ∉ pool.connectionQueue_ ∧ pool.lentConns.count conn = 1 ∧
        ∃ caller, (caller, conn) ∈ pool.lent)
  exists_of_owned : ∀ conn,
    conn ∈ pool.connectionQueue_ ∨ conn ∈ pool.lentConns → conn ∈ pool.heap

omit [DecidableEq Caller] in
theorem Owned.exclusive {pool : ConnectionPool Caller Conn} (hpool : pool.Owned) :
    pool.Exclusive where
  queued_or_lent := by
    intro conn hconn
    have hcount := hpool.count_add_count hconn
    by_cases hlent : conn ∈ pool.lentConns
    · have hpos := List.count_pos_iff.mpr hlent
      obtain ⟨⟨caller, _⟩, hloan, rfl⟩ := List.mem_map.mp hlent
      refine Or.inr ⟨?_, by omega, caller, hloan⟩
      exact List.count_eq_zero.mp (by omega)
    · have hzero := List.count_eq_zero.mpr hlent
      refine Or.inl ⟨by omega, ?_⟩
      intro caller hloan
      exact hlent (List.mem_map_of_mem hloan)
  exists_of_owned := by
    intro conn howned
    exact hpool.owners_perm.subset (List.mem_append.mpr howned)

theorem owned_of_reachable {cfg : PoolConfig} {aliveTime : Conn → ℤ}
    {created : ℕ → Conn × ℤ} {start pool : ConnectionPool Caller Conn}
    (hstart : construct cfg aliveTime created = .ok start)
    (hreach : Reachable (step cfg) start pool) : pool.Owned := by
  refine hreach.invariant ((owned_construct cfg aliveTime created).of_eq_ok hstart) ?_
  intro pool input next events hpool hnext
  exact ((hpool.step cfg input).of_eq_ok hnext).1

theorem exclusive_of_reachable {cfg : PoolConfig} {aliveTime : Conn → ℤ}
    {created : ℕ → Conn × ℤ} {start pool : ConnectionPool Caller Conn}
    (hstart : construct cfg aliveTime created = .ok start)
    (hreach : Reachable (step cfg) start pool) :
    pool.Exclusive ∧
      ∀ input,
        pool.step cfg input ≠ .error .emptyQueue ∧
        pool.step cfg input ≠ .error .deletedConnection ∧
        ∀ next events, pool.step cfg input = .ok (next, events) →
          ∀ conn, .deleted conn ∈ events → ∀ caller, (caller, conn) ∉ pool.lent := by
  have hpool := owned_of_reachable hstart hreach
  refine ⟨hpool.exclusive, ?_⟩
  intro input
  have hstep := hpool.step cfg input
  refine ⟨?_, ?_, ?_⟩
  · intro hempty
    rw [hempty] at hstep
    rcases hstep with habsurd | habsurd <;> cases habsurd
  · intro hdeleted
    rw [hdeleted] at hstep
    rcases hstep with habsurd | habsurd <;> cases habsurd
  · intro next events hnext conn hconn caller hloan
    exact (hstep.of_eq_ok hnext).2 conn hconn (List.mem_map_of_mem hloan)

/-- One caller holds the first connection; another waited for the second, gave
it back, took it again and gave it back. -/
theorem run_lent :
    ∃ start final : ConnectionPool ℕ ℕ, ∃ calls,
      construct ⟨1, 4, 100⟩ (fun _ => 0) (fun i => (i, 0)) = .ok start ∧
      run (step ⟨1, 4, 100⟩) start
          [.getConnection 10, .getConnection 11, .produce 7 3, .wake 11,
            .release 11 7 5, .getConnection 11, .release 11 7 9,
            .recycle fun _ => 200000000] = .ok (final, calls) ∧
      final.lent = [(10, 0)] ∧ final.connectionQueue_ = [7] :=
  ⟨_, _, _, rfl, rfl, rfl, rfl⟩

theorem exclusive_of_reachable_lent :
    ∃ start pool : ConnectionPool ℕ ℕ,
      construct ⟨1, 4, 100⟩ (fun _ => 0) (fun i => (i, 0)) = .ok start ∧
      Reachable (step ⟨1, 4, 100⟩) start pool ∧
      pool.lent = [(10, 0)] ∧ pool.connectionQueue_ = [7] ∧
      pool.Exclusive ∧
      ∀ input,
        pool.step ⟨1, 4, 100⟩ input ≠ .error .emptyQueue ∧
        pool.step ⟨1, 4, 100⟩ input ≠ .error .deletedConnection ∧
        ∀ next events, pool.step ⟨1, 4, 100⟩ input = .ok (next, events) →
          ∀ conn, .deleted conn ∈ events → ∀ caller, (caller, conn) ∉ pool.lent := by
  obtain ⟨start, pool, calls, hstart, hrun, hlent, hqueue⟩ := run_lent
  have hreach := (Reachable.start.run hrun).1
  exact ⟨start, pool, hstart, hreach, hlent, hqueue, exclusive_of_reachable hstart hreach⟩

end ConnectionPool

end MyFileServer
