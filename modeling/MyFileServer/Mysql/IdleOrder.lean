import MyFileServer.Mysql.PoolOwnership

/-!
# The order of idle connections

A connection gets its stamp when it is put at the end of the queue, under the
lock, so the stamps in the queue follow the clock.  The recycler may therefore
stop at the first connection that has not been idle for too long.
-/

namespace MyFileServer

open Execution

/-- The pool with a reading of the steady clock behind all readings so far. -/
structure TimedPool (Caller Conn : Type) where
  pool : ConnectionPool Caller Conn
  clock : ℤ

/-- A critical section and the clock at its end. -/
structure TimedInput (Caller Conn : Type) where
  input : PoolInput Caller Conn
  clock : ℤ

namespace ConnectionPool

variable {Caller Conn : Type}

/-- The clock does not go back in the section, which looks at the connections
of the queue from the front on. -/
def Follows (queue : List Conn) (before after : ℤ) : PoolInput Caller Conn → Prop
  | .release _ _ now => before ≤ now ∧ now ≤ after
  | .produce _ now => before ≤ now ∧ now ≤ after
  | .recycle now =>
      before ≤ after ∧ (∀ conn ∈ queue, before ≤ now conn ∧ now conn ≤ after) ∧
        queue.Pairwise fun conn other => now conn ≤ now other
  | _ => before ≤ after

instance (queue : List Conn) (before after : ℤ) (input : PoolInput Caller Conn) :
    Decidable (Follows queue before after input) := by
  cases input <;> unfold Follows <;> infer_instance

/-- The stamps do not decrease from the front of the queue to its end, and none
lies ahead of the clock. -/
structure InOrder (pool : ConnectionPool Caller Conn) (clock : ℤ) : Prop where
  sorted : pool.connectionQueue_.Pairwise fun conn other =>
    pool.aliveTime conn ≤ pool.aliveTime other
  past : ∀ conn ∈ pool.connectionQueue_, pool.aliveTime conn ≤ clock

variable {pool next : ConnectionPool Caller Conn} {clock clock' : ℤ}

theorem InOrder.later (hpool : pool.InOrder clock) (hclock : clock ≤ clock') :
    pool.InOrder clock' :=
  ⟨hpool.sorted, fun conn hconn => le_trans (hpool.past conn hconn) hclock⟩

/-- Connections that leave the front of the queue. -/
theorem InOrder.pop (gone : List Conn) (hpool : pool.InOrder clock)
    (hqueue : pool.connectionQueue_ = gone ++ next.connectionQueue_)
    (halive : next.aliveTime = pool.aliveTime) : next.InOrder clock := by
  have hsorted := hpool.sorted
  rw [hqueue] at hsorted
  constructor
  · rw [halive]
    exact (List.pairwise_append.mp hsorted).2.1
  · intro conn hconn
    rw [halive]
    exact hpool.past conn (by rw [hqueue]; exact List.mem_append_right _ hconn)

/-- The first connection of the queue has been idle for the longest time. -/
theorem InOrder.getAliveTime_le {front conn : Conn} {rest : List Conn} (hpool : pool.InOrder clock)
    (hqueue : pool.connectionQueue_ = front :: rest) (hconn : conn ∈ pool.connectionQueue_)
    (now : ℤ) : pool.getAliveTime conn now ≤ pool.getAliveTime front now := by
  have hsorted := hpool.sorted
  rw [hqueue] at hsorted hconn
  have hle : pool.aliveTime front ≤ pool.aliveTime conn := by
    rcases List.mem_cons.mp hconn with rfl | hrest
    · exact le_refl _
    · exact (List.pairwise_cons.mp hsorted).1 conn hrest
  exact Int.tdiv_le_tdiv (by decide) (by omega)

theorem Owned.notMem_queue (hpool : pool.Owned) {conn : Conn} (hconn : conn ∉ pool.heap) :
    conn ∉ pool.connectionQueue_ := fun hmem =>
  hconn (hpool.owners_perm.subset (List.mem_append_left _ hmem))

/-- A connection in the queue is not lent. -/
theorem Owned.notMem_of_lent (hpool : pool.Owned) {conn : Conn}
    (hconn : conn ∈ pool.lentConns) : conn ∉ pool.connectionQueue_ := by
  intro hmem
  have hnodup := hpool.owners_perm.nodup_iff.mpr hpool.heap_nodup
  exact (List.nodup_append.mp hnodup).2.2 conn hmem conn hconn rfl

variable [DecidableEq Conn]

/-- A connection that is put at the end with the stamp of the moment. -/
theorem InOrder.push {conn : Conn} {now : ℤ} (hpool : pool.InOrder clock)
    (hconn : conn ∉ pool.connectionQueue_)
    (hqueue : next.connectionQueue_ = pool.connectionQueue_ ++ [conn])
    (halive : next.aliveTime = Function.update pool.aliveTime conn now)
    (hnow : clock ≤ now) (hclock : now ≤ clock') : next.InOrder clock' := by
  have hsame : ∀ other ∈ pool.connectionQueue_, next.aliveTime other = pool.aliveTime other := by
    intro other hother
    rw [halive, Function.update_of_ne]
    exact fun heq => hconn (heq ▸ hother)
  have hstamp : next.aliveTime conn = now := by
    rw [halive, Function.update_self]
  constructor
  · rw [hqueue, List.pairwise_append]
    refine ⟨?_, List.pairwise_singleton _ _, ?_⟩
    · refine hpool.sorted.imp_of_mem ?_
      intro first second hfirst hsecond hle
      rwa [hsame first hfirst, hsame second hsecond]
    · intro other hother last hlast
      rw [List.mem_singleton.mp hlast, hsame other hother, hstamp]
      exact le_trans (hpool.past other hother) hnow
  · rw [hqueue]
    intro other hother
    rcases List.mem_append.mp hother with hin | hlast
    · rw [hsame other hin]
      exact le_trans (hpool.past other hin) (le_trans hnow hclock)
    · rw [List.mem_singleton.mp hlast, hstamp]
      exact hclock

theorem addAndCount_eq_ok {fresh : Conn} {now : ℤ}
    (hadd : pool.addAndCount fresh now = .ok next) :
    fresh ∉ pool.heap ∧ next.connectionQueue_ = pool.connectionQueue_ ++ [fresh] ∧
      next.aliveTime = Function.update pool.aliveTime fresh now := by
  obtain ⟨added, hconn, hcount⟩ := bind_eq_ok.mp hadd
  unfold addConnection at hconn
  split_ifs at hconn with hfresh
  obtain ⟨size, _, hpure⟩ := bind_eq_ok.mp hconn
  obtain ⟨size', _, hpure'⟩ := bind_eq_ok.mp hcount
  cases hpure
  cases hpure'
  exact ⟨hfresh, rfl, rfl⟩

theorem InOrder.addAndCount {fresh : Conn} {now : ℤ} (hpool : pool.InOrder clock)
    (howned : pool.Owned) (hadd : pool.addAndCount fresh now = .ok next) (hnow : clock ≤ now)
    (hclock : now ≤ clock') : next.InOrder clock' := by
  obtain ⟨hfresh, hqueue, halive⟩ := addAndCount_eq_ok hadd
  exact hpool.push (howned.notMem_queue hfresh) hqueue halive hnow hclock

/-- What the loop of the recycler leaves: a rest of the queue that is short
enough, or whose first connection was not idle for long when it was looked
at. -/
theorem recycleLoop_eq_ok {cfg : PoolConfig} {now : Conn → ℤ} {queue : List Conn} {events}
    (hqueue : pool.connectionQueue_ = queue)
    (hloop : recycleLoop cfg now queue pool = .ok (next, events)) :
    (∃ gone, queue = gone ++ next.connectionQueue_) ∧ next.aliveTime = pool.aliveTime ∧
      (next.connectionQueue_.length ≤ toSizeT cfg.minSize_ ∨
        ∃ front rest, next.connectionQueue_ = front :: rest ∧
          next.getAliveTime front (now front) < cfg.maxIdleTime_) := by
  induction queue generalizing pool events with
  | nil =>
      cases hloop
      rw [hqueue]
      exact ⟨⟨[], rfl⟩, rfl, Or.inl (Nat.zero_le _)⟩
  | cons conn rest ih =>
      unfold recycleLoop at hloop
      split_ifs at hloop with hlong hidle hheap
      · obtain ⟨size, _, hrest⟩ := bind_eq_ok.mp hloop
        obtain ⟨⟨final, more⟩, hmore, hpure⟩ := bind_eq_ok.mp hrest
        cases hpure
        obtain ⟨⟨gone, hgone⟩, halive, hstop⟩ := ih rfl hmore
        exact ⟨⟨conn :: gone, by rw [hgone]; rfl⟩, halive, hstop⟩
      · cases hloop
        exact ⟨⟨[], hqueue.symm⟩, rfl, Or.inr ⟨conn, rest, hqueue, not_le.mp hidle⟩⟩
      · cases hloop
        rw [hqueue]
        exact ⟨⟨[], rfl⟩, rfl, Or.inl (not_lt.mp hlong)⟩

theorem inOrder_construct {cfg : PoolConfig} {aliveTime : Conn → ℤ} {created : ℕ → Conn × ℤ}
    (hcreated : Monotone fun i => (created i).2) {start : ConnectionPool Caller Conn}
    (hstart : construct cfg aliveTime created = .ok start)
    (hclock : ∀ i < cfg.minSize_.toNat, (created i).2 ≤ clock) : start.InOrder clock := by
  unfold construct at hstart
  generalize cfg.minSize_.toNat = n at hstart hclock
  have hrounds : Ends Benign (fun pool : ConnectionPool Caller Conn => pool.Owned ∧
      ∀ clock, (∀ i < n, (created i).2 ≤ clock) → pool.InOrder clock)
      ((List.range n).foldlM (fun pool i => pool.addAndCount (created i).1 (created i).2)
        (empty aliveTime)) := by
    clear hstart hclock
    induction n with
    | zero => exact ⟨owned_empty aliveTime, fun clock _ => ⟨List.Pairwise.nil, by simp [empty]⟩⟩
    | succ n ih =>
        rw [List.range_succ, List.foldlM_append]
        refine ih.bind ?_
        intro pool hpool
        simp only [List.foldlM_cons, List.foldlM_nil, bind_pure]
        have howned := hpool.1.addAndCount (created n).1 (created n).2
        cases hadd : pool.addAndCount (created n).1 (created n).2 with
        | error stop =>
            rw [hadd] at howned
            exact howned
        | ok next =>
            rw [hadd] at howned
            refine ⟨howned, ?_⟩
            intro clock hclock
            have hbefore := hpool.2 (created n).2 fun i hi => hcreated (le_of_lt hi)
            exact hbefore.addAndCount hpool.1 hadd (le_refl _) (hclock n (Nat.lt_succ_self n))
  exact (hrounds.of_eq_ok hstart).2 clock hclock

variable [DecidableEq Caller]

/-- A step that follows the clock. -/
def timedStep (cfg : PoolConfig) (s : TimedPool Caller Conn) (i : TimedInput Caller Conn) :
    Except PoolStop (TimedPool Caller Conn × List (PoolEvent Caller Conn)) :=
  if Follows s.pool.connectionQueue_ s.clock i.clock i.input then do
    let (pool, events) ← s.pool.step cfg i.input
    return (⟨pool, i.clock⟩, events)
  else .error .notEnabled

omit [DecidableEq Conn] [DecidableEq Caller] in
theorem InOrder.takeOrWait {caller : Caller} {events} (hpool : pool.InOrder clock)
    (htake : pool.takeOrWait caller = .ok (next, events)) : next.InOrder clock := by
  unfold ConnectionPool.takeOrWait at htake
  cases hqueue : pool.connectionQueue_ with
  | nil =>
      rw [hqueue] at htake
      cases htake
      exact hpool.pop [] hqueue rfl
  | cons conn rest =>
      rw [hqueue] at htake
      cases htake
      exact hpool.pop [conn] hqueue rfl

theorem InOrder.step {cfg : PoolConfig} {input : PoolInput Caller Conn} {events}
    (hpool : pool.InOrder clock) (howned : pool.Owned)
    (hfollows : Follows pool.connectionQueue_ clock clock' input)
    (hstep : pool.step cfg input = .ok (next, events)) : next.InOrder clock' := by
  cases input with
  | getConnection caller =>
      simp only [ConnectionPool.step] at hstep
      split_ifs at hstep
      exact (hpool.takeOrWait hstep).later hfollows
  | wake caller =>
      simp only [ConnectionPool.step] at hstep
      split_ifs at hstep
      have hwoken : InOrder { pool with waiting := pool.waiting.erase caller } clock :=
        ⟨hpool.sorted, hpool.past⟩
      exact (hwoken.takeOrWait hstep).later hfollows
  | release caller conn now =>
      simp only [ConnectionPool.step] at hstep
      split_ifs at hstep with hlent
      unfold ConnectionPool.giveBack at hstep
      split_ifs at hstep
      cases hstep
      have hconn : conn ∈ pool.lentConns := List.mem_map_of_mem hlent
      exact hpool.push (howned.notMem_of_lent hconn) rfl rfl hfollows.1 hfollows.2
  | produce fresh now =>
      simp only [ConnectionPool.step, ConnectionPool.produceConnection] at hstep
      split_ifs at hstep
      · cases hstep
        exact hpool.later (le_trans hfollows.1 hfollows.2)
      · obtain ⟨added, hadd, hpure⟩ := bind_eq_ok.mp hstep
        cases hpure
        exact hpool.addAndCount howned hadd hfollows.1 hfollows.2
      · cases hstep
        exact hpool.later (le_trans hfollows.1 hfollows.2)
  | recycle now =>
      obtain ⟨⟨gone, hgone⟩, halive, _⟩ := recycleLoop_eq_ok rfl hstep
      exact (hpool.pop gone hgone halive).later hfollows.1

/-- The queue is short enough, or none of its connections has been idle for
too long at the last look at the front. -/
def NothingExpired (cfg : PoolConfig) (pool : ConnectionPool Caller Conn) (now : Conn → ℤ) :
    Prop :=
  (pool.connectionQueue_.length : ℤ) ≤ cfg.minSize_ ∨
    ∃ front ∈ pool.connectionQueue_.head?, ∀ conn ∈ pool.connectionQueue_,
      pool.getAliveTime conn (now front) < cfg.maxIdleTime_

omit [DecidableEq Caller] in
theorem InOrder.recycle {cfg : PoolConfig} {now : Conn → ℤ} {events}
    (hpool : pool.InOrder clock) (hmin : 0 ≤ cfg.minSize_)
    (hrecycle : pool.recycleConnection cfg now = .ok (next, events)) :
    NothingExpired cfg next now := by
  obtain ⟨⟨gone, hgone⟩, halive, hstop⟩ := recycleLoop_eq_ok rfl hrecycle
  have hnext := hpool.pop gone hgone halive
  rcases hstop with hshort | ⟨front, rest, hqueue, hfresh⟩
  · left
    unfold toSizeT at hshort
    omega
  · right
    refine ⟨front, by rw [hqueue]; rfl, ?_⟩
    intro conn hconn
    exact lt_of_le_of_lt (hnext.getAliveTime_le hqueue hconn (now front)) hfresh

theorem timedStep_eq_ok {cfg : PoolConfig} {s s' : TimedPool Caller Conn}
    {i : TimedInput Caller Conn} {events} :
    timedStep cfg s i = .ok (s', events) ↔
      Follows s.pool.connectionQueue_ s.clock i.clock i.input ∧
        s.pool.step cfg i.input = .ok (s'.pool, events) ∧ s'.clock = i.clock := by
  unfold timedStep
  split_ifs with hfollows
  · rw [bind_eq_ok]
    constructor
    · rintro ⟨⟨pool, events'⟩, hstep, hpure⟩
      cases hpure
      exact ⟨hfollows, hstep, rfl⟩
    · rintro ⟨_, hstep, hclock⟩
      refine ⟨(s'.pool, events), hstep, ?_⟩
      rw [← hclock]
      rfl
  · constructor
    · intro habsurd
      cases habsurd
    · exact fun h => absurd h.1 hfollows

/-- In every state that the critical sections reach, in any order and under a
clock that does not go back, the stamps of the queue are in order, and a pass
of the recycler leaves no connection that has been idle for too long. -/
theorem idle_order_of_reachable {cfg : PoolConfig} {aliveTime : Conn → ℤ}
    {created : ℕ → Conn × ℤ} {start : ConnectionPool Caller Conn} {s : TimedPool Caller Conn}
    (hmin : 0 ≤ cfg.minSize_) (hcreated : Monotone fun i => (created i).2)
    (hstart : construct cfg aliveTime created = .ok start)
    (hclock : ∀ i < cfg.minSize_.toNat, (created i).2 ≤ clock)
    (hreach : Reachable (timedStep cfg) ⟨start, clock⟩ s) :
    (s.pool.connectionQueue_.Pairwise fun conn other =>
        s.pool.aliveTime conn ≤ s.pool.aliveTime other) ∧
      ∀ now after next events, timedStep cfg s ⟨.recycle now, after⟩ = .ok (next, events) →
        NothingExpired cfg next.pool now := by
  have hinitial : start.Owned ∧ start.InOrder clock :=
    ⟨(owned_construct cfg aliveTime created).of_eq_ok hstart,
      inOrder_construct hcreated hstart hclock⟩
  have hstep : ∀ (s : TimedPool Caller Conn) (i : TimedInput Caller Conn)
      (next : TimedPool Caller Conn) (events : List (PoolEvent Caller Conn)),
      (s.pool.Owned ∧ s.pool.InOrder s.clock) → timedStep cfg s i = .ok (next, events) →
      next.pool.Owned ∧ next.pool.InOrder next.clock := by
    intro s i next events hs hnext
    obtain ⟨hfollows, hpool, hafter⟩ := timedStep_eq_ok.mp hnext
    refine ⟨((hs.1.step cfg i.input).of_eq_ok hpool).1, ?_⟩
    rw [hafter]
    exact hs.2.step hs.1 hfollows hpool
  have hinv : s.pool.Owned ∧ s.pool.InOrder s.clock := hreach.invariant hinitial hstep
  refine ⟨hinv.2.sorted, ?_⟩
  intro now after next events hnext
  exact hinv.2.recycle hmin (timedStep_eq_ok.mp hnext).2.1

/-- The second connection comes back before the first one. -/
theorem timedRun_idle :
    ∃ start : ConnectionPool ℕ ℕ, ∃ final calls,
      construct ⟨1, 4, 100⟩ (fun _ => 0) (fun i => (i, 0)) = .ok start ∧
      run (timedStep ⟨1, 4, 100⟩) ⟨start, 0⟩
          [⟨.getConnection 10, 0⟩, ⟨.getConnection 11, 1⟩, ⟨.produce 7 3, 3⟩, ⟨.wake 11, 4⟩,
            ⟨.release 11 7 5, 6⟩, ⟨.release 10 0 9, 9⟩] = .ok (final, calls) ∧
      final.pool.connectionQueue_ = [7, 0] ∧ final.clock = 9 :=
  ⟨_, _, _, rfl, rfl, rfl, rfl⟩

theorem idle_order_of_reachable_idle :
    ∃ start : ConnectionPool ℕ ℕ, ∃ s : TimedPool ℕ ℕ,
      construct ⟨1, 4, 100⟩ (fun _ => 0) (fun i => (i, 0)) = .ok start ∧
      Reachable (timedStep ⟨1, 4, 100⟩) ⟨start, 0⟩ s ∧
      s.pool.connectionQueue_ = [7, 0] ∧
      (s.pool.connectionQueue_.Pairwise fun conn other =>
        s.pool.aliveTime conn ≤ s.pool.aliveTime other) ∧
      ∀ now after next events,
        timedStep ⟨1, 4, 100⟩ s ⟨.recycle now, after⟩ = .ok (next, events) →
        NothingExpired ⟨1, 4, 100⟩ next.pool now := by
  obtain ⟨start, s, calls, hstart, hrun, hqueue, _⟩ := timedRun_idle
  have hreach := (Reachable.start.run hrun).1
  have horder := idle_order_of_reachable (show (0 : ℤ) ≤ 1 by decide) monotone_const hstart
    (fun _ _ => le_refl 0) hreach
  exact ⟨start, s, hstart, hreach, hqueue, horder⟩

end ConnectionPool

end MyFileServer
