import MyFileServer.Mysql.ConnectionPool

/-!
# What the pool counts

`addConnection` counts the new connection and both of its callers count it
again, so `currentSize_` runs ahead of the number of connections by one for
each connection created.  The bound `maxSize_` is kept, but connections that
were deleted are not replaced.
-/

namespace MyFileServer

open Execution

namespace ConnectionPool

variable {Caller Conn : Type}

/-- The connections in the queue and those that are lent. -/
def existing (pool : ConnectionPool Caller Conn) : ℤ :=
  pool.connectionQueue_.length + pool.lent.length

theorem increment_eq_ok {size size' : ℤ} (h : increment size = .ok size') :
    size' = size + 1 := by
  unfold increment at h
  split_ifs at h
  exact (Except.ok.inj h).symm

theorem decrement_eq_ok {size size' : ℤ} (h : decrement size = .ok size') :
    size' = size - 1 := by
  unfold decrement at h
  split_ifs at h
  exact (Except.ok.inj h).symm

/-- The connection that is created counts twice. -/
structure Adds (pool next : ConnectionPool Caller Conn) : Prop where
  currentSize_eq : next.currentSize_ = pool.currentSize_ + 2
  existing_eq : next.existing = pool.existing + 1

/-- Each connection that is deleted counts once. -/
structure Drops (n : ℕ) (pool next : ConnectionPool Caller Conn) : Prop where
  currentSize_eq : next.currentSize_ = pool.currentSize_ - n
  existing_eq : next.existing = pool.existing - n

theorem Drops.refl (pool : ConnectionPool Caller Conn) : Drops 0 pool pool := by
  constructor <;> simp

theorem drops_of_takeOrWait {pool next : ConnectionPool Caller Conn} {caller : Caller}
    {events} (h : pool.takeOrWait caller = .ok (next, events)) : Drops 0 pool next := by
  unfold takeOrWait at h
  cases hqueue : pool.connectionQueue_ with
  | nil =>
      rw [hqueue, if_pos List.isEmpty_nil] at h
      cases h
      constructor <;> simp [existing, hqueue]
  | cons conn rest =>
      rw [hqueue, if_neg (by simp)] at h
      cases h
      constructor
      · simp
      · simp [existing, hqueue]
        omega

variable [DecidableEq Conn]

theorem adds_of_addAndCount {pool next : ConnectionPool Caller Conn} {fresh : Conn}
    {now : ℤ} (h : pool.addAndCount fresh now = .ok next) : Adds pool next := by
  unfold addAndCount addConnection at h
  obtain ⟨added, hadded, hcount⟩ := bind_eq_ok.mp h
  split_ifs at hadded
  obtain ⟨size, hsize, hpure⟩ := bind_eq_ok.mp hadded
  obtain ⟨size', hsize', hpure'⟩ := bind_eq_ok.mp hcount
  cases hpure
  cases hpure'
  have hfirst := increment_eq_ok hsize
  have hsecond := increment_eq_ok hsize'
  constructor
  · change size' = pool.currentSize_ + 2
    rw [hsecond, hfirst]
    change pool.currentSize_ + 1 + 1 = _
    omega
  · simp [existing, refreshAliveTime]
    omega

theorem drops_of_giveBack [DecidableEq Caller] {pool next : ConnectionPool Caller Conn}
    {caller : Caller} {conn : Conn} {now : ℤ} {events}
    (hlent : (caller, conn) ∈ pool.lent)
    (h : pool.giveBack caller conn now = .ok (next, events)) : Drops 0 pool next := by
  have hlength := List.length_erase_add_one hlent
  unfold giveBack at h
  split_ifs at h
  cases h
  constructor
  · simp [refreshAliveTime]
  · simp [existing, refreshAliveTime]
    omega

theorem drops_of_recycleLoop {cfg : PoolConfig} {now : Conn → ℤ} {queue : List Conn}
    {pool next : ConnectionPool Caller Conn} {events}
    (hqueue : pool.connectionQueue_ = queue)
    (h : recycleLoop cfg now queue pool = .ok (next, events)) :
    ∃ n, Drops n pool next := by
  induction queue generalizing pool events with
  | nil =>
      cases h
      exact ⟨0, Drops.refl _⟩
  | cons conn rest ih =>
      unfold recycleLoop at h
      split_ifs at h
      · obtain ⟨size, hsize, hloop⟩ := bind_eq_ok.mp h
        obtain ⟨result, hresult, hpure⟩ := bind_eq_ok.mp hloop
        cases hpure
        obtain ⟨n, hdrops⟩ := ih rfl hresult
        have hfirst := decrement_eq_ok hsize
        have hsizes := hdrops.currentSize_eq
        have hexist := hdrops.existing_eq
        refine ⟨n + 1, ?_, ?_⟩
        · rw [hsizes]
          push_cast
          omega
        · rw [hexist]
          simp [existing, hqueue]
          omega
      · cases h
        exact ⟨0, Drops.refl _⟩
      · cases h
        exact ⟨0, Drops.refl _⟩

variable [DecidableEq Caller]

/-- What a step does to the two counts. -/
theorem step_counts {cfg : PoolConfig} {pool next : ConnectionPool Caller Conn}
    {input : PoolInput Caller Conn} {events}
    (h : pool.step cfg input = .ok (next, events)) :
    ((∃ fresh now, input = .produce fresh now) ∧ pool.connectionQueue_ = [] ∧
        pool.currentSize_ < cfg.maxSize_ ∧ Adds pool next) ∨
      ((∀ fresh now, input = .produce fresh now →
          pool.connectionQueue_ ≠ [] ∨ cfg.maxSize_ ≤ pool.currentSize_) ∧
        ∃ n, Drops n pool next) := by
  cases input with
  | getConnection caller =>
      simp only [step] at h
      split_ifs at h
      exact Or.inr ⟨by simp, 0, drops_of_takeOrWait h⟩
  | wake caller =>
      simp only [step] at h
      split_ifs at h
      have hdrops := drops_of_takeOrWait h
      exact Or.inr ⟨by simp, 0, hdrops.currentSize_eq, hdrops.existing_eq⟩
  | release caller conn now =>
      simp only [step] at h
      split_ifs at h with hlent
      exact Or.inr ⟨by simp, 0, drops_of_giveBack hlent h⟩
  | produce fresh now =>
      simp only [step, produceConnection] at h
      split_ifs at h with hqueue hsize
      · cases h
        refine Or.inr ⟨?_, 0, Drops.refl pool⟩
        intro _ _ _
        left
        intro hempty
        simp [hempty] at hqueue
      · obtain ⟨added, hadded, hpure⟩ := bind_eq_ok.mp h
        cases hpure
        refine Or.inl ⟨⟨fresh, now, rfl⟩, by simpa using hqueue, hsize, ?_⟩
        exact adds_of_addAndCount hadded
      · cases h
        exact Or.inr ⟨fun _ _ _ => Or.inr (by omega), 0, Drops.refl pool⟩
  | recycle now => exact Or.inr ⟨by simp, drops_of_recycleLoop rfl h⟩

/-- Nothing was created yet, or the counter is ahead. -/
structure Fresh (pool : ConnectionPool Caller Conn) : Prop where
  currentSize_eq : pool.currentSize_ = 0
  existing_eq : pool.existing = 0

structure Bounded (cfg : PoolConfig) (pool : ConnectionPool Caller Conn) : Prop where
  existing_le_currentSize : pool.existing ≤ pool.currentSize_
  existing_le_maxSize : pool.existing ≤ cfg.maxSize_

omit [DecidableEq Conn] [DecidableEq Caller] in
theorem existing_nonneg (pool : ConnectionPool Caller Conn) : 0 ≤ pool.existing := by
  unfold existing
  omega

omit [DecidableEq Conn] [DecidableEq Caller] in
theorem Fresh.queue_eq_nil {pool : ConnectionPool Caller Conn} (hpool : pool.Fresh) :
    pool.connectionQueue_ = [] := by
  have hzero := hpool.existing_eq
  unfold existing at hzero
  exact List.length_eq_zero_iff.mp (by omega)

theorem Bounded.step {cfg : PoolConfig} {pool next : ConnectionPool Caller Conn}
    {input : PoolInput Caller Conn} {events} (hpool : pool.Bounded cfg)
    (h : pool.step cfg input = .ok (next, events)) : next.Bounded cfg := by
  obtain ⟨hahead, hmax⟩ := hpool
  rcases step_counts h with ⟨_, _, hroom, hsize, hexist⟩ | ⟨_, n, hsize, hexist⟩
  · constructor <;> omega
  · constructor <;> omega

/-- The counter never falls back. -/
theorem ahead_step {cfg : PoolConfig} {pool next : ConnectionPool Caller Conn}
    {input : PoolInput Caller Conn} {events} (hpool : pool.existing < pool.currentSize_)
    (h : pool.step cfg input = .ok (next, events)) :
    next.existing < next.currentSize_ := by
  rcases step_counts h with ⟨_, _, _, hsize, hexist⟩ | ⟨_, n, hsize, hexist⟩ <;> omega

/-- The input lets the producer create a first connection. -/
def MayCreate (cfg : PoolConfig) (input : PoolInput Caller Conn) : Prop :=
  0 < cfg.maxSize_ ∧ ∃ fresh now, input = .produce fresh now

theorem Fresh.step_create {cfg : PoolConfig} {pool next : ConnectionPool Caller Conn}
    {input : PoolInput Caller Conn} {events} (hpool : pool.Fresh)
    (hinput : MayCreate cfg input) (h : pool.step cfg input = .ok (next, events)) :
    next.existing < next.currentSize_ := by
  have hsize₀ := hpool.currentSize_eq
  have hexist₀ := hpool.existing_eq
  obtain ⟨hmax, fresh, now, hproduce⟩ := hinput
  rcases step_counts h with ⟨_, _, _, hsize, hexist⟩ | ⟨hidle, _⟩
  · omega
  · rcases hidle fresh now hproduce with hqueue | hfull
    · exact absurd hpool.queue_eq_nil hqueue
    · omega

theorem Fresh.step {cfg : PoolConfig} {pool next : ConnectionPool Caller Conn}
    {input : PoolInput Caller Conn} {events} (hpool : pool.Fresh)
    (hinput : ¬ MayCreate cfg input) (h : pool.step cfg input = .ok (next, events)) :
    next.Fresh := by
  have hsize₀ := hpool.currentSize_eq
  have hexist₀ := hpool.existing_eq
  rcases step_counts h with ⟨hproduce, _, hroom, _⟩ | ⟨_, n, hsize, hexist⟩
  · exact absurd ⟨by omega, hproduce⟩ hinput
  · have hnext := existing_nonneg next
    constructor <;> omega

/-! ## The constructor -/

omit [DecidableEq Caller] in
theorem construct_counts {cfg : PoolConfig} {aliveTime : Conn → ℤ} {created : ℕ → Conn × ℤ}
    {start : ConnectionPool Caller Conn} (h : construct cfg aliveTime created = .ok start) :
    start.currentSize_ = 2 * cfg.minSize_.toNat ∧ start.existing = cfg.minSize_.toNat := by
  let Counts (past : List ℕ) (pool : ConnectionPool Caller Conn) : Prop :=
    pool.currentSize_ = 2 * (past.length : ℤ) ∧ pool.existing = (past.length : ℤ)
  have hround : ∀ past pool i, Counts past pool →
      Ends (fun _ => True) (Counts (past ++ [i]))
        (pool.addAndCount (created i).1 (created i).2) := by
    intro past pool i ⟨hpool, hpool'⟩
    cases hadd : pool.addAndCount (created i).1 (created i).2 with
    | error stop => trivial
    | ok next =>
        have hadds := adds_of_addAndCount hadd
        have hsize := hadds.currentSize_eq
        have hexist := hadds.existing_eq
        change Counts (past ++ [i]) next
        simp only [Counts, List.length_append, List.length_singleton]
        push_cast
        constructor <;> omega
  have hempty : Counts [] (empty aliveTime) := by
    simp [Counts, empty, existing]
  have hloop := Ends.foldlM hround [] hempty (List.range cfg.minSize_.toNat)
  have hstart := hloop.of_eq_ok h
  simpa [Counts] using hstart

/-! ## When the counts agree -/

/-- What the counter is for. -/
structure Accounted (cfg : PoolConfig) (pool : ConnectionPool Caller Conn) : Prop where
  counted : pool.currentSize_ = pool.existing
  bounded : pool.existing ≤ cfg.maxSize_
  produces : pool.connectionQueue_ = [] → pool.existing < cfg.maxSize_ →
    ∀ fresh, fresh ∉ pool.heap → ∀ now,
      ∃ next, pool.produceConnection cfg fresh now = .ok (next, [.created fresh])

omit [DecidableEq Caller] in
theorem Fresh.addAndCount {pool : ConnectionPool Caller Conn} (hpool : pool.Fresh)
    {fresh : Conn} (hfresh : fresh ∉ pool.heap) (now : ℤ) :
    ∃ next, pool.addAndCount fresh now = .ok next := by
  have hfirst : increment pool.currentSize_ = .ok 1 := by
    rw [hpool.currentSize_eq]
    rfl
  have hadded : ∃ added, pool.addConnection fresh now = .ok added ∧ added.currentSize_ = 1 := by
    unfold addConnection
    rw [if_neg hfresh]
    exact ⟨_, bind_eq_ok.mpr ⟨1, hfirst, rfl⟩, rfl⟩
  obtain ⟨added, hok, hone⟩ := hadded
  have hsecond : increment added.currentSize_ = .ok 2 := by
    rw [hone]
    rfl
  exact ⟨_, bind_eq_ok.mpr ⟨added, hok, bind_eq_ok.mpr ⟨2, hsecond, rfl⟩⟩⟩

omit [DecidableEq Caller] in
theorem Fresh.accounted {cfg : PoolConfig} {pool : ConnectionPool Caller Conn}
    (hpool : pool.Fresh) (hmax : 0 ≤ cfg.maxSize_) : pool.Accounted cfg where
  counted := by rw [hpool.currentSize_eq, hpool.existing_eq]
  bounded := by rw [hpool.existing_eq]; exact hmax
  produces := by
    intro hqueue hroom fresh hfresh now
    rw [hpool.existing_eq] at hroom
    unfold produceConnection
    rw [hqueue, if_neg (by simp), hpool.currentSize_eq, if_pos hroom]
    obtain ⟨next, hnext⟩ := hpool.addAndCount hfresh now
    exact ⟨next, bind_eq_ok.mpr ⟨next, hnext, rfl⟩⟩

theorem bounded_of_reachable {cfg : PoolConfig} (hmin : 0 ≤ cfg.minSize_)
    (hmax : cfg.minSize_ ≤ cfg.maxSize_) {aliveTime : Conn → ℤ} {created : ℕ → Conn × ℤ}
    {start pool : ConnectionPool Caller Conn}
    (hstart : construct cfg aliveTime created = .ok start)
    (hreach : Reachable (ConnectionPool.step cfg) start pool) : pool.Bounded cfg := by
  obtain ⟨hsize, hexist⟩ := construct_counts hstart
  refine hreach.invariant ⟨by omega, by omega⟩ ?_
  intro pool input next events hpool hnext
  exact hpool.step hnext

theorem ahead_run {cfg : PoolConfig} {start final : ConnectionPool Caller Conn}
    {inputs : List (PoolInput Caller Conn)} {calls}
    (hstart : start.existing < start.currentSize_)
    (hrun : run (ConnectionPool.step cfg) start inputs = .ok (final, calls)) :
    final.existing < final.currentSize_ := by
  have hstep : ∀ (pool : ConnectionPool Caller Conn) input next events,
      pool.existing < pool.currentSize_ → True →
      pool.step cfg input = .ok (next, events) → next.existing < next.currentSize_ :=
    fun _ _ _ _ hpool _ hnext => ahead_step hpool hnext
  exact (run_invariant hstep hrun hstart (fun _ _ => trivial)).1

theorem Fresh.run {cfg : PoolConfig} {start final : ConnectionPool Caller Conn}
    {inputs : List (PoolInput Caller Conn)} {calls} (hstart : start.Fresh)
    (hrun : Execution.run (ConnectionPool.step cfg) start inputs = .ok (final, calls)) :
    ((∀ input ∈ inputs, ¬ MayCreate cfg input) → final.Fresh) ∧
      ((∃ input ∈ inputs, MayCreate cfg input) → final.existing < final.currentSize_) := by
  induction inputs generalizing start calls with
  | nil =>
      obtain ⟨rfl, _⟩ := run_nil_eq_ok.mp hrun
      exact ⟨fun _ => hstart, by simp⟩
  | cons input inputs ih =>
      obtain ⟨next, events, rest, hfirst, hrest, _⟩ := run_cons_eq_ok.mp hrun
      by_cases hinput : MayCreate cfg input
      · have hnext := hstart.step_create hinput hfirst
        refine ⟨fun hnone => absurd hinput (hnone input (by simp)), ?_⟩
        intro _
        exact ahead_run hnext hrest
      · have htail := ih (hstart.step hinput hfirst) hrest
        simpa [hinput] using htail

/-- The bounds hold in every run; the counts agree in those that never create a
connection. -/
theorem accounted_iff {cfg : PoolConfig} (hmin : 0 ≤ cfg.minSize_)
    (hmax : cfg.minSize_ ≤ cfg.maxSize_) {aliveTime : Conn → ℤ} {created : ℕ → Conn × ℤ}
    {start final : ConnectionPool Caller Conn} {inputs : List (PoolInput Caller Conn)} {calls}
    (hstart : construct cfg aliveTime created = .ok start)
    (hrun : run (ConnectionPool.step cfg) start inputs = .ok (final, calls)) :
    final.Bounded cfg ∧
      (final.Accounted cfg ↔
        cfg.minSize_ = 0 ∧
          (cfg.maxSize_ = 0 ∨ ∀ fresh now, .produce fresh now ∉ inputs)) := by
  refine ⟨bounded_of_reachable hmin hmax hstart (Reachable.start.run hrun).1, ?_⟩
  obtain ⟨hsize, hexist⟩ := construct_counts hstart
  by_cases hzero : cfg.minSize_ = 0
  · have hfresh : start.Fresh := ⟨by omega, by omega⟩
    obtain ⟨hquiet, hcreate⟩ := hfresh.run hrun
    constructor
    · intro hfinal
      refine ⟨hzero, ?_⟩
      by_contra hbusy
      push Not at hbusy
      obtain ⟨hpos, fresh, now, hproduce⟩ := hbusy
      have hahead := hcreate ⟨_, hproduce, by omega, fresh, now, rfl⟩
      have hcounted := hfinal.counted
      omega
    · rintro ⟨_, hcond⟩
      refine (hquiet ?_).accounted (by omega)
      rintro input hinput ⟨hpos, fresh, now, rfl⟩
      rcases hcond with hmax₀ | hnone
      · omega
      · exact hnone fresh now hinput
  · have hahead := ahead_run (by omega) hrun
    constructor
    · intro hfinal
      have hcounted := hfinal.counted
      omega
    · rintro ⟨habsurd, _⟩
      exact absurd habsurd hzero

theorem run_unused :
    ∃ start final : ConnectionPool ℕ ℕ, ∃ calls,
      construct ⟨0, 3, 100⟩ (fun _ => 0) (fun i => (i, 0)) = .ok start ∧
      run (ConnectionPool.step ⟨0, 3, 100⟩) start [.getConnection 10, .wake 10] =
        .ok (final, calls) ∧
      final.waiting = [10] :=
  ⟨_, _, _, rfl, rfl, rfl⟩

theorem accounted_iff_unused :
    ∃ start final : ConnectionPool ℕ ℕ, ∃ calls,
      construct ⟨0, 3, 100⟩ (fun _ => 0) (fun i => (i, 0)) = .ok start ∧
      run (ConnectionPool.step ⟨0, 3, 100⟩) start [.getConnection 10, .wake 10] =
        .ok (final, calls) ∧
      final.waiting = [10] ∧ final.Accounted ⟨0, 3, 100⟩ := by
  obtain ⟨start, final, calls, hstart, hrun, hwaiting⟩ := run_unused
  refine ⟨start, final, calls, hstart, hrun, hwaiting, ?_⟩
  obtain ⟨_, hiff⟩ := @accounted_iff _ _ _ _ ⟨0, 3, 100⟩ (by decide) (by decide) _ _ _ _ _ _ hstart hrun
  exact hiff.mpr ⟨rfl, Or.inr (by simp)⟩

/-- After the only connection is lent, the producer finds the queue empty and
one connection where two are allowed, and creates none. -/
theorem not_accounted_lent :
    ∃ start final : ConnectionPool ℕ ℕ, ∃ calls,
      construct ⟨1, 2, 100⟩ (fun _ => 0) (fun i => (i, 0)) = .ok start ∧
      run (ConnectionPool.step ⟨1, 2, 100⟩) start [.getConnection 10, .produce 7 3] =
        .ok (final, calls) ∧
      final.currentSize_ = 2 ∧ final.existing = 1 ∧ final.connectionQueue_ = [] ∧
      ¬ final.Accounted ⟨1, 2, 100⟩ := by
  refine ⟨_, _, _, rfl, rfl, rfl, rfl, rfl, ?_⟩
  intro hfinal
  have hcounted := hfinal.counted
  cases hcounted

end ConnectionPool

end MyFileServer
