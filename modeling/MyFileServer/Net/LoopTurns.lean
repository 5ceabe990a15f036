import MyFileServer.Lib.RoundRobin
import MyFileServer.Net.ConnectionLifecycle
import MyFileServer.Net.LoopThreadStart

/-!
# The loops of the connections

`newConnection` deals the connections to the loops in turn, and nothing moves a
connection to another loop.
-/

namespace MyFileServer

open Execution Finset

namespace TcpServer

/-- What no function but `newConnection` changes. -/
structure KeepsTurns (s s' : TcpServer) : Prop where
  made_eq : s'.made = s.made
  next_eq : s'.next_ = s.next_
  numLoops_eq : s'.numLoops = s.numLoops
  loop_eq : ∀ id, (s'.objects id).loop_ = (s.objects id).loop_

section

variable {s s' s'' : TcpServer} {id loop : ℕ}

theorem KeepsTurns.refl (s : TcpServer) : KeepsTurns s s :=
  ⟨rfl, rfl, rfl, fun _ => rfl⟩

theorem KeepsTurns.trans (h : KeepsTurns s s') (h' : KeepsTurns s' s'') : KeepsTurns s s'' :=
  ⟨h'.made_eq.trans h.made_eq, h'.next_eq.trans h.next_eq,
    h'.numLoops_eq.trans h.numLoops_eq, fun id => (h'.loop_eq id).trans (h.loop_eq id)⟩

theorem keepsTurns_set {c : Connection} (hloop : c.loop_ = (s.objects id).loop_) :
    KeepsTurns s (s.set id c) := by
  refine ⟨rfl, rfl, rfl, fun other => ?_⟩
  change (Function.update s.objects id c other).loop_ = _
  by_cases hother : other = id
  · rw [hother, Function.update_self]
    exact hloop
  · rw [Function.update_of_ne hother]

theorem keepsTurns_note (s : TcpServer) (event : LifeEvent) : KeepsTurns s (s.note event) :=
  ⟨rfl, rfl, rfl, fun _ => rfl⟩

theorem keepsTurns_queueEffects (loop id : ℕ) (s : TcpServer) (effects : List Effect) :
    KeepsTurns s (effects.foldl (queueEffect loop id) s) := by
  induction effects generalizing s with
  | nil => exact .refl s
  | cons effect effects ih =>
      have hfirst : KeepsTurns s (queueEffect loop id s effect) := by
        cases effect <;> exact ⟨rfl, rfl, rfl, fun _ => rfl⟩
      exact hfirst.trans (ih _)

theorem keepsTurns_write (s : TcpServer) (id : ℕ) (op : TcpConnection.Op) :
    Ends (fun _ => True) (KeepsTurns s) (s.write id op) := by
  unfold write
  cases hwrite : (s.objects id).write op with
  | error fault => trivial
  | ok result =>
      obtain ⟨c, effects⟩ := result
      have hloop : c.loop_ = (s.objects id).loop_ := by
        obtain ⟨⟨conn, _⟩, _, hrest⟩ := bind_eq_ok.mp hwrite
        dsimp only at hrest
        split at hrest <;> cases hrest <;> rfl
      exact (keepsTurns_set hloop).trans (keepsTurns_queueEffects _ _ _ _)

theorem keepsTurns_runCallback (s : TcpServer) (id : ℕ) (ops : List CallbackOp) :
    Ends (fun _ => True) (KeepsTurns s) (s.runCallback id ops) := by
  have hstep : ∀ (past : List CallbackOp) (t : TcpServer) (op : CallbackOp), KeepsTurns s t →
      Ends (fun _ => True) (KeepsTurns s) (t.write id op.toOp) := by
    intro past t op ht
    exact (keepsTurns_write t id op.toOp).mono fun _ h => ht.trans h
  exact Ends.foldlM hstep [] (.refl s) ops

theorem keepsTurns_connectionCallback (s : TcpServer) (id : ℕ) (ops : List CallbackOp) :
    Ends (fun _ => True) (KeepsTurns s) (s.connectionCallback id ops) :=
  (keepsTurns_runCallback _ id ops).mono fun _ h => (keepsTurns_note s _).trans h

theorem keepsTurns_connectEstablished (s : TcpServer) (id : ℕ) (ops : List CallbackOp) :
    Ends (fun _ => True) (KeepsTurns s) (s.connectEstablished id ops) := by
  refine (keepsTurns_connectionCallback _ id ops).mono fun _ h => KeepsTurns.trans ?_ h
  exact keepsTurns_set rfl

theorem keepsTurns_connectDestroyed (s : TcpServer) (id : ℕ) (ops : List CallbackOp) :
    Ends (fun _ => True) (KeepsTurns s) (s.connectDestroyed id ops) := by
  have hafter : ∀ t, KeepsTurns s t → KeepsTurns s
      ((t.set id { t.objects id with index_ := .kNew }).note (.connectDestroyed id)) := by
    intro t ht
    have hset : KeepsTurns t (t.set id { t.objects id with index_ := .kNew }) :=
      keepsTurns_set rfl
    exact (ht.trans hset).trans (keepsTurns_note _ _)
  unfold connectDestroyed
  dsimp only
  by_cases hconnected : (s.objects id).conn.state_ = .kConnected
  · rw [if_pos hconnected]
    refine Ends.bind ?_ hafter
    refine (keepsTurns_connectionCallback _ id ops).mono fun _ h => KeepsTurns.trans ?_ h
    exact keepsTurns_set rfl
  · rw [if_neg hconnected]
    exact hafter s (.refl s)

theorem keepsTurns_removeConnectionInLoop (s : TcpServer) (id : ℕ) :
    KeepsTurns s (s.removeConnectionInLoop id) := by
  unfold removeConnectionInLoop
  dsimp only
  cases s.connections_ (s.objects id).name_ <;> exact ⟨rfl, rfl, rfl, fun _ => rfl⟩

theorem keepsTurns_removeConnection (s : TcpServer) (id : ℕ) :
    KeepsTurns s (s.removeConnection id) := by
  unfold removeConnection
  split
  · exact keepsTurns_removeConnectionInLoop s id
  · exact ⟨rfl, rfl, rfl, fun _ => rfl⟩

theorem keepsTurns_handleClose (s : TcpServer) (id : ℕ) (ops : List CallbackOp) :
    Ends (fun _ => True) (KeepsTurns s) (s.handleClose id ops) := by
  unfold handleClose
  dsimp only
  refine (keepsTurns_connectionCallback _ id ops).bind ?_
  intro t ht
  refine KeepsTurns.trans (KeepsTurns.trans ?_ ht) ?_
  · exact keepsTurns_set rfl
  · exact (keepsTurns_note t _).trans (keepsTurns_removeConnection _ id)

theorem keepsTurns_handleEventWithGuard (s : TcpServer) (id : ℕ) (event : ChannelEvent) :
    Ends (fun _ => True) (KeepsTurns s) (s.handleEventWithGuard id event) := by
  have hread : ∀ t, Ends (fun _ => True) (KeepsTurns t) (t.handleRead id event) := by
    intro t
    unfold handleRead
    cases event.read with
    | data => exact keepsTurns_runCallback t id event.onMessage
    | eof => exact keepsTurns_handleClose t id event.onConnection
    | error => exact .refl t
  have hclose : Ends (fun _ => True) (KeepsTurns s)
      (if anyOf event.revents EPOLLHUP && !anyOf event.revents EPOLLIN then
        s.handleClose id event.onConnection
      else .ok s) := by
    split
    · exact keepsTurns_handleClose s id event.onConnection
    · exact .refl s
  have hin : ∀ t, KeepsTurns s t → Ends (fun _ => True) (KeepsTurns s)
      (if anyOf event.revents (EPOLLIN ||| EPOLLPRI) then t.handleRead id event else .ok t) := by
    intro t ht
    split
    · exact (hread t).mono fun _ h => ht.trans h
    · exact ht
  unfold handleEventWithGuard
  refine hclose.bind fun t ht => (hin t ht).bind ?_
  intro u hu
  split
  · exact (keepsTurns_write u id _).mono fun _ h => hu.trans h
  · exact hu

theorem keepsTurns_perform (s : TcpServer) (ops : List CallbackOp) (functor : LoopFunctor) :
    Ends (fun _ => True) (KeepsTurns s) (s.perform ops functor) := by
  cases functor with
  | connectEstablished id => exact keepsTurns_connectEstablished s id ops
  | connectDestroyed id => exact keepsTurns_connectDestroyed s id ops
  | removeConnectionInLoop id => exact keepsTurns_removeConnectionInLoop s id
  | callback id => exact keepsTurns_runCallback s id ops

/-! ## Turns -/

/-- The loop of the connection that is made `k`-th, counted from zero. -/
def turn (n k : ℕ) : ℕ := if n = 0 then 0 else k % n + 1

/-- The loops have been taken in turn. -/
structure Turns (n : ℕ) (s : TcpServer) : Prop where
  numLoops_eq : s.numLoops = n
  next_eq : s.next_ = if n = 0 then 0 else s.made % n
  loop_eq : ∀ id < s.made, (s.objects id).loop_ = turn n id

theorem turns_initial (listenAddr : InetAddress) (nameArg : Bytes) (complete : Bool) (n : ℕ) :
    Turns n (initial listenAddr nameArg complete n) := by
  refine ⟨rfl, ?_, fun id hid => absurd hid (Nat.not_lt_zero id)⟩
  simp [initial]

theorem Turns.keeps {n : ℕ} (hs : Turns n s) (h : KeepsTurns s s') : Turns n s' where
  numLoops_eq := h.numLoops_eq.trans hs.numLoops_eq
  next_eq := by rw [h.next_eq, h.made_eq, hs.next_eq]
  loop_eq := by
    intro id hid
    rw [h.made_eq] at hid
    rw [h.loop_eq]
    exact hs.loop_eq id hid

/-- `nextLoop` is the turn of the next connection. -/
theorem Turns.nextLoop_eq {n : ℕ} (hs : Turns n s) :
    s.nextLoop = (turn n s.made, if n = 0 then 0 else (s.made + 1) % n) := by
  unfold nextLoop turn
  rw [hs.numLoops_eq, hs.next_eq]
  by_cases hn : n = 0
  · simp [hn]
  · simp only [if_neg hn]
    rw [← RoundRobin.advance_mod (Nat.pos_of_ne_zero hn)]
    rfl

theorem Turns.enter {n : ℕ} (hs : Turns n s) (name : Bytes) :
    Turns n (s.enter s.nextLoop.1 s.nextLoop.2 name) := by
  have hnext := hs.nextLoop_eq
  refine ⟨hs.numLoops_eq, ?_, ?_⟩
  · change s.nextLoop.2 = _
    rw [hnext]
    rfl
  · intro id hid
    change id < s.made + 1 at hid
    by_cases hlast : id = s.made
    · rw [hlast, enter_objects_self, hnext]
    · change (Function.update s.objects s.made _ id).loop_ = _
      rw [Function.update_of_ne hlast]
      exact hs.loop_eq id (by omega)

theorem Turns.newConnection {n : ℕ} (hs : Turns n s) (ops : List CallbackOp) :
    Ends (fun _ => True) (Turns n) (s.newConnection ops) := by
  have hentered : ∀ t : TcpServer, t = s ∨ (∃ held, t = s.note (.erased held)) →
      Turns n (t.enter s.nextLoop.1 s.nextLoop.2 (s.connName s.nextConnId_)) := by
    rintro t (rfl | ⟨held, rfl⟩)
    · exact hs.enter _
    · exact (hs.enter (s.connName s.nextConnId_)).keeps ⟨rfl, rfl, rfl, fun _ => rfl⟩
  have hafter : ∀ t, Turns n t → Ends (fun _ => True) (Turns n)
      (if s.nextLoop.1 = 0 then t.connectEstablished s.made ops
        else .ok (t.queueInLoop s.nextLoop.1 (.connectEstablished s.made))) := by
    intro t ht
    split
    · exact (keepsTurns_connectEstablished t s.made ops).mono fun _ h => ht.keeps h
    · exact ht.keeps ⟨rfl, rfl, rfl, fun _ => rfl⟩
  unfold TcpServer.newConnection
  dsimp only
  cases hheld : s.connections_ (s.connName s.nextConnId_) with
  | none => exact hafter _ (hentered s (.inl rfl))
  | some held => exact hafter _ (hentered _ (.inr ⟨held, rfl⟩))

theorem step_turns {n : ℕ} (hs : Turns n s) (input : ServerInput) :
    Ends (fun _ => True) (fun r => Turns n r.1) (s.step input) := by
  cases input with
  | newConnection ops => exact (hs.newConnection ops).bind fun t ht => ht
  | functor loop ops =>
      simp only [step]
      cases hpending : s.pendingFunctors_ loop with
      | nil => trivial
      | cons functor rest =>
          refine (keepsTurns_perform _ ops functor).bind ?_
          intro t ht
          have hpop : KeepsTurns s (s.pop loop rest) := ⟨rfl, rfl, rfl, fun _ => rfl⟩
          exact hs.keeps (hpop.trans ht)
  | event id event =>
      simp only [step]
      split
      · exact (keepsTurns_handleEventWithGuard s id event).bind fun t ht => hs.keeps ht
      · trivial

end

/-- What the threads of the loops call a loop, as the server numbers it. -/
def loopIndex : Option ℕ → ℕ
  | none => 0
  | some i => i + 1

/-- What is promised of the loops of the connections. -/
structure InTurns (n : ℕ) (s : TcpServer) : Prop where
  /-- A connection is in the loop that it was given, and the loops are given in
  turn. -/
  placed : ∀ id < s.made, (s.objects id).loop_ = turn n id
  /-- Of any two loops neither has got two connections more than the other. -/
  balanced : ∀ a b, a < n → b < n →
    ((range s.made).filter fun id => (s.objects id).loop_ = a + 1).card ≤
      ((range s.made).filter fun id => (s.objects id).loop_ = b + 1).card + 1
  /-- The next one is what `getNextLoop` takes from the loops that were started. -/
  dealt : ∀ pool : EventLoopThreadPool, pool.loops_ = List.range n → pool.next_ = s.next_ →
    s.nextLoop = (loopIndex pool.getNextLoop.1, pool.getNextLoop.2.next_)

theorem Turns.balanced {n : ℕ} {s : TcpServer} (hs : Turns n s) {a b : ℕ} (ha : a < n)
    (hb : b < n) : ((range s.made).filter fun id => (s.objects id).loop_ = a + 1).card ≤
      ((range s.made).filter fun id => (s.objects id).loop_ = b + 1).card + 1 := by
  have hn : 0 < n := Nat.zero_lt_of_lt ha
  have hturns : ∀ c, ((range s.made).filter fun id => (s.objects id).loop_ = c + 1) =
      (range s.made).filter fun id => id % n = c := by
    intro c
    refine filter_congr fun id hid => ?_
    rw [hs.loop_eq id (mem_range.mp hid), turn, if_neg hn.ne', Nat.add_right_cancel_iff]
  rw [hturns, hturns]
  exact RoundRobin.card_turns_le hn ha hb s.made

theorem Turns.dealt {n : ℕ} {s : TcpServer} (hs : Turns n s) {pool : EventLoopThreadPool}
    (hloops : pool.loops_ = List.range n) (hnext : pool.next_ = s.next_) :
    s.nextLoop = (loopIndex pool.getNextLoop.1, pool.getNextLoop.2.next_) := by
  rcases Nat.eq_zero_or_pos n with rfl | hn
  · simp [EventLoopThreadPool.getNextLoop, hloops, nextLoop, hs.numLoops_eq, hnext, loopIndex]
  · have hcursor : s.next_ < n := by
      rw [hs.next_eq, if_neg hn.ne']
      exact Nat.mod_lt _ hn
    obtain ⟨first, rest, hcons⟩ : ∃ first rest, List.range n = first :: rest :=
      List.exists_cons_of_ne_nil (by simpa using hn.ne')
    have hlength : pool.loops_.length = n := by rw [hloops, List.length_range]
    have hat : pool.loops_[pool.next_]? = some s.next_ := by
      rw [hloops, hnext, List.getElem?_range hcursor]
    have hcall : pool.getNextLoop = (some s.next_, { pool with next_ :=
        if pool.loops_.length ≤ pool.next_ + 1 then 0 else pool.next_ + 1 }) := by
      rw [← hat]
      unfold EventLoopThreadPool.getNextLoop
      split
      next hnone =>
        rw [hnone] at hlength
        exact absurd hlength hn.ne
      next => rfl
    rw [hcall]
    simp only [nextLoop, hs.numLoops_eq, if_neg hn.ne', loopIndex, hlength, hnext]

theorem loops_in_turns (listenAddr : InetAddress) (nameArg : Bytes) (complete : Bool) (n : ℕ)
    {inputs : List ServerInput} {final : TcpServer} {calls}
    (hrun : run step (initial listenAddr nameArg complete n) inputs = .ok (final, calls)) :
    InTurns n final ∧ ∀ call ∈ calls, InTurns n call.pre := by
  have hstep : ∀ s (input : ServerInput) next output, Turns n s → True →
      step s input = .ok (next, output) → Turns n next := by
    intro s input next output hs _ hnext
    exact (step_turns hs input).of_eq_ok hnext
  have hturns : ∀ s, Turns n s → InTurns n s := fun s hs =>
    ⟨hs.loop_eq, fun _ _ ha hb => hs.balanced ha hb, fun _ hloops hnext => hs.dealt hloops hnext⟩
  obtain ⟨hfinal, hcalls⟩ := run_invariant hstep hrun
    (turns_initial listenAddr nameArg complete n) fun _ _ => trivial
  exact ⟨hturns final hfinal, fun call hcall => hturns call.pre (hcalls call hcall)⟩

/-- Three connections on two loops. -/
theorem loops_in_turns_three :
    ∃ final calls, run step (initial inaddrAny (ascii "HttpServer") false 2)
        [.newConnection [], .newConnection [], .functor 2 [], .newConnection []] =
          .ok (final, calls) ∧
      (List.range 3).map (fun id => (final.objects id).loop_) = [1, 2, 1] ∧
      InTurns 2 final ∧ ∀ call ∈ calls, InTurns 2 call.pre := by
  have hrun : ∃ final calls, run step (initial inaddrAny (ascii "HttpServer") false 2)
      [.newConnection [], .newConnection [], .functor 2 [], .newConnection []] =
        .ok (final, calls) ∧
      (List.range 3).map (fun id => (final.objects id).loop_) = [1, 2, 1] := ⟨_, _, rfl, rfl⟩
  obtain ⟨final, calls, hrun, hloops⟩ := hrun
  exact ⟨final, calls, hrun, hloops, loops_in_turns _ _ _ 2 hrun⟩

end TcpServer

end MyFileServer
