import MyFileServer.Net.ConnectionPhase

/-!
# The life of a connection

A functor in the queue of some loop or an event of its channel takes a
connection from one phase to the next, and nothing else in the server is
touched.  The only event that breaks the order is one that reports a hangup
and urgent data without `EPOLLIN`, because then a read of the end of the
stream closes the connection a second time.
-/

namespace MyFileServer

open Execution

def LifeEvent.subject : LifeEvent → ℕ
  | .connectionCallback id _ => id
  | .closeCallback id => id
  | .erased id => id
  | .connectDestroyed id => id

def LoopFunctor.subject : LoopFunctor → ℕ
  | .connectEstablished id => id
  | .connectDestroyed id => id
  | .removeConnectionInLoop id => id
  | .callback id => id

/-- The functor takes the connection to another phase. -/
def LoopFunctor.moves (id : ℕ) : LoopFunctor → Bool
  | .connectEstablished moved => moved = id
  | .connectDestroyed moved => moved = id
  | .removeConnectionInLoop moved => moved = id
  | .callback _ => false

/-- A hangup that closes the connection is not followed by a read of the end
of the stream. -/
def ChannelEvent.ClosesOnce (event : ChannelEvent) : Prop :=
  (anyOf event.revents EPOLLHUP && !anyOf event.revents EPOLLIN) = true →
    anyOf event.revents (EPOLLIN ||| EPOLLPRI) = true → event.read ≠ .eof

def ServerInput.ClosesOnce : ServerInput → Prop
  | .event _ reported => reported.ClosesOnce
  | _ => True

/-- How many connections the input makes. -/
def ServerInput.cost : ServerInput → ℕ
  | .newConnection _ => 1
  | _ => 0

/-! ## The server at one connection -/

structure ConnectionView where
  conn : Connection
  history : List LifeEvent
  pending : ℕ → List LoopFunctor
  names : Set Bytes

def ConnectionView.note (v : ConnectionView) (event : LifeEvent) : ConnectionView :=
  { v with history := v.history ++ [event] }

/-- The connection is in the phase, and the functors that wait for it are the
given ones. -/
structure ConnectionView.At (v : ConnectionView) (id : ℕ) (phase : Phase)
    (waiting : ℕ → List LoopFunctor) : Prop where
  holds : phase.Holds v.conn
  history_eq : v.history = phase.history id
  pending_eq : v.pending = waiting
  names_eq : v.names = if phase.mapped then {v.conn.name_} else ∅

namespace TcpServer

def view (s : TcpServer) (id : ℕ) : ConnectionView where
  conn := s.objects id
  history := s.history.filter (·.subject = id)
  pending := fun loop => (s.pendingFunctors_ loop).filter (LoopFunctor.moves id)
  names := {name | s.connections_ name = some id}

section

variable {s : TcpServer} {id other : ℕ} {c : Connection} {event : LifeEvent}
  {functor : LoopFunctor} {loop : ℕ}

@[simp] theorem view_set_self : (s.set id c).view id = { s.view id with conn := c } := by
  simp [view, set]

theorem view_set_of_ne (h : other ≠ id) : (s.set id c).view other = s.view other := by
  simp [view, set, h]

theorem view_note_self (h : event.subject = id) :
    (s.note event).view id = (s.view id).note event := by
  simp [view, note, ConnectionView.note, h]

theorem view_note_of_ne (h : event.subject ≠ id) : (s.note event).view id = s.view id := by
  simp [view, note, h]

theorem view_setPending {functors : List LoopFunctor} :
    view { s with
      pendingFunctors_ := Function.update s.pendingFunctors_ loop functors } id =
      { s.view id with
        pending := Function.update (s.view id).pending loop
          (functors.filter (LoopFunctor.moves id)) } := by
  simp only [view, ConnectionView.mk.injEq, true_and, and_true]
  funext queue
  by_cases hqueue : queue = loop
  · subst hqueue
    simp
  · simp [hqueue]

/-- A queue that keeps the functors of the connection. -/
theorem view_setPending_eq_self {functors : List LoopFunctor}
    (hsame : functors.filter (LoopFunctor.moves id) = (s.view id).pending loop) :
    view { s with
      pendingFunctors_ := Function.update s.pendingFunctors_ loop functors } id =
      s.view id := by
  rw [view_setPending, hsame, Function.update_eq_self]

theorem view_queueInLoop_self (h : functor.moves id = true) :
    (s.queueInLoop loop functor).view id =
      { s.view id with
        pending := Function.update (s.view id).pending loop
          ((s.view id).pending loop ++ [functor]) } := by
  unfold queueInLoop
  rw [view_setPending, List.filter_append, List.filter_cons_of_pos h]
  rfl

theorem view_queueInLoop_of_not_moves (h : functor.moves id = false) :
    (s.queueInLoop loop functor).view id = s.view id := by
  apply view_setPending_eq_self
  rw [List.filter_append, List.filter_cons_of_neg (ne_true_of_eq_false h), List.filter_nil,
    List.append_nil]
  rfl

/-- The entry of `connections_` goes. -/
def forget (s : TcpServer) (name : Bytes) : TcpServer :=
  { s with connections_ := Function.update s.connections_ name none }

theorem view_forget_self {name : Bytes} :
    (s.forget name).view id = { s.view id with names := (s.view id).names \ {name} } := by
  simp only [view, forget, ConnectionView.mk.injEq, true_and]
  ext other
  by_cases hname : other = name
  · simp [hname]
  · simp [hname]

theorem view_forget_of_ne {name : Bytes} (hheld : s.connections_ name = some id)
    (h : other ≠ id) : (s.forget name).view other = s.view other := by
  simp only [view, forget, ConnectionView.mk.injEq, true_and]
  ext name'
  by_cases hname : name' = name
  · simp [hname, hheld, h.symm]
  · simp [hname]

/-- The first functor of a queue is taken. -/
def pop (s : TcpServer) (loop : ℕ) (rest : List LoopFunctor) : TcpServer :=
  { s with pendingFunctors_ := Function.update s.pendingFunctors_ loop rest }

theorem view_pop_of_not_moves {rest : List LoopFunctor}
    (hpending : s.pendingFunctors_ loop = functor :: rest) (h : functor.moves id = false) :
    (s.pop loop rest).view id = s.view id := by
  apply view_setPending_eq_self
  change _ = (s.pendingFunctors_ loop).filter (LoopFunctor.moves id)
  rw [hpending, List.filter_cons_of_neg (ne_true_of_eq_false h)]

theorem view_pop_self {rest : List LoopFunctor} :
    (s.pop loop rest).view id =
      { s.view id with
        pending := Function.update (s.view id).pending loop
          (rest.filter (LoopFunctor.moves id)) } :=
  view_setPending

end

/-- An operation on one connection. -/
structure OnlyTouches (id : ℕ) (s s' : TcpServer) : Prop where
  name_eq : s'.name_ = s.name_
  ipPort_eq : s'.ipPort_ = s.ipPort_
  made_eq : s'.made = s.made
  nextConnId_eq : s'.nextConnId_ = s.nextConnId_
  loop_eq : (s'.objects id).loop_ = (s.objects id).loop_
  connName_eq : (s'.objects id).name_ = (s.objects id).name_
  view_eq : ∀ other, other ≠ id → s'.view other = s.view other

theorem OnlyTouches.refl (id : ℕ) (s : TcpServer) : OnlyTouches id s s :=
  ⟨rfl, rfl, rfl, rfl, rfl, rfl, fun _ _ => rfl⟩

theorem OnlyTouches.trans {id : ℕ} {s s' s'' : TcpServer} (h : OnlyTouches id s s')
    (h' : OnlyTouches id s' s'') : OnlyTouches id s s'' where
  name_eq := h'.name_eq.trans h.name_eq
  ipPort_eq := h'.ipPort_eq.trans h.ipPort_eq
  made_eq := h'.made_eq.trans h.made_eq
  nextConnId_eq := h'.nextConnId_eq.trans h.nextConnId_eq
  loop_eq := h'.loop_eq.trans h.loop_eq
  connName_eq := h'.connName_eq.trans h.connName_eq
  view_eq := fun other hother => (h'.view_eq other hother).trans (h.view_eq other hother)

section

variable {s : TcpServer} {id : ℕ}

theorem onlyTouches_set {c : Connection} (hloop : c.loop_ = (s.objects id).loop_)
    (hname : c.name_ = (s.objects id).name_) : OnlyTouches id s (s.set id c) where
  name_eq := rfl
  ipPort_eq := rfl
  made_eq := rfl
  nextConnId_eq := rfl
  loop_eq := by rw [← hloop]; exact congrArg Connection.loop_ (Function.update_self ..)
  connName_eq := by rw [← hname]; exact congrArg Connection.name_ (Function.update_self ..)
  view_eq := fun _ hother => view_set_of_ne hother

theorem onlyTouches_note {event : LifeEvent} (h : event.subject = id) :
    OnlyTouches id s (s.note event) :=
  ⟨rfl, rfl, rfl, rfl, rfl, rfl, fun _ hother => view_note_of_ne (by rw [h]; exact hother.symm)⟩

theorem onlyTouches_forget {name : Bytes} (hheld : s.connections_ name = some id) :
    OnlyTouches id s (s.forget name) :=
  ⟨rfl, rfl, rfl, rfl, rfl, rfl, fun _ hother => view_forget_of_ne hheld hother⟩

theorem onlyTouches_queueInLoop {loop : ℕ} {functor : LoopFunctor}
    (h : ∀ other, other ≠ id → functor.moves other = false) :
    OnlyTouches id s (s.queueInLoop loop functor) :=
  ⟨rfl, rfl, rfl, rfl, rfl, rfl, fun other hother => view_queueInLoop_of_not_moves (h other hother)⟩

end

/-! ## Callbacks -/

section

variable {s s' : TcpServer} {id : ℕ} {phase : Phase} {waiting : ℕ → List LoopFunctor}

/-- What an operation on a connection that is in a phase ends with. -/
def Reaches (s : TcpServer) (id : ℕ) (phase : Phase) (waiting : ℕ → List LoopFunctor)
    (s' : TcpServer) : Prop :=
  OnlyTouches id s s' ∧ (s'.view id).At id phase waiting

theorem view_queueEffect (loop id other : ℕ) (s : TcpServer) (effect : Effect) :
    (queueEffect loop id s effect).view other = s.view other := by
  cases effect with
  | writeComplete => exact view_queueInLoop_of_not_moves rfl
  | highWaterMark len => exact view_queueInLoop_of_not_moves rfl
  | _ => rfl

theorem onlyTouches_queueEffects (loop id : ℕ) (s : TcpServer) (effects : List Effect) :
    OnlyTouches id s (effects.foldl (queueEffect loop id) s) ∧
      (effects.foldl (queueEffect loop id) s).view id = s.view id := by
  induction effects generalizing s with
  | nil => exact ⟨OnlyTouches.refl id s, rfl⟩
  | cons effect effects ih =>
      obtain ⟨htouch, hview⟩ := ih (queueEffect loop id s effect)
      have hfirst : OnlyTouches id s (queueEffect loop id s effect) := by
        cases effect with
        | writeComplete => exact onlyTouches_queueInLoop fun _ _ => rfl
        | highWaterMark len => exact onlyTouches_queueInLoop fun _ _ => rfl
        | _ => exact OnlyTouches.refl id s
      exact ⟨hfirst.trans htouch, hview.trans (view_queueEffect ..)⟩

theorem write_reaches (hs : (s.view id).At id phase waiting) (op : TcpConnection.Op) :
    Ends (fun _ => True) (Reaches s id phase waiting) (s.write id op) := by
  unfold write
  cases hwrite : (s.objects id).write op with
  | error fault => trivial
  | ok result =>
      obtain ⟨c, effects⟩ := result
      obtain ⟨hholds, hloop, hname⟩ := Connection.write_holds hs.holds hwrite
      obtain ⟨htouch, hview⟩ := onlyTouches_queueEffects c.loop_ id (s.set id c) effects
      refine ⟨(onlyTouches_set hloop hname).trans htouch, ?_⟩
      rw [hview, view_set_self]
      refine ⟨hholds, hs.history_eq, hs.pending_eq, ?_⟩
      rw [hname]
      exact hs.names_eq

theorem runCallback_reaches (hs : (s.view id).At id phase waiting) (ops : List CallbackOp) :
    Ends (fun _ => True) (Reaches s id phase waiting) (s.runCallback id ops) := by
  have hstep : ∀ (past : List CallbackOp) (t : TcpServer) (op : CallbackOp),
      Reaches s id phase waiting t →
      Ends (fun _ => True) (Reaches s id phase waiting) (t.write id op.toOp) := by
    intro past t op ht
    refine (write_reaches ht.2 op.toOp).mono ?_
    intro t' ht'
    exact ⟨ht.1.trans ht'.1, ht'.2⟩
  exact Ends.foldlM hstep [] ⟨OnlyTouches.refl id s, hs⟩ ops

/-! ## Transitions -/

/-- A new state of the connection, of which `connectionCallback_` is told. -/
theorem connectionCallback_reaches {c : Connection} {next : Phase}
    (hs : (s.view id).At id phase waiting) (hholds : next.Holds c)
    (hloop : c.loop_ = (s.objects id).loop_) (hname : c.name_ = (s.objects id).name_)
    (hhistory : next.history id = phase.history id ++ [.connectionCallback id c.connected])
    (hmapped : next.mapped = phase.mapped) (ops : List CallbackOp) :
    Ends (fun _ => True) (Reaches s id next waiting) ((s.set id c).connectionCallback id ops) := by
  have hobject : (s.set id c).objects id = c := Function.update_self ..
  have hsubject : (LifeEvent.connectionCallback id c.connected).subject = id := rfl
  have hnoted : (((s.set id c).note (.connectionCallback id c.connected)).view id).At id
      next waiting := by
    rw [view_note_self hsubject, view_set_self]
    refine ⟨hholds, ?_, hs.pending_eq, ?_⟩
    · rw [hhistory, ← hs.history_eq]
      rfl
    · rw [hmapped, ConnectionView.note, hname]
      exact hs.names_eq
  unfold connectionCallback
  rw [hobject]
  refine (runCallback_reaches hnoted ops).mono ?_
  intro t ht
  exact ⟨((onlyTouches_set hloop hname).trans (onlyTouches_note hsubject)).trans ht.1, ht.2⟩

theorem connectEstablished_reaches (hs : (s.view id).At id .opening fun _ => [])
    (ops : List CallbackOp) :
    Ends (fun _ => True) (Reaches s id .opened fun _ => []) (s.connectEstablished id ops) := by
  obtain ⟨_, hindex, _⟩ := hs.holds
  have hadded : (s.objects id).index_.afterUpdate (s.objects id).conn.channel_.enableReading =
      .kAdded := by
    rw [show (s.objects id).index_ = .kNew from hindex]
    rfl
  have hholds : Phase.opened.Holds (({ s.objects id with
      conn := { (s.objects id).conn with state_ := .kConnected } } : Connection).update
        (s.objects id).conn.channel_.enableReading) :=
    ⟨.inl rfl, hadded, Channel.isReading_enableReading _⟩
  exact connectionCallback_reaches hs hholds rfl rfl rfl rfl ops

theorem removeConnectionInLoop_reaches (hs : (s.view id).At id .closed fun _ => []) :
    Reaches s id .erased (Phase.erased.waiting id (s.objects id).loop_)
      (s.removeConnectionInLoop id) := by
  have hmapped : ∀ name, s.connections_ name = some id ↔ name = (s.objects id).name_ := by
    intro name
    exact Set.ext_iff.mp hs.names_eq name
  have hheld := (hmapped (s.objects id).name_).mpr rfl
  have heq : s.removeConnectionInLoop id =
      ((s.note (.erased id)).forget (s.objects id).name_).queueInLoop (s.objects id).loop_
        (.connectDestroyed id) := by
    unfold removeConnectionInLoop
    simp only [hheld]
    rfl
  have hsubject : (LifeEvent.erased id).subject = id := rfl
  have hmoves : ∀ other, other ≠ id → (LoopFunctor.connectDestroyed id).moves other = false := by
    intro other hother
    simp [LoopFunctor.moves, hother.symm]
  rw [heq]
  constructor
  · exact ((onlyTouches_note hsubject).trans (onlyTouches_forget hheld)).trans
      (onlyTouches_queueInLoop hmoves)
  · rw [view_queueInLoop_self (by simp [LoopFunctor.moves]), view_forget_self, view_note_self hsubject]
    refine ⟨hs.holds, ?_, ?_, ?_⟩
    · rw [ConnectionView.note, hs.history_eq]
      rfl
    · rw [ConnectionView.note, hs.pending_eq]
      rfl
    · rw [ConnectionView.note, hs.names_eq]
      exact Set.sdiff_self

/-- The connection waits for the functor that its phase is to wait for. -/
def Rests (s : TcpServer) (id : ℕ) (phase : Phase) : Prop :=
  (s.view id).At id phase (phase.waiting id (s.objects id).loop_)

/-- What an operation on a connection that exists ends with. -/
def Settles (s : TcpServer) (id : ℕ) (s' : TcpServer) : Prop :=
  OnlyTouches id s s' ∧ ∃ phase, phase ≠ .unborn ∧ Rests s' id phase

theorem Settles.of_reaches (h : Reaches s id phase waiting s') (hborn : phase ≠ .unborn)
    (hwaiting : waiting = phase.waiting id (s.objects id).loop_) : Settles s id s' := by
  refine ⟨h.1, phase, hborn, ?_⟩
  unfold Rests
  rw [h.1.loop_eq, ← hwaiting]
  exact h.2

theorem Settles.trans {s'' : TcpServer} (h : OnlyTouches id s s') (h' : Settles s' id s'') :
    Settles s id s'' :=
  ⟨h.trans h'.1, h'.2⟩

theorem removeConnection_settles (hs : (s.view id).At id .closed fun _ => []) :
    Settles s id (s.removeConnection id) := by
  unfold removeConnection
  by_cases hloop : (s.objects id).loop_ = 0
  · rw [if_pos hloop]
    exact Settles.of_reaches (removeConnectionInLoop_reaches hs) (by decide) rfl
  · rw [if_neg hloop]
    have hmoves : ∀ other, other ≠ id →
        (LoopFunctor.removeConnectionInLoop id).moves other = false := by
      intro other hother
      simp [LoopFunctor.moves, hother.symm]
    refine ⟨onlyTouches_queueInLoop hmoves, .closed, by decide, ?_⟩
    unfold Rests
    rw [view_queueInLoop_self (by simp [LoopFunctor.moves])]
    refine ⟨hs.holds, hs.history_eq, ?_, hs.names_eq⟩
    rw [hs.pending_eq]
    rfl

theorem handleClose_settles (hs : (s.view id).At id .opened fun _ => [])
    (ops : List CallbackOp) :
    Ends (fun _ => True) (Settles s id) (s.handleClose id ops) := by
  obtain ⟨_, hindex, _⟩ := hs.holds
  have hnone : (s.objects id).conn.channel_.disableAll.isNoneEvent = true := by
    rw [Channel.disableAll_eq]
    rfl
  have hdeleted : (s.objects id).index_.afterUpdate (s.objects id).conn.channel_.disableAll =
      .kDeleted := by
    rw [show (s.objects id).index_ = .kAdded from hindex]
    simp only [Index.afterUpdate, hnone, if_true]
  have hholds : Phase.down.Holds (({ s.objects id with
      conn := { (s.objects id).conn with state_ := .kDisconnected } } : Connection).update
        (s.objects id).conn.channel_.disableAll) :=
    ⟨rfl, hdeleted, Channel.disableAll_eq _⟩
  refine (connectionCallback_reaches hs hholds rfl rfl rfl rfl ops).bind ?_
  intro s₁ hs₁
  have hsubject : (LifeEvent.closeCallback id).subject = id := rfl
  have hnoted : ((s₁.note (.closeCallback id)).view id).At id .closed fun _ => [] := by
    rw [view_note_self hsubject]
    refine ⟨hs₁.2.holds, ?_, hs₁.2.pending_eq, hs₁.2.names_eq⟩
    rw [ConnectionView.note, hs₁.2.history_eq]
    rfl
  exact Settles.trans (hs₁.1.trans (onlyTouches_note hsubject))
    (removeConnection_settles hnoted)

theorem connectDestroyed_reaches (hs : (s.view id).At id .erased fun _ => [])
    (ops : List CallbackOp) :
    Ends (fun _ => True) (Reaches s id .destroyed fun _ => []) (s.connectDestroyed id ops) := by
  obtain ⟨hstate, _, hchannel⟩ := hs.holds
  have hdown : (s.objects id).conn.state_ ≠ .kConnected := by
    rw [show (s.objects id).conn.state_ = .kDisconnected from hstate]
    decide
  have hsubject : (LifeEvent.connectDestroyed id).subject = id := rfl
  have hremoved : OnlyTouches id s (s.set id { s.objects id with index_ := .kNew }) :=
    onlyTouches_set rfl rfl
  simp only [connectDestroyed, hdown, if_false]
  refine ⟨hremoved.trans (onlyTouches_note hsubject), ?_⟩
  rw [view_note_self hsubject, view_set_self]
  refine ⟨⟨hstate, rfl, hchannel⟩, ?_, hs.pending_eq, hs.names_eq⟩
  rw [ConnectionView.note, hs.history_eq]
  rfl

/-! ## Events -/

theorem handleRead_settles (hs : (s.view id).At id .opened fun _ => []) (event : ChannelEvent) :
    Ends (fun _ => True) (Settles s id) (s.handleRead id event) := by
  have hstays : ∀ t, Reaches s id .opened (fun _ => []) t → Settles s id t :=
    fun t ht => Settles.of_reaches ht (by decide) rfl
  unfold handleRead
  cases event.read with
  | data => exact (runCallback_reaches hs event.onMessage).mono hstays
  | eof => exact handleClose_settles hs event.onConnection
  | error => exact hstays s ⟨OnlyTouches.refl id s, hs⟩

theorem Settles.write (h : Settles s id s') (op : TcpConnection.Op) :
    Ends (fun _ => True) (Settles s id) (s'.write id op) := by
  obtain ⟨phase, hborn, hrests⟩ := h.2
  refine (write_reaches hrests op).mono ?_
  intro t ht
  exact Settles.trans h.1 (Settles.of_reaches ht hborn rfl)

/-- What an event does to an open connection, if a hangup that closes it is
not followed by a read of the end of the stream. -/
theorem handleEventWithGuard_settles {event : ChannelEvent} (hcloses : event.ClosesOnce)
    (hs : (s.view id).At id .opened fun _ => []) :
    Ends (fun _ => True) (Settles s id) (s.handleEventWithGuard id event) := by
  unfold handleEventWithGuard
  have hread : Ends (fun _ => True) (Settles s id)
      ((if anyOf event.revents EPOLLHUP && !anyOf event.revents EPOLLIN then
          s.handleClose id event.onConnection
        else .ok s) >>= fun s₁ =>
        if anyOf event.revents (EPOLLIN ||| EPOLLPRI) then s₁.handleRead id event else .ok s₁) := by
    by_cases hhup : (anyOf event.revents EPOLLHUP && !anyOf event.revents EPOLLIN) = true
    · rw [if_pos hhup]
      refine (handleClose_settles hs event.onConnection).bind ?_
      intro s₁ hs₁
      by_cases hin : anyOf event.revents (EPOLLIN ||| EPOLLPRI) = true
      · rw [if_pos hin]
        unfold handleRead
        obtain ⟨phase, hborn, hrests⟩ := hs₁.2
        cases hkind : event.read with
        | data =>
            refine (runCallback_reaches hrests event.onMessage).mono ?_
            intro t ht
            exact Settles.trans hs₁.1 (Settles.of_reaches ht hborn rfl)
        | eof => exact absurd hkind (hcloses hhup hin)
        | error => exact hs₁
      · rw [if_neg hin]
        exact hs₁
    · rw [if_neg hhup]
      by_cases hin : anyOf event.revents (EPOLLIN ||| EPOLLPRI) = true
      · simp only [bind, Except.bind, if_pos hin]
        exact handleRead_settles hs event
      · simp only [bind, Except.bind, if_neg hin]
        exact Settles.of_reaches ⟨OnlyTouches.refl id s, hs⟩ (by decide) rfl
  rw [← bind_assoc]
  refine hread.bind ?_
  intro s₁ hs₁
  by_cases hout : anyOf event.revents EPOLLOUT = true
  · rw [if_pos hout]
    exact hs₁.write (.handleWrite event.written)
  · rw [if_neg hout]
    exact hs₁

/-! ## Functors -/

theorem pop_at {loop : ℕ} {functor : LoopFunctor} {rest : List LoopFunctor}
    (hs : Rests s id phase) (hpending : s.pendingFunctors_ loop = functor :: rest)
    (hmoves : functor.moves id = true) :
    functor ∈ phase.waiting id (s.objects id).loop_ loop ∧
      ((s.pop loop rest).view id).At id phase fun _ => [] := by
  have hqueue : phase.waiting id (s.objects id).loop_ loop =
      functor :: rest.filter (LoopFunctor.moves id) := by
    rw [← hs.pending_eq]
    simp [view, hpending, hmoves]
  have hmem : functor ∈ phase.waiting id (s.objects id).loop_ loop := by
    rw [hqueue]
    exact List.mem_cons_self
  obtain ⟨hsingle, hnone⟩ := Phase.waiting_update_of_mem hmem
  have hrest : rest.filter (LoopFunctor.moves id) = [] := by
    rw [hsingle] at hqueue
    exact ((List.cons.inj hqueue).2).symm
  refine ⟨hmem, ?_⟩
  rw [view_pop_self, hrest]
  refine ⟨hs.holds, hs.history_eq, ?_, hs.names_eq⟩
  rw [hs.pending_eq]
  exact hnone

theorem onlyTouches_pop {loop : ℕ} {functor : LoopFunctor} {rest : List LoopFunctor}
    (hpending : s.pendingFunctors_ loop = functor :: rest)
    (hmoves : ∀ other, other ≠ id → functor.moves other = false) :
    OnlyTouches id s (s.pop loop rest) :=
  ⟨rfl, rfl, rfl, rfl, rfl, rfl, fun other hother =>
    view_pop_of_not_moves hpending (hmoves other hother)⟩

theorem moves_of_ne {functor : LoopFunctor} {other : ℕ} (h : other ≠ functor.subject) :
    functor.moves other = false := by
  cases functor with
  | callback _ => rfl
  | _ => exact decide_eq_false h.symm

/-- What an operation does to the connections, in any phase. -/
def Keeps (s : TcpServer) (id : ℕ) (phase : Phase) (s' : TcpServer) : Prop :=
  OnlyTouches id s s' ∧ ∃ next, (next = .unborn ↔ phase = .unborn) ∧ Rests s' id next

theorem Settles.keeps (h : Settles s id s') (hborn : phase ≠ .unborn) : Keeps s id phase s' := by
  obtain ⟨htouch, next, hnext, hrests⟩ := h
  exact ⟨htouch, next, iff_of_false hnext hborn, hrests⟩

theorem perform_keeps {loop : ℕ} {functor : LoopFunctor} {rest : List LoopFunctor}
    (hpending : s.pendingFunctors_ loop = functor :: rest)
    (hs : Rests s functor.subject phase) (ops : List CallbackOp) :
    Ends (fun _ => True) (Keeps s functor.subject phase)
      (TcpServer.perform (s.pop loop rest) ops functor) := by
  have hpop : OnlyTouches functor.subject s (s.pop loop rest) :=
    onlyTouches_pop hpending fun _ hother => moves_of_ne hother
  cases functor with
  | connectEstablished id =>
      obtain ⟨hmem, hat⟩ := pop_at hs hpending (decide_eq_true rfl)
      obtain ⟨_, rfl⟩ | ⟨habsurd, _⟩ | ⟨habsurd, _⟩ := Phase.mem_waiting hmem
      · refine (connectEstablished_reaches hat ops).mono ?_
        intro t ht
        exact (Settles.trans hpop (Settles.of_reaches ht (by decide) rfl)).keeps (by decide)
      · cases habsurd
      · cases habsurd
  | removeConnectionInLoop id =>
      obtain ⟨hmem, hat⟩ := pop_at hs hpending (decide_eq_true rfl)
      obtain ⟨habsurd, _⟩ | ⟨_, rfl⟩ | ⟨habsurd, _⟩ := Phase.mem_waiting hmem
      · cases habsurd
      · have hreach := removeConnectionInLoop_reaches hat
        exact (Settles.trans hpop (Settles.of_reaches hreach (by decide) rfl)).keeps (by decide)
      · cases habsurd
  | connectDestroyed id =>
      obtain ⟨hmem, hat⟩ := pop_at hs hpending (decide_eq_true rfl)
      obtain ⟨habsurd, _⟩ | ⟨habsurd, _⟩ | ⟨_, rfl⟩ := Phase.mem_waiting hmem
      · cases habsurd
      · cases habsurd
      · refine (connectDestroyed_reaches hat ops).mono ?_
        intro t ht
        exact (Settles.trans hpop (Settles.of_reaches ht (by decide) rfl)).keeps (by decide)
  | callback id =>
      have hat : ((s.pop loop rest).view id).At id phase
          (phase.waiting id (s.objects id).loop_) := by
        rw [view_pop_of_not_moves hpending rfl]
        exact hs
      refine (runCallback_reaches hat ops).mono ?_
      intro t ht
      have htouch := hpop.trans ht.1
      refine ⟨htouch, phase, Iff.rfl, ?_⟩
      unfold Rests
      rw [htouch.loop_eq]
      exact ht.2

end

/-! ## Names -/

section

variable {s s' : TcpServer}

theorem toIpPort_length (addr : InetAddress) : addr.toIpPort.length ≤ 21 := by
  have hoctet : ∀ octet : UInt8, (decimal octet.toNat).length ≤ 3 := by
    intro octet
    have hlt := octet.toNat_lt
    exact length_decimal_le (by decide) (by omega)
  obtain ⟨⟨a, b, c, d⟩, port⟩ := addr
  have hport : (decimal port.toNat).length ≤ 5 := by
    have hlt := port.toNat_lt
    exact length_decimal_le (by decide) (by omega)
  have ha := hoctet a
  have hb := hoctet b
  have hc := hoctet c
  have hd := hoctet d
  have hdot : (ascii ".").length = 1 := rfl
  have hcolon : (ascii ":").length = 1 := rfl
  simp only [InetAddress.toIpPort, List.length_append]
  omega

/-- The number in a name is not cut off, so that names differ. -/
theorem connName_injective (hport : s.ipPort_.length ≤ 21) {m n : ℕ} (hm : m < 2 ^ 31)
    (hn : n < 2 ^ 31) (h : s.connName m = s.connName n) : m = n := by
  have hdash : (ascii "-").length = 1 := rfl
  have hsharp : (ascii "#").length = 1 := rfl
  have hwhole : ∀ k : ℕ, k < 2 ^ 31 → s.connName k =
      s.name_ ++ (ascii "-" ++ s.ipPort_ ++ ascii "#" ++ decimal k) := by
    intro k hk
    have hlength : (decimal k).length ≤ 10 := length_decimal_le (by decide) (by omega)
    unfold connName
    rw [to_string_eq_decimal_iff.mpr rfl, List.take_of_length_le]
    simp only [List.length_append]
    omega
  rw [hwhole m hm, hwhole n hn] at h
  exact decimal_injective (List.append_cancel_left (List.append_cancel_left h))

/-! ## The invariant -/

/-- The server with at most `n` connections to come. -/
structure Lives (n : ℕ) (s : TcpServer) : Prop where
  rests : ∀ id, ∃ phase, (phase = .unborn ↔ s.made ≤ id) ∧ Rests s id phase
  names : ∀ id, id < s.made → (s.objects id).name_ = s.connName ((id + 1 : ℕ) : ℤ)
  nextConnId : s.made < 2 ^ 31 - 1 → s.nextConnId_ = ((s.made + 1 : ℕ) : ℤ)
  budget : s.made + n < 2 ^ 31
  ipPort : s.ipPort_.length ≤ 21

theorem lives_initial (listenAddr : InetAddress) (nameArg : Bytes) (complete : Bool)
    (numLoops : ℕ) {n : ℕ} (hn : n < 2 ^ 31) :
    Lives n (initial listenAddr nameArg complete numLoops) where
  rests := fun id => ⟨.unborn, iff_of_true rfl (Nat.zero_le id), ⟨rfl, rfl, rfl⟩, rfl, rfl, by
    ext name
    simp [view, initial, Phase.mapped]⟩
  names := fun id hid => absurd hid (Nat.not_lt_zero id)
  nextConnId := fun _ => rfl
  budget := by
    simp only [initial]
    omega
  ipPort := toIpPort_length listenAddr

theorem Lives.keeps {n id : ℕ} {phase : Phase} (hs : Lives n s) (h : Keeps s id phase s')
    (hphase : phase = .unborn ↔ s.made ≤ id) : Lives n s' := by
  obtain ⟨htouch, next, hnext, hrests⟩ := h
  constructor
  · intro other
    rw [htouch.made_eq]
    by_cases hother : other = id
    · subst hother
      exact ⟨next, hnext.trans hphase, hrests⟩
    · obtain ⟨old, hold, hold'⟩ := hs.rests other
      refine ⟨old, hold, ?_⟩
      have hview := htouch.view_eq other hother
      have hobject : s'.objects other = s.objects other := congrArg ConnectionView.conn hview
      unfold Rests
      rw [hview, hobject]
      exact hold'
  · intro other hlt
    rw [htouch.made_eq] at hlt
    have hname := hs.names other hlt
    unfold connName at hname ⊢
    rw [htouch.name_eq, htouch.ipPort_eq, ← hname]
    by_cases hother : other = id
    · rw [hother]
      exact htouch.connName_eq
    · have hobject := congrArg ConnectionView.conn (htouch.view_eq other hother)
      exact congrArg Connection.name_ hobject
  · intro hlt
    rw [htouch.made_eq] at hlt ⊢
    rw [htouch.nextConnId_eq]
    exact hs.nextConnId hlt
  · rw [htouch.made_eq]
    exact hs.budget
  · rw [htouch.ipPort_eq]
    exact hs.ipPort

/-! ## New connections -/

/-- The entry of the new connection, before its loop is told. -/
def enter (s : TcpServer) (ioLoop next_ : ℕ) (name : Bytes) : TcpServer :=
  { s with
    next_
    nextConnId_ := incInt s.nextConnId_
    made := s.made + 1
    objects := Function.update s.objects s.made
      ⟨{ writeCompleteCallback_ := s.writeCompleteCallback_ }, .kNew, ioLoop, name⟩
    connections_ := Function.update s.connections_ name (some s.made) }

theorem newConnection_eq (hfree : s.connections_ (s.connName s.nextConnId_) = none)
    (ops : List CallbackOp) :
    s.newConnection ops =
      if s.nextLoop.1 = 0 then
        (s.enter s.nextLoop.1 s.nextLoop.2 (s.connName s.nextConnId_)).connectEstablished s.made ops
      else
        .ok ((s.enter s.nextLoop.1 s.nextLoop.2 (s.connName s.nextConnId_)).queueInLoop
          s.nextLoop.1 (.connectEstablished s.made)) := by
  unfold newConnection
  simp only [hfree]
  rfl

theorem enter_objects_self (ioLoop next_ : ℕ) (name : Bytes) :
    (s.enter ioLoop next_ name).objects s.made =
      ⟨{ writeCompleteCallback_ := s.writeCompleteCallback_ }, .kNew, ioLoop, name⟩ :=
  Function.update_self ..

theorem Lives.connName_free {n : ℕ} (hs : Lives (1 + n) s) :
    s.connections_ (s.connName ((s.made + 1 : ℕ) : ℤ)) = none := by
  have hbudget := hs.budget
  cases hheld : s.connections_ (s.connName ((s.made + 1 : ℕ) : ℤ)) with
  | none => rfl
  | some id =>
      obtain ⟨phase, hborn, hrests⟩ := hs.rests id
      have hmem : s.connName ((s.made + 1 : ℕ) : ℤ) ∈ (s.view id).names := hheld
      rw [hrests.names_eq] at hmem
      by_cases hmapped : phase.mapped = true
      · rw [if_pos hmapped] at hmem
        have hlt : id < s.made := by
          by_contra hge
          rw [hborn.mpr (Nat.le_of_not_lt hge)] at hmapped
          cases hmapped
        have hsame : s.connName ((s.made + 1 : ℕ) : ℤ) = s.connName ((id + 1 : ℕ) : ℤ) :=
          hmem.trans (hs.names id hlt)
        have habsurd := connName_injective hs.ipPort (by omega) (by omega) hsame
        omega
      · rw [if_neg hmapped] at hmem
        cases hmem

theorem enter_at (ioLoop next_ : ℕ) (name : Bytes) (hs : Rests s s.made .unborn) :
    ((s.enter ioLoop next_ name).view s.made).At s.made .opening fun _ => [] := by
  have hnames : ∀ other, s.connections_ other ≠ some s.made := by
    intro other hheld
    have hmem : other ∈ (s.view s.made).names := hheld
    rw [hs.names_eq] at hmem
    cases hmem
  refine ⟨?_, hs.history_eq, hs.pending_eq, ?_⟩
  · simp [view, enter, Phase.Holds]
  · ext other
    by_cases hother : other = name
    · simp [view, enter, Phase.mapped, hother]
    · simp [view, enter, Phase.mapped, hother, hnames other]

theorem view_enter_of_ne (ioLoop next_ : ℕ) {name : Bytes} (hfree : s.connections_ name = none)
    {other : ℕ} (hother : other ≠ s.made) :
    (s.enter ioLoop next_ name).view other = s.view other := by
  simp only [view, enter, ConnectionView.mk.injEq, true_and]
  refine ⟨Function.update_of_ne hother _ _, ?_⟩
  ext name'
  by_cases hname : name' = name
  · simp [hname, hfree, hother.symm]
  · simp [hname]

theorem incInt_of_lt {n : ℕ} (hn : n < 2 ^ 31 - 1) : incInt (n : ℤ) = ((n + 1 : ℕ) : ℤ) := by
  unfold incInt
  rw [if_neg (by omega)]
  rfl

theorem Lives.enter {n ioLoop next_ : ℕ} (hs : Lives (1 + n) s)
    (h : Settles (s.enter ioLoop next_ (s.connName ((s.made + 1 : ℕ) : ℤ))) s.made s') :
    Lives n s' := by
  have hbudget := hs.budget
  have hmade : s'.made = s.made + 1 := h.1.made_eq
  have hview : ∀ other, other ≠ s.made → s'.view other = s.view other := by
    intro other hother
    exact (h.1.view_eq other hother).trans (view_enter_of_ne ioLoop next_ hs.connName_free hother)
  have hobject : ∀ other, other ≠ s.made → s'.objects other = s.objects other :=
    fun other hother => congrArg ConnectionView.conn (hview other hother)
  constructor
  · intro id
    rw [hmade]
    by_cases hid : id = s.made
    · obtain ⟨phase, hborn, hrests⟩ := h.2
      rw [hid]
      exact ⟨phase, iff_of_false hborn (by omega), hrests⟩
    · obtain ⟨phase, hborn, hrests⟩ := hs.rests id
      refine ⟨phase, hborn.trans (by omega), ?_⟩
      unfold Rests
      rw [hview id hid, hobject id hid]
      exact hrests
  · intro id hlt
    rw [hmade] at hlt
    have hconnName : ∀ k : ℤ, s'.connName k = s.connName k := by
      intro k
      unfold connName
      rw [h.1.name_eq, h.1.ipPort_eq]
      rfl
    rw [hconnName]
    by_cases hid : id = s.made
    · rw [hid, h.1.connName_eq, enter_objects_self]
    · rw [hobject id hid]
      exact hs.names id (by omega)
  · intro hlt
    rw [hmade] at hlt ⊢
    rw [h.1.nextConnId_eq]
    change incInt s.nextConnId_ = _
    rw [hs.nextConnId (by omega)]
    exact incInt_of_lt (by omega)
  · rw [hmade]
    omega
  · rw [h.1.ipPort_eq]
    exact hs.ipPort

theorem newConnection_lives {n : ℕ} (hs : Lives (1 + n) s) (ops : List CallbackOp) :
    Ends (fun _ => True) (Lives n) (s.newConnection ops) := by
  have hbudget := hs.budget
  obtain ⟨phase, hborn, hrests⟩ := hs.rests s.made
  obtain rfl := hborn.mpr (le_refl _)
  have hname : s.connName s.nextConnId_ = s.connName ((s.made + 1 : ℕ) : ℤ) := by
    rw [hs.nextConnId (by omega)]
  have hat := enter_at s.nextLoop.1 s.nextLoop.2 (s.connName ((s.made + 1 : ℕ) : ℤ)) hrests
  have hmoves : ∀ other, other ≠ s.made →
      (LoopFunctor.connectEstablished s.made).moves other = false := by
    intro other hother
    exact decide_eq_false hother.symm
  rw [newConnection_eq (by rw [hname]; exact hs.connName_free), hname]
  by_cases hmain : s.nextLoop.1 = 0
  · rw [if_pos hmain]
    refine (connectEstablished_reaches hat ops).mono ?_
    intro t ht
    exact hs.enter (Settles.of_reaches ht (by decide) rfl)
  · rw [if_neg hmain]
    refine hs.enter ⟨onlyTouches_queueInLoop hmoves, .opening, by decide, ?_⟩
    unfold Rests
    rw [view_queueInLoop_self (by simp [LoopFunctor.moves])]
    refine ⟨hat.holds, hat.history_eq, ?_, hat.names_eq⟩
    rw [hat.pending_eq]
    change _ = Function.update (fun _ => []) 
      ((s.enter s.nextLoop.1 s.nextLoop.2 _).objects s.made).loop_ _
    rw [enter_objects_self]
    rfl

theorem step_lives {n : ℕ} (s : TcpServer) (input : ServerInput) (hcloses : input.ClosesOnce)
    (hs : Lives (input.cost + n) s) :
    Ends (fun _ => True) (fun r => Lives n r.1) (s.step input) := by
  cases input with
  | newConnection ops =>
      exact (newConnection_lives hs ops).bind fun t ht => ht
  | functor loop ops =>
      have hs : Lives n s := by simpa [ServerInput.cost] using hs
      simp only [step]
      cases hpending : s.pendingFunctors_ loop with
      | nil => trivial
      | cons functor rest =>
          obtain ⟨phase, hborn, hrests⟩ := hs.rests functor.subject
          refine (perform_keeps hpending hrests ops).bind ?_
          intro t ht
          exact hs.keeps ht hborn
  | event id event =>
      have hs : Lives n s := by simpa [ServerInput.cost] using hs
      simp only [step]
      by_cases henabled : id < s.made ∧ (s.objects id).index_ = .kAdded
      · rw [if_pos henabled]
        obtain ⟨phase, hborn, hrests⟩ := hs.rests id
        have hopened : phase = .opened := by
          by_contra hother
          exact (Phase.quiet_of_ne_opened hrests.holds hother).2.1 henabled.2
        subst hopened
        refine (handleEventWithGuard_settles hcloses hrests).bind ?_
        intro t ht
        exact hs.keeps (ht.keeps (by decide)) hborn
      · rw [if_neg henabled]
        trivial

/-! ## Runs -/

/-- The order of the life of a connection. -/
def lifeCycle (id : ℕ) : List LifeEvent :=
  [.connectionCallback id true, .connectionCallback id false, .closeCallback id, .erased id,
    .connectDestroyed id]

/-- What was observed of each connection is a beginning of its life cycle. -/
def Orderly (s : TcpServer) : Prop :=
  ∀ id, s.history.filter (·.subject = id) <+: lifeCycle id

theorem history_prefix (id : ℕ) (phase : Phase) : phase.history id <+: lifeCycle id := by
  cases phase with
  | unborn => exact List.nil_prefix
  | opening => exact List.nil_prefix
  | opened => exact ⟨_, rfl⟩
  | down => exact ⟨_, rfl⟩
  | closed => exact ⟨_, rfl⟩
  | erased => exact ⟨_, rfl⟩
  | destroyed => exact ⟨_, rfl⟩

theorem Lives.orderly {n : ℕ} (hs : Lives n s) : Orderly s := by
  intro id
  obtain ⟨phase, _, hrests⟩ := hs.rests id
  have hhistory : s.history.filter (·.subject = id) = phase.history id := hrests.history_eq
  rw [hhistory]
  exact history_prefix id phase

theorem orderly_of_run (listenAddr : InetAddress) (nameArg : Bytes) (complete : Bool)
    (numLoops : ℕ) {inputs : List ServerInput} (hcount : (inputs.map ServerInput.cost).sum < 2 ^ 31)
    (hcloses : ∀ input ∈ inputs, input.ClosesOnce)
    {final : TcpServer} {calls : List (Call TcpServer ServerInput Unit)}
    (hrun : run step (initial listenAddr nameArg complete numLoops) inputs = .ok (final, calls)) :
    Orderly final ∧ ∀ call ∈ calls, Orderly call.pre := by
  have hstep : ∀ n s (input : ServerInput), input.ClosesOnce → Lives (input.cost + n) s →
      Ends (fun _ => True) (fun r => Lives n r.1) (s.step input) :=
    fun n s input hinput hs => step_lives s input hinput hs
  have hends := Ends.run_budget hstep hcloses (lives_initial listenAddr nameArg complete numLoops hcount)
  obtain ⟨hfinal, hcalls⟩ := hends.of_eq_ok hrun
  refine ⟨hfinal.orderly, ?_⟩
  intro call hcall
  obtain ⟨n, hn⟩ := hcalls call hcall
  exact hn.orderly

end

/-! ## One connection, closed once and closed twice -/

def inaddrAny : InetAddress := ⟨(0, 0, 0, 0), 8080⟩

/-- A connection on one io loop that ends with the end of its stream, up to
`connectDestroyed`. -/
def oneConnection : List ServerInput :=
  [.newConnection [], .functor 1 [],
    .event 0 { revents := EPOLLIN, read := .eof, written := .wrote 0 },
    .functor 0 [], .functor 1 []]

theorem run_oneConnection :
    (run step (initial inaddrAny (ascii "HttpServer") false 1) oneConnection).map
      (fun r => r.1.history) = .ok (lifeCycle 0) := rfl

theorem orderly_of_run_oneConnection :
    ∃ final calls,
      run step (initial inaddrAny (ascii "HttpServer") false 1) oneConnection = .ok (final, calls) ∧
      final.history = lifeCycle 0 ∧ Orderly final ∧ ∀ call ∈ calls, Orderly call.pre := by
  obtain ⟨⟨final, calls⟩, hrun, hhistory⟩ := exists_of_map_eq_ok run_oneConnection
  have hcloses : ∀ input ∈ oneConnection, input.ClosesOnce := by
    intro input hinput
    fin_cases hinput
    · trivial
    · trivial
    · exact fun habsurd => absurd habsurd (by decide)
    · trivial
    · trivial
  have horderly := orderly_of_run inaddrAny (ascii "HttpServer") false 1 (by decide) hcloses hrun
  exact ⟨final, calls, hrun, hhistory, horderly⟩

/-- The hangup closes the connection and the read closes it again. -/
def urgentHangup : List ServerInput :=
  [.newConnection [], .functor 1 [],
    .event 0 { revents := EPOLLHUP ||| EPOLLPRI, read := .eof, written := .wrote 0 }]

theorem run_urgentHangup :
    (run step (initial inaddrAny (ascii "HttpServer") false 1) urgentHangup).map
      (fun r => r.1.history) =
      .ok [.connectionCallback 0 true, .connectionCallback 0 false, .closeCallback 0,
        .connectionCallback 0 false, .closeCallback 0] := rfl

theorem not_orderly_urgentHangup :
    ∃ final calls,
      run step (initial inaddrAny (ascii "HttpServer") false 1) urgentHangup = .ok (final, calls) ∧
      ¬ Orderly final := by
  obtain ⟨⟨final, calls⟩, hrun, hhistory⟩ := exists_of_map_eq_ok run_urgentHangup
  refine ⟨final, calls, hrun, ?_⟩
  intro horderly
  have hprefix := horderly 0
  rw [hhistory] at hprefix
  exact absurd hprefix (by decide)

end TcpServer

end MyFileServer
