import MyFileServer.Lib.PartialIndex
import MyFileServer.Net.ServerPollers

/-!
# Descriptors

The pollers were shown to be right for channels whose descriptors differ.  In
the server a descriptor comes back after its connection is gone, so what has to
hold is that a channel has left its poller before its descriptor is closed.
That a connection that is not held is in no poller comes from the life of the
connections.
-/

namespace MyFileServer

open Execution PartialIndex

namespace EPollPoller

variable {Ptr : Type} [DecidableEq Ptr] {fd : Ptr → ℤ} {s : EPollPoller Ptr} {ch : Ptr}

/-- The poller with one channel in a new state, and both copies of its
registration after it. -/
def settle (s : EPollPoller Ptr) (fd : Ptr → ℤ) (ch : Ptr) (channel : Channel) (index : Index) :
    EPollPoller Ptr where
  channels_ := Function.update s.channels_ (fd ch) (if index = .kNew then none else some ch)
  interest := Function.update s.interest (fd ch)
    (if index = .kAdded then some ⟨channel.events_, ch⟩ else none)
  channel := Function.update s.channel ch channel
  index_ := Function.update s.index_ ch index

/-- Whatever other channels do, as long as they do not use the descriptor. -/
theorem change_of_registeredAt (hs : RegisteredAt fd s ch) (f : Channel → Channel) :
    ∃ calls, s.change fd ch f =
        .ok (s.settle fd ch (f (s.channel ch)) ((s.index_ ch).afterUpdate (f (s.channel ch))),
          calls) ∧
      ∀ call ∈ calls, call.succeeded = true := by
  have hinterest := hs.interest_eq
  have hchannels := hs.channels_eq
  unfold change updateChannel
  cases hindex : s.index_ ch with
  | kNew =>
      rw [hindex, if_neg (by decide)] at hinterest
      rw [if_pos (Or.inl rfl), if_pos rfl, update_add (by exact hinterest)]
      refine ⟨[⟨.EPOLL_CTL_ADD, true⟩], ?_, by simp⟩
      simp [set_index, settle, Index.afterUpdate]
  | kDeleted =>
      rw [hindex, if_neg (by decide)] at hinterest
      rw [hindex, if_neg (by decide)] at hchannels
      rw [if_pos (Or.inr rfl), if_neg (by decide), update_add (by exact hinterest)]
      refine ⟨[⟨.EPOLL_CTL_ADD, true⟩], ?_, by simp⟩
      simp [set_index, settle, Index.afterUpdate, hchannels]
  | kAdded =>
      rw [hindex, if_pos rfl] at hinterest
      rw [hindex, if_neg (by decide)] at hchannels
      rw [if_neg (by decide)]
      by_cases hnone : (f (s.channel ch)).isNoneEvent = true
      · rw [if_pos (by simpa using hnone), update_del (by exact hinterest)]
        refine ⟨[⟨.EPOLL_CTL_DEL, true⟩], ?_, by simp⟩
        simp [set_index, settle, Index.afterUpdate, hnone, bind, Except.bind, pure, Except.pure,
          hchannels]
      · rw [if_neg (by simpa using hnone), update_mod (by exact hinterest)]
        refine ⟨[⟨.EPOLL_CTL_MOD, true⟩], ?_, by simp⟩
        simp [settle, Index.afterUpdate, hnone, hchannels, hindex]

theorem removeChannel_of_registeredAt (hs : RegisteredAt fd s ch) :
    ∃ calls, s.removeChannel fd ch = .ok (s.settle fd ch (s.channel ch) .kNew, calls) ∧
      ∀ call ∈ calls, call.succeeded = true := by
  have hinterest := hs.interest_eq
  unfold removeChannel
  by_cases hindex : s.index_ ch = .kAdded
  · rw [if_pos hindex] at hinterest
    dsimp only
    rw [if_pos hindex, update_del (by exact hinterest)]
    refine ⟨[⟨.EPOLL_CTL_DEL, true⟩], ?_, by simp⟩
    simp [set_index, settle, bind, Except.bind, pure, Except.pure]
  · rw [if_neg hindex] at hinterest
    dsimp only
    rw [if_neg hindex]
    refine ⟨[], ?_, by simp⟩
    simp [set_index, settle, pure, Except.pure, hinterest]

end EPollPoller

namespace PolledServer

/-- The poller of the loop knows the connection by the descriptor, -/
def Known (s : PolledServer) (loop : ℕ) (fd : ℤ) (id : ℕ) : Prop :=
  (s.server.objects id).loop_ = loop ∧ s.fd id = fd ∧ (s.server.objects id).index_ ≠ .kNew

/-- and the kernel is to report these events of it. -/
def Wanted (s : PolledServer) (loop : ℕ) (fd : ℤ) (event : EpollEvent ℕ) : Prop :=
  (s.server.objects event.ptr).loop_ = loop ∧ s.fd event.ptr = fd ∧
    (s.server.objects event.ptr).index_ = .kAdded ∧
    event.events = (s.server.objects event.ptr).conn.channel_.events_

structure Kept (s : PolledServer) : Prop where
  channels : ∀ loop, Indexes (s.channels_ loop) (s.Known loop)
  interest : ∀ loop, Indexes (s.interest loop) (s.Wanted loop)
  succeeded : ∀ call ∈ s.ctl, call.succeeded = true

/-- No other channel that a poller knows has the descriptor. -/
def Apart (s : PolledServer) (id : ℕ) : Prop :=
  ∀ other, other ≠ id → (s.server.objects other).index_ ≠ .kNew → s.fd other ≠ s.fd id

/-- What a function that serves one connection does. -/
structure Serves (id : ℕ) (s s' : PolledServer) : Prop where
  fd_eq : s'.fd = s.fd
  made_eq : s'.server.made = s.server.made
  objects_eq : ∀ other, other ≠ id → s'.server.objects other = s.server.objects other
  loop_eq : (s'.server.objects id).loop_ = (s.server.objects id).loop_
  held : ∀ other, other ≠ id → s'.server.Held other → s.server.Held other
  kept : s'.Kept

section

variable {s s' s'' : PolledServer} {id : ℕ}

theorem Serves.refl (hs : s.Kept) : Serves id s s :=
  ⟨rfl, rfl, fun _ _ => rfl, rfl, fun _ _ h => h, hs⟩

theorem Serves.trans (h : Serves id s s') (h' : Serves id s' s'') : Serves id s s'' where
  fd_eq := h'.fd_eq.trans h.fd_eq
  made_eq := h'.made_eq.trans h.made_eq
  objects_eq := fun other hother =>
    (h'.objects_eq other hother).trans (h.objects_eq other hother)
  loop_eq := h'.loop_eq.trans h.loop_eq
  held := fun other hother hheld => h.held other hother (h'.held other hother hheld)
  kept := h'.kept

theorem Serves.apart (h : Serves id s s') (hs : s.Apart id) : s'.Apart id := by
  intro other hother hknown
  rw [h.fd_eq]
  rw [h.objects_eq other hother] at hknown
  exact hs other hother hknown

theorem Kept.registeredAt (hs : s.Kept) (hapart : s.Apart id) :
    (s.poller (s.server.objects id).loop_).RegisteredAt s.fd id := by
  constructor
  · change s.interest (s.server.objects id).loop_ (s.fd id) =
      if (s.server.objects id).index_ = .kAdded then
        some ⟨(s.server.objects id).conn.channel_.events_, id⟩ else none
    by_cases hindex : (s.server.objects id).index_ = .kAdded
    · rw [if_pos hindex]
      exact (hs.interest _ _ _).mpr ⟨rfl, rfl, hindex, rfl⟩
    · rw [if_neg hindex]
      refine (hs.interest _).eq_none ?_
      intro event hwanted
      by_cases hid : event.ptr = id
      · exact hindex (hid ▸ hwanted.2.2.1)
      · exact hapart event.ptr hid (by rw [hwanted.2.2.1]; decide) hwanted.2.1
  · change s.channels_ (s.server.objects id).loop_ (s.fd id) =
      if (s.server.objects id).index_ = .kNew then none else some id
    by_cases hindex : (s.server.objects id).index_ = .kNew
    · rw [if_pos hindex]
      refine (hs.channels _).eq_none ?_
      intro other hknown
      by_cases hid : other = id
      · exact hknown.2.2 (hid ▸ hindex)
      · exact hapart other hid hknown.2.2 hknown.2.1
    · rw [if_neg hindex]
      exact (hs.channels _ _ _).mpr ⟨rfl, rfl, hindex⟩

section

variable {c : Connection} {channel : Channel} {index : Index} {calls : List CtlCall}

/-- The connection and its loop's poller in a new state. -/
def moved (s : PolledServer) (id : ℕ) (c : Connection) (channel : Channel) (index : Index)
    (calls : List CtlCall) : PolledServer :=
  s.put id c ((s.poller c.loop_).settle s.fd id channel index) calls

theorem moved_objects_self : (s.moved id c channel index calls).server.objects id =
    { c with conn := { c.conn with channel_ := channel }, index_ := index } := by
  simp [moved, put, TcpServer.set, EPollPoller.settle]

theorem moved_objects_of_ne {other : ℕ} (h : other ≠ id) :
    (s.moved id c channel index calls).server.objects other = s.server.objects other := by
  simp [moved, put, TcpServer.set, h]

theorem moved_channels (loop : ℕ) : (s.moved id c channel index calls).channels_ loop =
    if loop = c.loop_ then
      Function.update (s.channels_ loop) (s.fd id) (if index = .kNew then none else some id)
    else s.channels_ loop := by
  unfold moved put
  by_cases hloop : loop = c.loop_
  · rw [if_pos hloop, hloop]
    exact Function.update_self ..
  · rw [if_neg hloop]
    exact Function.update_of_ne hloop ..

theorem moved_interest (loop : ℕ) : (s.moved id c channel index calls).interest loop =
    if loop = c.loop_ then
      Function.update (s.interest loop) (s.fd id)
        (if index = .kAdded then some ⟨channel.events_, id⟩ else none)
    else s.interest loop := by
  unfold moved put
  by_cases hloop : loop = c.loop_
  · rw [if_pos hloop, hloop]
    exact Function.update_self ..
  · rw [if_neg hloop]
    exact Function.update_of_ne hloop ..

/-- The poller of the loop knows no other connection by the descriptor. -/
theorem moved_serves (hs : s.Kept) (hapart : s.Apart id)
    (hloop : c.loop_ = (s.server.objects id).loop_)
    (hcalls : ∀ call ∈ calls, call.succeeded = true) :
    Serves id s (s.moved id c channel index calls) := by
  have hself : (s.moved id c channel index calls).server.objects id =
      { c with conn := { c.conn with channel_ := channel }, index_ := index } :=
    moved_objects_self
  have hothers : ∀ other, other ≠ id →
      (s.moved id c channel index calls).server.objects other = s.server.objects other :=
    fun other hother => moved_objects_of_ne hother
  have howner : ∀ other, (s.server.objects other).index_ ≠ .kNew → s.fd other = s.fd id →
      other = id := by
    intro other hknown hfd
    by_contra hother
    exact hapart other hother hknown hfd
  refine ⟨rfl, rfl, hothers, by rw [hself]; exact hloop, fun _ _ h => h, ?_, ?_, ?_⟩
  · refine Indexes.update_family hs.channels (· = id) moved_channels ?_ ?_ ?_ ?_ ?_
    · intro loop fd other hother
      unfold Known
      rw [hothers other hother]
      rfl
    · exact fun other hknown => howner other hknown.2.2 hknown.2.1
    · rintro loop fd other rfl ⟨hl, hfd, _⟩
      exact ⟨hl.symm.trans hloop.symm, hfd.symm⟩
    · rintro loop fd other rfl
      unfold Known
      rw [hself]
      by_cases hnew : index = .kNew
      · simp [hnew]
      · simp [hnew, moved, put, eq_comm]
    · intro other hentry
      split_ifs at hentry
      exact (Option.some.inj hentry).symm
  · refine Indexes.update_family hs.interest (·.ptr = id) moved_interest ?_ ?_ ?_ ?_ ?_
    · intro loop fd event hother
      unfold Wanted
      rw [hothers event.ptr hother]
      rfl
    · exact fun event hwanted => howner event.ptr (by rw [hwanted.2.2.1]; decide) hwanted.2.1
    · rintro loop fd event rfl ⟨hl, hfd, _⟩
      exact ⟨hl.symm.trans hloop.symm, hfd.symm⟩
    · rintro loop fd ⟨events, ptr⟩ rfl
      unfold Wanted
      dsimp only at hself ⊢
      rw [hself]
      by_cases hadded : index = .kAdded
      · simp [hadded, moved, put, eq_comm, and_assoc]
      · simp [hadded]
    · intro event hentry
      split_ifs at hentry
      rw [← Option.some.inj hentry]
  · intro call hcall
    rcases List.mem_append.mp hcall with hold | hnew
    · exact hs.succeeded call hold
    · exact hcalls call hnew

/-- `Connection.update` is what the poller makes of the connection. -/
theorem update_serves (hs : s.Kept) (hapart : s.Apart id)
    (hloop : c.loop_ = (s.server.objects id).loop_)
    (hindex : c.index_ = (s.server.objects id).index_) (ch : Channel) :
    ∃ p, s.update id c ch = .ok p ∧ p.server = s.server.set id (c.update ch) ∧ Serves id s p := by
  obtain ⟨calls, hchange, hcalls⟩ :=
    EPollPoller.change_of_registeredAt (hs.registeredAt hapart) fun _ => ch
  rw [← hloop] at hchange
  refine ⟨s.moved id c ch (c.index_.afterUpdate ch) calls, ?_, ?_,
    moved_serves hs hapart hloop hcalls⟩
  · unfold update
    rw [hchange, hindex]
    rfl
  · simp [moved, put, EPollPoller.settle, Connection.update]

theorem remove_serves (hs : s.Kept) (hapart : s.Apart id) :
    ∃ p, s.remove id = .ok p ∧
      p.server = s.server.set id { s.server.objects id with index_ := .kNew } ∧ Serves id s p := by
  obtain ⟨calls, hremove, hcalls⟩ :=
    EPollPoller.removeChannel_of_registeredAt (hs.registeredAt hapart)
  refine ⟨s.moved id (s.server.objects id) (s.server.objects id).conn.channel_ .kNew calls, ?_, ?_,
    moved_serves hs hapart rfl hcalls⟩
  · unfold remove
    rw [hremove]
    rfl
  · simp [moved, put, EPollPoller.settle]

end

/-! ## The functions of the server -/

def ofServer {α : Type} : ServerExec α → PolledExec α
  | .ok a => .ok a
  | .error stop => .error (.server stop)

theorem ofServer_bind {α β : Type} (x : ServerExec α) (f : α → ServerExec β) :
    ofServer (x >>= f) = ofServer x >>= fun a => ofServer (f a) := by
  cases x with
  | ok a => rfl
  | error stop => rfl

/-- The server alone comes to the same end. -/
def Tracks (id : ℕ) (s p : PolledServer) (t : TcpServer) : Prop :=
  p.server = t ∧ Serves id s p

theorem Serves.tracks {x : PolledExec PolledServer} {y : ServerExec TcpServer}
    (h : Serves id s s') (hx : Related (Tracks id s') x (ofServer y)) :
    Related (Tracks id s) x (ofServer y) :=
  hx.mono fun _ _ hp => ⟨hp.1, h.trans hp.2⟩

theorem tracks_ok (h : Serves id s s') :
    Related (Tracks id s) (.ok s') (ofServer (.ok s'.server)) :=
  .value ⟨rfl, h⟩

theorem tracks_bind {x : PolledExec PolledServer} {y : ServerExec TcpServer}
    {f : PolledServer → PolledExec PolledServer} {g : TcpServer → ServerExec TcpServer}
    (hx : Related (Tracks id s) x (ofServer y))
    (hf : ∀ p, Serves id s p → Related (Tracks id p) (f p) (ofServer (g p.server))) :
    Related (Tracks id s) (x >>= f) (ofServer (y >>= g)) := by
  rw [ofServer_bind]
  refine hx.bind ?_
  rintro p t ⟨rfl, hp⟩
  exact hp.tracks (hf p hp)

/-- A function that does not call `update`. -/
theorem onServer_serves (hs : s.Kept) {f : TcpServer → TcpServer}
    (hmade : (f s.server).made = s.server.made)
    (hothers : ∀ other, other ≠ id → (f s.server).objects other = s.server.objects other)
    (hloop : ((f s.server).objects id).loop_ = (s.server.objects id).loop_)
    (hindex : ((f s.server).objects id).index_ = (s.server.objects id).index_)
    (hchannel : ((f s.server).objects id).conn.channel_ = (s.server.objects id).conn.channel_)
    (hheld : ∀ other, other ≠ id → (f s.server).Held other → s.server.Held other) :
    Serves id s (s.onServer f) := by
  refine ⟨rfl, hmade, hothers, hloop, hheld, ?_, ?_, hs.succeeded⟩
  · intro loop
    refine (hs.channels loop).congr ?_
    intro fd other
    unfold Known onServer
    by_cases hother : other = id
    · rw [hother, hloop, hindex]
    · rw [hothers other hother]
  · intro loop
    refine (hs.interest loop).congr ?_
    rintro fd ⟨events, other⟩
    unfold Wanted onServer
    dsimp only
    by_cases hother : other = id
    · rw [hother, hloop, hindex, hchannel]
    · rw [hothers other hother]

theorem onServer_serves_of_objects (hs : s.Kept) {f : TcpServer → TcpServer}
    (hmade : (f s.server).made = s.server.made)
    (hobjects : (f s.server).objects = s.server.objects)
    (hheld : ∀ other, other ≠ id → (f s.server).Held other → s.server.Held other) :
    Serves id s (s.onServer f) :=
  onServer_serves hs hmade (fun other _ => by rw [hobjects]) (by rw [hobjects]) (by rw [hobjects])
    (by rw [hobjects]) hheld

theorem note_serves (hs : s.Kept) (event : TcpServer → LifeEvent) :
    Serves id s (s.onServer fun t => t.note (event t)) :=
  onServer_serves_of_objects hs rfl rfl fun _ _ h => h

theorem queueInLoop_held {t : TcpServer} {loop other : ℕ} {functor : LoopFunctor}
    (hsubject : functor.subject ≠ other) (h : (t.queueInLoop loop functor).Held other) :
    t.Held other := by
  rcases h with hname | ⟨place, f, hf, hother⟩
  · exact .inl hname
  · right
    by_cases hplace : place = loop
    · subst hplace
      change f ∈ Function.update t.pendingFunctors_ place _ place at hf
      rw [Function.update_self, List.mem_append, List.mem_singleton] at hf
      rcases hf with hold | rfl
      · exact ⟨place, f, hold, hother⟩
      · exact absurd hother hsubject
    · change f ∈ Function.update t.pendingFunctors_ loop _ place at hf
      rw [Function.update_of_ne hplace] at hf
      exact ⟨place, f, hf, hother⟩

theorem queueInLoop_serves (hs : s.Kept) (loop : ℕ) {functor : LoopFunctor}
    (hsubject : functor.subject = id) : Serves id s (s.onServer (·.queueInLoop loop functor)) :=
  onServer_serves_of_objects hs rfl rfl fun _ hother h =>
    queueInLoop_held (by rw [hsubject]; exact hother.symm) h

theorem queueEffects_serves (hs : s.Kept) (loop : ℕ) (effects : List Effect) :
    Serves id s (s.onServer (effects.foldl (TcpServer.queueEffect loop id))) := by
  induction effects generalizing s with
  | nil => exact Serves.refl hs
  | cons effect effects ih =>
      have hfirst : Serves id s (s.onServer (TcpServer.queueEffect loop id · effect)) := by
        cases effect with
        | writeComplete => exact queueInLoop_serves hs loop rfl
        | highWaterMark len => exact queueInLoop_serves hs loop rfl
        | _ => exact Serves.refl hs
      exact hfirst.trans (ih hfirst.kept)

theorem write_tracks (hs : s.Kept) (hapart : s.Apart id) (op : TcpConnection.Op) :
    Related (Tracks id s) (s.write id op) (ofServer (s.server.write id op)) := by
  unfold write TcpServer.write Connection.write
  cases hstep : (s.server.objects id).conn.step op with
  | error fault =>
      simp only [hstep, bind, Except.bind]
      exact .fault _
  | ok result =>
      obtain ⟨conn, effects⟩ := result
      simp only [hstep, bind, Except.bind, pure, Except.pure]
      by_cases hsame : conn.channel_ = (s.server.objects id).conn.channel_
      · simp only [if_pos hsame]
        have hset : Serves id s (s.onServer (·.set id { s.server.objects id with conn })) := by
          have hself : (s.server.set id { s.server.objects id with conn }).objects id =
              { s.server.objects id with conn } := Function.update_self ..
          refine onServer_serves hs rfl ?_ ?_ ?_ ?_ fun _ _ h => h
          · exact fun other hother => Function.update_of_ne hother ..
          · rw [hself]
          · rw [hself]
          · rw [hself]
            exact hsame
        exact tracks_ok (hset.trans (queueEffects_serves hset.kept _ effects))
      · simp only [if_neg hsame]
        obtain ⟨p, hupdate, hserver, hserves⟩ := update_serves
          (c := { s.server.objects id with conn }) hs hapart rfl rfl conn.channel_
        rw [hupdate]
        refine .value ⟨?_, hserves.trans (queueEffects_serves hserves.kept _ effects)⟩
        simp only [onServer, hserver, Connection.update]

theorem runCallback_tracks (hs : s.Kept) (hapart : s.Apart id) (ops : List CallbackOp) :
    Related (Tracks id s) (s.runCallback id ops) (ofServer (s.server.runCallback id ops)) := by
  induction ops generalizing s with
  | nil => exact tracks_ok (Serves.refl hs)
  | cons op ops ih =>
      unfold runCallback TcpServer.runCallback
      rw [List.foldlM_cons, List.foldlM_cons]
      refine tracks_bind (write_tracks hs hapart op.toOp) ?_
      intro p hp
      exact ih hp.kept (hp.apart hapart)

theorem connectionCallback_tracks (hs : s.Kept) (hapart : s.Apart id) (ops : List CallbackOp) :
    Related (Tracks id s) (s.connectionCallback id ops)
      (ofServer (s.server.connectionCallback id ops)) := by
  have hnote : Serves id s
      (s.onServer fun t => t.note (.connectionCallback id (t.objects id).connected)) :=
    note_serves hs _
  exact hnote.tracks (runCallback_tracks hnote.kept (hnote.apart hapart) ops)

/-- A new state of the connection, of which `connectionCallback_` is told. -/
theorem update_connectionCallback_tracks (hs : s.Kept) (hapart : s.Apart id) (state : StateE)
    (ch : Channel) (ops : List CallbackOp) :
    let c := s.server.objects id
    let c := { c with conn := { c.conn with state_ := state } }
    Related (Tracks id s) (s.update id c ch >>= (·.connectionCallback id ops))
      (ofServer ((s.server.set id (c.update ch)).connectionCallback id ops)) := by
  intro c₀ c
  obtain ⟨p, hupdate, hserver, hserves⟩ := update_serves (c := c) hs hapart rfl rfl ch
  rw [hupdate, ← hserver]
  exact hserves.tracks (connectionCallback_tracks hserves.kept (hserves.apart hapart) ops)

theorem connectEstablished_tracks (hs : s.Kept) (hapart : s.Apart id) (ops : List CallbackOp) :
    Related (Tracks id s) (s.connectEstablished id ops)
      (ofServer (s.server.connectEstablished id ops)) :=
  update_connectionCallback_tracks hs hapart _ _ ops

theorem connectDestroyed_tracks (hs : s.Kept) (hapart : s.Apart id) (ops : List CallbackOp) :
    Related (Tracks id s) (s.connectDestroyed id ops)
      (ofServer (s.server.connectDestroyed id ops)) := by
  have hafter : ∀ p, Serves id s p → Related (Tracks id p)
      (p.remove id >>= fun q => pure (q.onServer (·.note (.connectDestroyed id))))
      (ofServer (pure ((p.server.set id { p.server.objects id with index_ := .kNew }).note
        (.connectDestroyed id)))) := by
    intro p hp
    obtain ⟨q, hremove, hserver, hserves⟩ := remove_serves hp.kept (hp.apart hapart)
    rw [hremove, ← hserver]
    exact tracks_ok (hserves.trans (note_serves hserves.kept fun _ => .connectDestroyed id))
  unfold connectDestroyed TcpServer.connectDestroyed
  dsimp only
  by_cases hconnected : (s.server.objects id).conn.state_ = .kConnected
  · rw [if_pos hconnected, if_pos hconnected]
    exact tracks_bind (update_connectionCallback_tracks hs hapart _ _ ops) hafter
  · rw [if_neg hconnected, if_neg hconnected]
    exact hafter s (Serves.refl hs)

theorem removeConnectionInLoop_serves (hs : s.Kept) :
    Serves id s (s.onServer (·.removeConnectionInLoop id)) := by
  have hheld : ∀ t : TcpServer, ∀ other, other ≠ id →
      (t.removeConnectionInLoop id).Held other → t.Held other := by
    intro t other hother h
    unfold TcpServer.removeConnectionInLoop at h
    dsimp only at h
    have hqueued := queueInLoop_held (by exact hother.symm) h
    rcases hqueued with ⟨name, hname⟩ | hpending
    · left
      refine ⟨name, ?_⟩
      by_cases herased : name = (t.objects id).name_
      · rw [herased] at hname
        cases t.connections_ (t.objects id).name_ <;> simp at hname
      · rw [← hname]
        cases t.connections_ (t.objects id).name_ <;> simp [TcpServer.note, herased]
    · right
      cases hentry : t.connections_ (t.objects id).name_ with
      | none => simpa [hentry] using hpending
      | some held => simpa [hentry, TcpServer.note] using hpending
  refine onServer_serves_of_objects hs ?_ ?_ (hheld s.server)
  · unfold TcpServer.removeConnectionInLoop
    dsimp only
    cases s.server.connections_ (s.server.objects id).name_ <;> rfl
  · unfold TcpServer.removeConnectionInLoop
    dsimp only
    cases s.server.connections_ (s.server.objects id).name_ <;> rfl

theorem removeConnection_serves (hs : s.Kept) :
    Serves id s (s.onServer (·.removeConnection id)) := by
  unfold TcpServer.removeConnection
  by_cases hloop : (s.server.objects id).loop_ = 0
  · have hsame : s.onServer (fun t => if (t.objects id).loop_ = 0 then t.removeConnectionInLoop id
        else t.queueInLoop 0 (.removeConnectionInLoop id)) =
          s.onServer (·.removeConnectionInLoop id) := by
      simp [onServer, hloop]
    rw [hsame]
    exact removeConnectionInLoop_serves hs
  · have hsame : s.onServer (fun t => if (t.objects id).loop_ = 0 then t.removeConnectionInLoop id
        else t.queueInLoop 0 (.removeConnectionInLoop id)) =
          s.onServer (·.queueInLoop 0 (.removeConnectionInLoop id)) := by
      simp [onServer, hloop]
    rw [hsame]
    exact queueInLoop_serves hs 0 rfl

theorem handleClose_tracks (hs : s.Kept) (hapart : s.Apart id) (ops : List CallbackOp) :
    Related (Tracks id s) (s.handleClose id ops) (ofServer (s.server.handleClose id ops)) := by
  have hafter : ∀ p, Serves id s p → Related (Tracks id p)
      (pure (p.onServer fun t => (t.note (.closeCallback id)).removeConnection id))
      (ofServer (pure ((p.server.note (.closeCallback id)).removeConnection id))) := by
    intro p hp
    have hnote : Serves id p (p.onServer (·.note (.closeCallback id))) := note_serves hp.kept _
    exact tracks_ok (hnote.trans (removeConnection_serves hnote.kept))
  unfold handleClose TcpServer.handleClose
  dsimp only
  rw [← bind_assoc]
  exact tracks_bind (update_connectionCallback_tracks hs hapart _ _ ops) hafter

theorem handleRead_tracks (hs : s.Kept) (hapart : s.Apart id) (event : ChannelEvent) :
    Related (Tracks id s) (s.handleRead id event) (ofServer (s.server.handleRead id event)) := by
  unfold handleRead TcpServer.handleRead
  cases event.read with
  | data => exact runCallback_tracks hs hapart event.onMessage
  | eof => exact handleClose_tracks hs hapart event.onConnection
  | error => exact tracks_ok (Serves.refl hs)

theorem handleEventWithGuard_tracks (hs : s.Kept) (hapart : s.Apart id) (event : ChannelEvent) :
    Related (Tracks id s) (s.handleEventWithGuard id event)
      (ofServer (s.server.handleEventWithGuard id event)) := by
  unfold handleEventWithGuard TcpServer.handleEventWithGuard
  refine tracks_bind ?_ fun p hp => tracks_bind ?_ fun q hq => ?_
  · split
    · exact handleClose_tracks hs hapart event.onConnection
    · exact tracks_ok (Serves.refl hs)
  · split
    · exact handleRead_tracks hp.kept (hp.apart hapart) event
    · exact tracks_ok (Serves.refl hp.kept)
  · split
    · exact write_tracks hq.kept (hq.apart (hp.apart hapart)) _
    · exact tracks_ok (Serves.refl hq.kept)

theorem perform_tracks {functor : LoopFunctor} (hs : s.Kept) (hapart : s.Apart functor.subject)
    (ops : List CallbackOp) :
    Related (Tracks functor.subject s) (s.perform ops functor)
      (ofServer (s.server.perform ops functor)) := by
  cases functor with
  | connectEstablished id => exact connectEstablished_tracks hs hapart ops
  | connectDestroyed id => exact connectDestroyed_tracks hs hapart ops
  | removeConnectionInLoop id => exact tracks_ok (removeConnectionInLoop_serves hs)
  | callback id => exact runCallback_tracks hs hapart ops

end

/-! ## Steps -/

/-- `accept` returns a descriptor that is not open: no connection that exists
has it. -/
def Fresh (s : PolledServer) : PolledInput → Prop
  | .accept connfd _ => ∀ id, s.server.Held id → s.fd id ≠ connfd
  | _ => True

/-- What the input is to the server. -/
def serverInputs (s : PolledServer) : PolledInput → List ServerInput
  | .accept connfd ops => if 0 ≤ connfd then [.newConnection ops] else []
  | .functor loop ops => [.functor loop ops]
  | .event loop fd event =>
      match s.interest loop fd with
      | some wanted => [.event wanted.ptr event]
      | none => []

end PolledServer

def PolledInput.ClosesOnce : PolledInput → Prop
  | .event _ _ reported => reported.ClosesOnce
  | _ => True

/-- How many connections the input makes. -/
def PolledInput.cost : PolledInput → ℕ
  | .accept connfd _ => if 0 ≤ connfd then 1 else 0
  | _ => 0

namespace PolledServer

structure Sound (n : ℕ) (s : PolledServer) : Prop where
  lives : TcpServer.Lives n s.server
  kept : s.Kept
  born : ∀ id, s.server.Held id → id < s.server.made
  distinct : ∀ id other, s.server.Held id → s.server.Held other → s.fd id = s.fd other →
    id = other

section

variable {s s' : PolledServer} {id n : ℕ}

theorem sound_initial (listenAddr : InetAddress) (nameArg : Bytes) (complete : Bool)
    (numLoops : ℕ) (hn : n < 2 ^ 31) : Sound n (initial listenAddr nameArg complete numLoops) := by
  have hfree : ∀ id, ¬ (TcpServer.initial listenAddr nameArg complete numLoops).Held id := by
    rintro id (⟨name, hname⟩ | ⟨loop, functor, hfunctor, _⟩)
    · cases hname
    · cases hfunctor
  refine ⟨TcpServer.lives_initial listenAddr nameArg complete numLoops hn, ⟨?_, ?_, ?_⟩,
    fun id hid => absurd hid (hfree id), fun id _ hid => absurd hid (hfree id)⟩
  · exact fun loop fd id => iff_of_false (by intro h; cases h) fun h => h.2.2 rfl
  · exact fun loop fd event => iff_of_false (by intro h; cases h) fun h => by cases h.2.2.1
  · exact fun call hcall => by cases hcall

/-- A channel that a poller knows is there. -/
theorem Sound.held (hs : Sound n s) (hindex : (s.server.objects id).index_ ≠ .kNew) :
    s.server.Held id :=
  hs.lives.registered.held id hindex

theorem Sound.apart (hs : Sound n s) (hid : s.server.Held id) : s.Apart id := by
  intro other hother hindex hfd
  exact hother (hs.distinct other id (hs.held hindex) hid hfd)

/-- What serves one connection keeps the rest. -/
theorem Sound.serves {m : ℕ} (hs : Sound n s) (hid : s.server.Held id) (h : Serves id s s')
    (hlives : TcpServer.Lives m s'.server) : Sound m s' := by
  have hheld : ∀ other, s'.server.Held other → s.server.Held other := by
    intro other hother
    by_cases hsame : other = id
    · rw [hsame]
      exact hid
    · exact h.held other hsame hother
  refine ⟨hlives, h.kept, ?_, ?_⟩
  · intro other hother
    rw [h.made_eq]
    exact hs.born other (hheld other hother)
  · intro a b ha hb hfd
    rw [h.fd_eq] at hfd
    exact hs.distinct a b (hheld a ha) (hheld b hb) hfd

/-! ## New connections -/

/-- The connection that is entered is the one object that changes. -/
theorem enter_objects_of_ne {sockfd : ℤ} {other : ℕ} (h : other ≠ s.server.made) :
    (s.enter sockfd).server.objects other = s.server.objects other := by
  unfold enter
  dsimp only
  cases s.server.connections_ (s.server.connName s.server.nextConnId_) <;>
    exact Function.update_of_ne h ..

theorem enter_index (s : PolledServer) (sockfd : ℤ) :
    ((s.enter sockfd).server.objects s.server.made).index_ = .kNew := by
  unfold enter
  dsimp only
  cases s.server.connections_ (s.server.connName s.server.nextConnId_) with
  | none => rw [TcpServer.enter_objects_self]
  | some held =>
      exact congrArg Connection.index_ (TcpServer.enter_objects_self (s := s.server.note _) ..)

theorem enter_made (s : PolledServer) (sockfd : ℤ) :
    (s.enter sockfd).server.made = s.server.made + 1 := by
  unfold enter
  dsimp only
  cases s.server.connections_ (s.server.connName s.server.nextConnId_) <;> rfl

theorem enter_held {sockfd : ℤ} {other : ℕ} (h : other ≠ s.server.made)
    (hheld : (s.enter sockfd).server.Held other) : s.server.Held other := by
  unfold enter at hheld
  dsimp only at hheld
  rcases hheld with ⟨name, hname⟩ | hpending
  · left
    refine ⟨name, ?_⟩
    by_cases hnew : name = s.server.connName s.server.nextConnId_
    · subst hnew
      cases hentry : s.server.connections_ (s.server.connName s.server.nextConnId_) <;>
        simp [hentry, TcpServer.enter, TcpServer.note, h.symm] at hname
    · cases hentry : s.server.connections_ (s.server.connName s.server.nextConnId_) <;>
        simpa [hentry, TcpServer.enter, TcpServer.note, hnew] using hname
  · right
    cases hentry : s.server.connections_ (s.server.connName s.server.nextConnId_) with
    | none => simpa [hentry, TcpServer.enter] using hpending
    | some held => simpa [hentry, TcpServer.enter, TcpServer.note] using hpending

theorem Sound.kept_enter (hs : Sound n s) (sockfd : ℤ) : (s.enter sockfd).Kept := by
  have hunborn : (s.server.objects s.server.made).index_ = .kNew := by
    by_contra hindex
    exact lt_irrefl _ (hs.born _ (hs.held hindex))
  have hfd : ∀ other, other ≠ s.server.made → (s.enter sockfd).fd other = s.fd other :=
    fun other hother => Function.update_of_ne hother ..
  have hindex := enter_index s sockfd
  refine ⟨?_, ?_, hs.kept.succeeded⟩
  · intro loop
    refine (hs.kept.channels loop).congr ?_
    intro fd other
    unfold Known
    by_cases hother : other = s.server.made
    · rw [hother]
      exact iff_of_false (fun h => h.2.2 hindex) fun h => h.2.2 hunborn
    · rw [enter_objects_of_ne hother, hfd other hother]
  · intro loop
    refine (hs.kept.interest loop).congr ?_
    rintro fd ⟨events, other⟩
    unfold Wanted
    dsimp only
    by_cases hother : other = s.server.made
    · rw [hother]
      exact iff_of_false (fun h => by rw [hindex] at h; cases h.2.2.1)
        fun h => by rw [hunborn] at h; cases h.2.2.1
    · rw [enter_objects_of_ne hother, hfd other hother]

theorem Sound.apart_enter (hs : Sound n s) {sockfd : ℤ}
    (hfresh : ∀ id, s.server.Held id → s.fd id ≠ sockfd) :
    (s.enter sockfd).Apart s.server.made := by
  intro other hother hindex
  rw [enter_objects_of_ne hother] at hindex
  change Function.update s.fd s.server.made sockfd other ≠
    Function.update s.fd s.server.made sockfd s.server.made
  rw [Function.update_of_ne hother, Function.update_self]
  exact hfresh other (hs.held hindex)

theorem newConnection_tracks (hs : Sound n s) {sockfd : ℤ}
    (hfresh : ∀ id, s.server.Held id → s.fd id ≠ sockfd) (ops : List CallbackOp) :
    Related (Tracks s.server.made (s.enter sockfd)) (s.newConnection sockfd ops)
      (ofServer (s.server.newConnection ops)) := by
  have hkept := hs.kept_enter sockfd
  have hserver : s.server.newConnection ops =
      if s.server.nextLoop.1 = 0 then
        (s.enter sockfd).server.connectEstablished s.server.made ops
      else .ok ((s.enter sockfd).server.queueInLoop s.server.nextLoop.1
        (.connectEstablished s.server.made)) := by
    unfold TcpServer.newConnection enter
    dsimp only
    cases s.server.connections_ (s.server.connName s.server.nextConnId_) <;> rfl
  unfold newConnection
  dsimp only
  rw [hserver]
  by_cases hmain : s.server.nextLoop.1 = 0
  · rw [if_pos hmain, if_pos hmain]
    exact connectEstablished_tracks hkept (hs.apart_enter hfresh) ops
  · rw [if_neg hmain, if_neg hmain]
    exact tracks_ok (queueInLoop_serves hkept _ rfl)

theorem Sound.enters {m : ℕ} (hs : Sound n s) {sockfd : ℤ}
    (hfresh : ∀ id, s.server.Held id → s.fd id ≠ sockfd)
    (h : Serves s.server.made (s.enter sockfd) s') (hlives : TcpServer.Lives m s'.server) :
    Sound m s' := by
  have hheld : ∀ other, other ≠ s.server.made → s'.server.Held other → s.server.Held other :=
    fun other hother hother' => enter_held hother (h.held other hother hother')
  have hmade : s'.server.made = s.server.made + 1 := h.made_eq.trans (enter_made s sockfd)
  have hnew : s'.fd s.server.made = sockfd := by
    rw [h.fd_eq]
    exact Function.update_self ..
  have hold : ∀ other, other ≠ s.server.made → s'.fd other = s.fd other := by
    intro other hother
    rw [h.fd_eq]
    exact Function.update_of_ne hother ..
  refine ⟨hlives, h.kept, ?_, ?_⟩
  · intro other hother
    rw [hmade]
    by_cases hlast : other = s.server.made
    · omega
    · have hlt := hs.born other (hheld other hlast hother)
      omega
  · intro a b ha hb hfd
    by_cases hlasta : a = s.server.made
    · by_cases hlastb : b = s.server.made
      · rw [hlasta, hlastb]
      · rw [hlasta, hnew, hold b hlastb] at hfd
        exact absurd hfd.symm (hfresh b (hheld b hlastb hb))
    · by_cases hlastb : b = s.server.made
      · rw [hlastb, hnew, hold a hlasta] at hfd
        exact absurd hfd (hfresh a (hheld a hlasta ha))
      · rw [hold a hlasta, hold b hlastb] at hfd
        exact hs.distinct a b (hheld a hlasta ha) (hheld b hlastb hb) hfd

/-! ## Runs -/

theorem ends_of_tracks {α β : Type} {R : α → β → Prop} {x : PolledExec α} {y : ServerExec β}
    (h : Related R x (ofServer y)) :
    Ends (· ≠ .abort .logFatal) (fun a => ∃ b, y = .ok b ∧ R a b) x := by
  cases y with
  | ok b =>
      cases h with
      | value hab => exact ⟨b, rfl, hab⟩
  | error stop =>
      cases h with
      | fault _ => exact fun h => by cases h

/-- The server makes the same step, or none, and the invariant holds after it. -/
def Advances (n : ℕ) (s : PolledServer) (input : PolledInput) (r : PolledServer × Unit) : Prop :=
  Sound n r.1 ∧ ∃ calls,
    run TcpServer.step s.server (s.serverInputs input) = .ok (r.1.server, calls)

theorem run_single {t next : TcpServer} {input : ServerInput}
    (h : t.step input = .ok (next, ())) :
    ∃ calls, run TcpServer.step t [input] = .ok (next, calls) :=
  ⟨_, run_cons_eq_ok.mpr ⟨next, (), [], h, rfl, rfl⟩⟩

theorem step_advances (s : PolledServer) (input : PolledInput) (hcloses : input.ClosesOnce)
    (hs : Sound (input.cost + n) s) (hfresh : s.Fresh input) :
    Ends (· ≠ .abort .logFatal) (Advances n s input) (s.step input) := by
  cases input with
  | accept connfd ops =>
      by_cases hconn : 0 ≤ connfd
      · have hs : Sound (1 + n) s := by simpa [PolledInput.cost, hconn] using hs
        simp only [step, if_pos hconn]
        refine (ends_of_tracks (newConnection_tracks hs hfresh ops)).bind ?_
        rintro p ⟨t, hnew, rfl, hserves⟩
        have hstep : s.server.step (.newConnection ops) = .ok (p.server, ()) := by
          simp only [TcpServer.step, hnew]
          rfl
        have hlives := (TcpServer.step_lives (n := n) s.server (.newConnection ops) trivial
          hs.lives).of_eq_ok hstep
        refine ⟨hs.enters hfresh hserves hlives, ?_⟩
        simp only [serverInputs, if_pos hconn]
        exact run_single hstep
      · have hs : Sound n s := by simpa [PolledInput.cost, hconn] using hs
        simp only [step, if_neg hconn]
        refine ⟨hs, [], ?_⟩
        simp [serverInputs, hconn]
  | functor loop ops =>
      have hs : Sound n s := by simpa [PolledInput.cost] using hs
      simp only [step]
      cases hpending : s.server.pendingFunctors_ loop with
      | nil => exact fun h => by cases h
      | cons functor rest =>
          have hheld : s.server.Held functor.subject :=
            .inr ⟨loop, functor, by rw [hpending]; exact List.mem_cons_self, rfl⟩
          have hpop : Serves functor.subject s (s.onServer (·.pop loop rest)) := by
            refine onServer_serves_of_objects hs.kept rfl rfl ?_
            rintro other _ (hname | ⟨place, f, hf, hsubject⟩)
            · exact .inl hname
            · refine .inr ⟨place, f, ?_, hsubject⟩
              change f ∈ Function.update s.server.pendingFunctors_ loop rest place at hf
              by_cases hplace : place = loop
              · rw [hplace, Function.update_self] at hf
                rw [hplace, hpending]
                exact List.mem_cons_of_mem _ hf
              · rwa [Function.update_of_ne hplace] at hf
          have hperform := hpop.tracks
            (perform_tracks hpop.kept (hpop.apart (hs.apart hheld)) ops)
          refine (ends_of_tracks hperform).bind ?_
          rintro p ⟨t, ht, rfl, hserves⟩
          have hstep : s.server.step (.functor loop ops) = .ok (p.server, ()) := by
            simp only [TcpServer.step, hpending]
            exact congrArg (Except.map (·, ())) ht
          have hlives := (TcpServer.step_lives (n := n) s.server (.functor loop ops) trivial
            (by simpa [ServerInput.cost] using hs.lives)).of_eq_ok hstep
          exact ⟨hs.serves hheld hserves hlives, run_single hstep⟩
  | event loop fd event =>
      have hs : Sound n s := by simpa [PolledInput.cost] using hs
      simp only [step]
      cases hwanted : s.interest loop fd with
      | none => exact fun h => by cases h
      | some wanted =>
          have hindex := ((hs.kept.interest loop fd wanted).mp hwanted).2.2.1
          have hheld : s.server.Held wanted.ptr := hs.held (by rw [hindex]; decide)
          have hevent := handleEventWithGuard_tracks hs.kept (hs.apart hheld) event
          refine (ends_of_tracks hevent).bind ?_
          rintro p ⟨t, ht, rfl, hserves⟩
          have hstep : s.server.step (.event wanted.ptr event) = .ok (p.server, ()) := by
            simp only [TcpServer.step, if_pos (And.intro (hs.born _ hheld) hindex)]
            exact congrArg (Except.map (·, ())) ht
          have hlives := (TcpServer.step_lives (n := n) s.server (.event wanted.ptr event) hcloses
            (by simpa [ServerInput.cost] using hs.lives)).of_eq_ok hstep
          refine ⟨hs.serves hheld hserves hlives, ?_⟩
          simp only [serverInputs, hwanted]
          exact run_single hstep

end

/-- What is promised of the descriptors. -/
structure Descriptors (s : PolledServer) : Prop where
  /-- Connections that exist have descriptors of their own. -/
  distinct : ∀ id other, s.server.Held id → s.server.Held other → s.fd id = s.fd other →
    id = other
  /-- The poller of a loop knows the channels that were added to it and not
  removed, by their descriptors, -/
  known : ∀ loop fd id, s.channels_ loop fd = some id ↔ s.Known loop fd id
  /-- and the kernel has the events that these have asked for. -/
  wanted : ∀ loop fd event, s.interest loop fd = some event ↔ s.Wanted loop fd event
  succeeded : ∀ call ∈ s.ctl, call.succeeded = true
  /-- What is reported goes to a connection that exists, -/
  reported : ∀ loop fd event, s.interest loop fd = some event →
    s.channels_ loop fd = some event.ptr ∧ s.server.Held event.ptr
  /-- and a descriptor that is closed is in no poller. -/
  closed : ∀ fd, (∀ id, s.server.Held id → s.fd id ≠ fd) →
    ∀ loop, s.channels_ loop fd = none ∧ s.interest loop fd = none

theorem Sound.descriptors {s : PolledServer} {n : ℕ} (hs : Sound n s) : Descriptors s where
  distinct := hs.distinct
  known := hs.kept.channels
  wanted := hs.kept.interest
  succeeded := hs.kept.succeeded
  reported := by
    intro loop fd event hevent
    obtain ⟨hloop, hfd, hindex, _⟩ := (hs.kept.interest loop fd event).mp hevent
    have hknown : (s.server.objects event.ptr).index_ ≠ .kNew := by
      rw [hindex]
      decide
    exact ⟨(hs.kept.channels loop fd event.ptr).mpr ⟨hloop, hfd, hknown⟩, hs.held hknown⟩
  closed := by
    intro fd hclosed loop
    constructor
    · refine (hs.kept.channels loop).eq_none ?_
      exact fun id hknown => hclosed id (hs.held hknown.2.2) hknown.2.1
    · refine (hs.kept.interest loop).eq_none ?_
      intro event hwanted
      exact hclosed event.ptr (hs.held (by rw [hwanted.2.2.1]; decide)) hwanted.2.1

/-- What holds after the calls of a run, with the inputs to come. -/
structure Along (start : TcpServer) (past : List (Call PolledServer PolledInput Unit))
    (todo : List PolledInput) (s : PolledServer) : Prop where
  sound : Sound (todo.map PolledInput.cost).sum s
  closes : ∀ input ∈ todo, input.ClosesOnce
  descriptors : ∀ call ∈ past, Descriptors call.pre
  served : ∃ calls, run TcpServer.step start
    (past.flatMap fun call => call.pre.serverInputs call.input) = .ok (s.server, calls)

theorem Along.step {start : TcpServer} {past : List (Call PolledServer PolledInput Unit)}
    {todo : List PolledInput} {s : PolledServer} {input : PolledInput}
    (h : Along start past (input :: todo) s) (hfresh : s.Fresh input) :
    Ends (· ≠ .abort .logFatal) (fun r => Along start (past ++ [⟨s, input, r.2⟩]) todo r.1)
      (s.step input) := by
  have hsplit := List.forall_mem_cons.mp h.closes
  refine (step_advances s input hsplit.1 (by simpa using h.sound) hfresh).mono ?_
  rintro r ⟨hnext, calls, hcalls⟩
  refine ⟨hnext, hsplit.2, ?_, ?_⟩
  · intro call hcall
    rcases List.mem_append.mp hcall with hold | hlast
    · exact h.descriptors call hold
    · rw [List.mem_singleton.mp hlast]
      exact h.sound.descriptors
  · obtain ⟨served, hserved⟩ := h.served
    rw [List.flatMap_append]
    refine ⟨_, run_append_eq_ok.mpr ⟨s.server, served, calls, hserved, ?_, rfl⟩⟩
    simpa using hcalls

/-- As long as `accept` returns descriptors that are free, no call of
`epoll_ctl` fails, and the server does what it does without its pollers. -/
theorem descriptors_of_run (listenAddr : InetAddress) (nameArg : Bytes) (complete : Bool)
    (numLoops : ℕ) {inputs : List PolledInput}
    (hcount : (inputs.map PolledInput.cost).sum < 2 ^ 31)
    (hcloses : ∀ input ∈ inputs, input.ClosesOnce)
    (hfresh : Guarded step Fresh (initial listenAddr nameArg complete numLoops) inputs) :
    Ends (· ≠ .abort .logFatal)
      (fun r => Descriptors r.1 ∧ (∀ call ∈ r.2, Descriptors call.pre) ∧
        ∃ served, run TcpServer.step (TcpServer.initial listenAddr nameArg complete numLoops)
          (r.2.flatMap fun call => call.pre.serverInputs call.input) = .ok (r.1.server, served))
      (run step (initial listenAddr nameArg complete numLoops) inputs) := by
  have hstart : Along (TcpServer.initial listenAddr nameArg complete numLoops) [] inputs
      (initial listenAddr nameArg complete numLoops) :=
    ⟨sound_initial listenAddr nameArg complete numLoops hcount, hcloses,
      (fun call hcall => by cases hcall), [], rfl⟩
  refine (Ends.run_guarded (fun _ _ _ _ h hfree => h.step hfree) hstart hfresh).mono ?_
  intro r hr
  exact ⟨hr.sound.descriptors, hr.descriptors, hr.served⟩

/-- A connection on one io loop, closed and destroyed. -/
def closedAgain : List PolledInput :=
  [.accept 9 [], .functor 1 [],
    .event 1 9 { revents := EPOLLIN, read := .eof, written := .wrote 0 },
    .functor 0 [], .functor 1 []]

def oneLoop : PolledServer := initial TcpServer.inaddrAny (ascii "HttpServer") false 1

/-- Nothing is left of the connection. -/
theorem closedAgain_free {mid : PolledServer} {calls}
    (hrun : run step oneLoop closedAgain = .ok (mid, calls)) (id : ℕ) : ¬ mid.server.Held id := by
  have hresult : (run step oneLoop closedAgain).map
      (fun r => (r.1.server.connections_, r.1.server.pendingFunctors_)) = .ok
        (Function.update (Function.update (fun _ => none) (oneLoop.server.connName 1) (some 0))
            (oneLoop.server.connName 1) none,
          Function.update (Function.update (Function.update (Function.update (Function.update
            (Function.update (fun _ => []) 1 [.connectEstablished 0]) 1 [])
            0 [.removeConnectionInLoop 0]) 0 []) 1 [.connectDestroyed 0]) 1 []) := rfl
  rw [hrun] at hresult
  obtain ⟨hnames, hpending⟩ := Prod.mk.inj (Except.ok.inj hresult)
  rintro (⟨name, hname⟩ | ⟨loop, functor, hfunctor, _⟩)
  · rw [hnames, Function.update_idem, Function.update_apply] at hname
    split at hname <;> cases hname
  · rw [hpending] at hfunctor
    simp only [Function.update_apply] at hfunctor
    split_ifs at hfunctor <;> cases hfunctor

/-- A second connection gets the descriptor of the first. -/
theorem descriptors_of_run_reused :
    Ends (· ≠ .abort .logFatal)
      (fun r => Descriptors r.1 ∧ (∀ call ∈ r.2, Descriptors call.pre) ∧
        ∃ served, run TcpServer.step oneLoop.server
          (r.2.flatMap fun call => call.pre.serverInputs call.input) = .ok (r.1.server, served))
      (run step oneLoop (closedAgain ++ [.accept 9 [], .functor 1 []])) ∧
    (run step oneLoop (closedAgain ++ [.accept 9 [], .functor 1 []])).map
      (fun r => (r.1.fd 0, r.1.fd 1, r.1.channels_ 1 9)) = .ok (9, 9, some 1) := by
  have hcloses : ∀ input ∈ closedAgain ++ [.accept 9 [], .functor 1 []], input.ClosesOnce := by
    intro input hinput
    fin_cases hinput
    · trivial
    · trivial
    · exact fun habsurd => absurd habsurd (by decide)
    · trivial
    · trivial
    · trivial
    · trivial
  have hfirst : Guarded step Fresh oneLoop closedAgain := by
    refine ⟨?_, fun _ _ _ => ⟨trivial, fun _ _ _ => ⟨trivial, fun _ _ _ => ⟨trivial,
      fun _ _ _ => ⟨trivial, fun _ _ _ => trivial⟩⟩⟩⟩⟩
    rintro id (⟨name, hname⟩ | ⟨loop, functor, hfunctor, _⟩)
    · cases hname
    · cases hfunctor
  have hfresh : Guarded step Fresh oneLoop (closedAgain ++ [.accept 9 [], .functor 1 []]) := by
    refine hfirst.append fun mid calls hrun => ⟨?_, fun _ _ _ => ⟨trivial, fun _ _ _ => trivial⟩⟩
    exact fun id hheld => absurd hheld (closedAgain_free hrun id)
  exact ⟨descriptors_of_run TcpServer.inaddrAny (ascii "HttpServer") false 1 (by decide) hcloses
    hfresh, rfl⟩

end PolledServer

end MyFileServer
