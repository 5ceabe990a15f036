import MyFileServer.Net.TcpServer

/-!
# The phases of a connection

What `state_`, `index_` and the interest of the channel are in each phase, and
that the functions that write leave the phase as it is.
-/

namespace MyFileServer

open Execution

/-! ## Interest -/

theorem anyOf_epollin {events : BitVec 32} :
    anyOf events EPOLLIN = true ↔ events[0] = true := by
  unfold anyOf EPOLLIN
  rw [decide_eq_true_iff]
  constructor
  · intro hne
    by_contra hbit
    apply hne
    ext i hi
    rcases i with _ | i
    · simp_all
    · simp
  · intro hbit hzero
    have hget := congrArg (fun v : BitVec 32 => v[0]) hzero
    simp [hbit] at hget

namespace Channel

def isReading (ch : Channel) : Bool := anyOf ch.events_ EPOLLIN

theorem isReading_enableReading (ch : Channel) : ch.enableReading.isReading = true := by
  simp [isReading, anyOf_epollin, enableReading, kReadEvent]

theorem isReading_enableWriting {ch : Channel} (h : ch.isReading = true) :
    ch.enableWriting.isReading = true := by
  unfold isReading at h ⊢
  rw [anyOf_epollin] at h ⊢
  simp [enableWriting, h]

theorem isReading_disableWriting {ch : Channel} (h : ch.isReading = true) :
    ch.disableWriting.isReading = true := by
  unfold isReading at h ⊢
  rw [anyOf_epollin] at h ⊢
  simp [disableWriting, kWriteEvent, h]

theorem not_isNoneEvent_of_isReading {ch : Channel} (h : ch.isReading = true) :
    ch.isNoneEvent = false := by
  unfold isReading anyOf at h
  unfold isNoneEvent kNoneEvent
  rw [decide_eq_true_iff] at h
  rw [decide_eq_false_iff_not]
  intro hzero
  exact h (by simp [hzero])

theorem disableAll_eq (ch : Channel) : ch.disableAll = {} := by
  simp [disableAll, kNoneEvent]

end Channel

/-! ## Writing -/

namespace TcpConnection

/-- What a function of the sending side may change of a connection that is
open. -/
structure Sends (c c' : TcpConnection) : Prop where
  state : c'.state_ = c.state_ ∨ c'.state_ = .kDisconnecting
  channel : c'.channel_ = c.channel_ ∨ c'.channel_ = c.channel_.enableWriting ∨
    c'.channel_ = c.channel_.disableWriting

variable {c c' : TcpConnection} {answer : Answer} {effects : List Effect}

theorem Sends.refl (c : TcpConnection) : c.Sends c := ⟨.inl rfl, .inl rfl⟩

theorem enableWritingUnless_eq (c : TcpConnection) :
    c.enableWritingUnless = c.channel_ ∨ c.enableWritingUnless = c.channel_.enableWriting := by
  unfold enableWritingUnless
  split_ifs
  · exact .inl rfl
  · exact .inr rfl

theorem Sends.enableWritingUnless (hstate : c'.state_ = c.state_)
    (hchannel : c'.channel_ = c.enableWritingUnless) : c.Sends c' := by
  refine ⟨.inl hstate, ?_⟩
  rw [hchannel]
  rcases c.enableWritingUnless_eq with hsame | hwriting
  · exact .inl hsame
  · exact .inr (.inl hwriting)

theorem sendInLoop_sends {data : Bytes}
    (h : c.sendInLoop data answer = .ok (c', effects)) : c.Sends c' := by
  unfold sendInLoop at h
  by_cases hdown : c.state_ = .kDisconnected
  · rw [if_pos hdown] at h
    cases h
    exact Sends.refl c
  · rw [if_neg hdown] at h
    dsimp only at h
    split_ifs at h
    · obtain ⟨buf, _, hrest⟩ := bind_eq_ok.mp h
      cases hrest
      exact Sends.enableWritingUnless rfl rfl
    · obtain ⟨buf, _, hrest⟩ := bind_eq_ok.mp h
      cases hrest
      exact Sends.enableWritingUnless rfl rfl
    · cases h
      exact Sends.refl c

theorem send_sends {data : Bytes} (h : c.send data answer = .ok (c', effects)) :
    c.Sends c' := by
  unfold send at h
  split_ifs at h
  · exact sendInLoop_sends h
  · cases h
    exact Sends.refl c

theorem sendFileInLoop_sends (c : TcpConnection) (file : Bytes) (answer : Answer) :
    c.Sends (c.sendFileInLoop file answer).1 := by
  -- what follows the call of `sendfile`
  have hafter : ∀ (attempted : TcpConnection) (faultError : Bool) (effects : List Effect),
      attempted.state_ = c.state_ → attempted.channel_ = c.channel_ →
      c.Sends (if !faultError ∧ 0 < attempted.sendLen_ then
        ({ attempted with channel_ := attempted.enableWritingUnless }, effects)
        else (attempted, effects)).1 := by
    intro attempted faultError effects hstate hchannel
    split_ifs
    · refine Sends.enableWritingUnless hstate ?_
      simp only [TcpConnection.enableWritingUnless, hchannel]
    · exact ⟨.inl hstate, .inl hchannel⟩
  unfold sendFileInLoop
  split_ifs with hdown hidle
  · exact Sends.refl c
  · cases answer with
    | wrote n => exact hafter _ _ _ rfl rfl
    | failed errno => exact hafter _ _ _ rfl rfl
  · exact hafter _ _ _ rfl rfl

theorem handleWrite_sends (c : TcpConnection) (answer : Answer) :
    c.Sends (c.handleWrite answer).1 := by
  unfold handleWrite
  split_ifs
  · cases answer with
    | failed errno => exact Sends.refl c
    | wrote n =>
        dsimp only
        split_ifs
        · exact ⟨.inl rfl, .inr (.inr rfl)⟩
        · exact ⟨.inl rfl, .inr (.inr rfl)⟩
        · exact ⟨.inl rfl, .inr (.inr rfl)⟩
        · exact ⟨.inl rfl, .inr (.inr rfl)⟩
        · exact ⟨.inl rfl, .inl rfl⟩
        · exact Sends.refl c
  · exact Sends.refl c

theorem step_sends {op : Op} (h : c.step op = .ok (c', effects)) : c.Sends c' := by
  cases op with
  | send payload answer => exact send_sends h
  | sendFile fd count file answer =>
      unfold step sendFile at h
      split_ifs at h
      · have hsends := sendFileInLoop_sends { c with sendFd_ := fd, sendLen_ := count } file answer
        rw [Except.ok.inj h] at hsends
        exact ⟨hsends.state, hsends.channel⟩
      · cases h
        exact Sends.refl c
  | shutdown =>
      unfold step shutdown at h
      split_ifs at h
      · cases h
        exact ⟨.inr rfl, .inl rfl⟩
      · cases h
        exact Sends.refl c
  | handleWrite answer =>
      have hsends := c.handleWrite_sends answer
      rw [Except.ok.inj h] at hsends
      exact hsends

/-- A connection that is not connected and has nothing to write does
nothing. -/
theorem step_eq_of_quiet (hstate : c.state_ ≠ .kConnected)
    (hwriting : c.channel_.isWriting = false) (op : Op) : c.step op = .ok (c, []) := by
  cases op with
  | send payload answer => exact if_neg hstate
  | sendFile fd count file answer =>
      exact congrArg Except.ok (if_neg hstate)
  | shutdown =>
      exact congrArg Except.ok (if_neg hstate)
  | handleWrite answer =>
      exact congrArg Except.ok (if_neg (by simp [hwriting]))

end TcpConnection

/-! ## Phases -/

/-- Between `down` and `closed` the callbacks of `handleClose` run. -/
inductive Phase
  | unborn
  | opening
  | opened
  | down
  | closed
  | erased
  | destroyed
  deriving DecidableEq

namespace Phase

/-- What the members of the connection are in the phase. -/
def Holds : Phase → Connection → Prop
  | .unborn, c => c.conn.state_ = .kConnecting ∧ c.index_ = .kNew ∧ c.conn.channel_ = {}
  | .opening, c => c.conn.state_ = .kConnecting ∧ c.index_ = .kNew ∧ c.conn.channel_ = {}
  | .opened, c =>
      (c.conn.state_ = .kConnected ∨ c.conn.state_ = .kDisconnecting) ∧
        c.index_ = .kAdded ∧ c.conn.channel_.isReading = true
  | .destroyed, c => c.conn.state_ = .kDisconnected ∧ c.index_ = .kNew ∧ c.conn.channel_ = {}
  | _, c => c.conn.state_ = .kDisconnected ∧ c.index_ = .kDeleted ∧ c.conn.channel_ = {}

/-- What was observed of the connection up to the phase. -/
def history (id : ℕ) : Phase → List LifeEvent
  | .unborn => []
  | .opening => []
  | .opened => [.connectionCallback id true]
  | .down => [.connectionCallback id true, .connectionCallback id false]
  | .closed => [.connectionCallback id true, .connectionCallback id false, .closeCallback id]
  | .erased =>
      [.connectionCallback id true, .connectionCallback id false, .closeCallback id, .erased id]
  | .destroyed =>
      [.connectionCallback id true, .connectionCallback id false, .closeCallback id, .erased id,
        .connectDestroyed id]

/-- The functor that is to move the connection on, in the queue of its loop. -/
def waiting (id loop_ : ℕ) : Phase → ℕ → List LoopFunctor
  | .opening => Function.update (fun _ => []) loop_ [.connectEstablished id]
  | .closed => Function.update (fun _ => []) 0 [.removeConnectionInLoop id]
  | .erased => Function.update (fun _ => []) loop_ [.connectDestroyed id]
  | _ => fun _ => []

/-- The connection is in `connections_`. -/
def mapped : Phase → Bool
  | .opening => true
  | .opened => true
  | .down => true
  | .closed => true
  | _ => false

variable {phase : Phase} {id loop_ : ℕ}

theorem quiet_of_ne_opened {c : Connection} (hc : phase.Holds c) (hphase : phase ≠ .opened) :
    c.conn.state_ ≠ .kConnected ∧ c.index_ ≠ .kAdded ∧ c.conn.channel_ = {} := by
  cases phase with
  | opened => exact absurd rfl hphase
  | _ => exact ⟨by simp [hc.1], by simp [hc.2.1], hc.2.2⟩

/-- One queue holds one functor, the others are empty. -/
theorem mem_update_single {place loop : ℕ} {only functor : LoopFunctor}
    (h : functor ∈ Function.update (fun _ => []) place [only] loop) :
    loop = place ∧ functor = only := by
  by_cases hplace : loop = place
  · rw [hplace, Function.update_self, List.mem_singleton] at h
    exact ⟨hplace, h⟩
  · rw [Function.update_of_ne hplace] at h
    cases h

theorem mem_waiting {loop : ℕ} {functor : LoopFunctor}
    (h : functor ∈ phase.waiting id loop_ loop) :
    functor = .connectEstablished id ∧ phase = .opening ∨
      functor = .removeConnectionInLoop id ∧ phase = .closed ∨
      functor = .connectDestroyed id ∧ phase = .erased := by
  cases phase with
  | opening => exact .inl ⟨(mem_update_single h).2, rfl⟩
  | closed => exact .inr (.inl ⟨(mem_update_single h).2, rfl⟩)
  | erased => exact .inr (.inr ⟨(mem_update_single h).2, rfl⟩)
  | _ => cases h

/-- Once the functor that waits is taken, none does. -/
theorem waiting_update_of_mem {loop : ℕ} {functor : LoopFunctor}
    (h : functor ∈ phase.waiting id loop_ loop) :
    phase.waiting id loop_ loop = [functor] ∧
      Function.update (phase.waiting id loop_) loop [] = fun _ => [] := by
  have hone : ∀ (place : ℕ) (only : LoopFunctor),
      functor ∈ Function.update (fun _ => []) place [only] loop →
      Function.update (fun _ => []) place [only] loop = [functor] ∧
        Function.update (Function.update (fun _ => []) place [only]) loop [] =
          fun _ => ([] : List LoopFunctor) := by
    intro place only hmem
    obtain ⟨rfl, rfl⟩ := mem_update_single hmem
    rw [Function.update_self, Function.update_idem, Function.update_eq_self]
    exact ⟨rfl, rfl⟩
  cases phase with
  | opening => exact hone _ _ h
  | closed => exact hone _ _ h
  | erased => exact hone _ _ h
  | _ => cases h

end Phase

namespace Connection

/-- Sending and shutting down keep the phase. -/
theorem write_holds {c c' : Connection} {phase : Phase} {op : TcpConnection.Op}
    {effects : List Effect} (hc : phase.Holds c) (h : c.write op = .ok (c', effects)) :
    phase.Holds c' ∧ c'.loop_ = c.loop_ ∧ c'.name_ = c.name_ := by
  obtain ⟨⟨conn, effects⟩, hstep, hrest⟩ := bind_eq_ok.mp h
  by_cases hphase : phase = .opened
  · subst hphase
    obtain ⟨hstate, hindex, hreading⟩ := hc
    have hsends := TcpConnection.step_sends hstep
    have hstate' : conn.state_ = .kConnected ∨ conn.state_ = .kDisconnecting := by
      rcases hsends.state with hsame | hshut
      · rw [hsame]
        exact hstate
      · exact .inr hshut
    have hreading' : conn.channel_.isReading = true := by
      rcases hsends.channel with hsame | hwriting | hwriting
      · rw [hsame]
        exact hreading
      · rw [hwriting]
        exact Channel.isReading_enableWriting hreading
      · rw [hwriting]
        exact Channel.isReading_disableWriting hreading
    by_cases hsame : conn.channel_ = c.conn.channel_
    · simp only [if_pos hsame] at hrest
      cases hrest
      exact ⟨⟨hstate', hindex, hreading'⟩, rfl, rfl⟩
    · simp only [if_neg hsame] at hrest
      cases hrest
      refine ⟨⟨hstate', ?_, hreading'⟩, rfl, rfl⟩
      simp only [update, hindex, Index.afterUpdate]
      rw [Channel.not_isNoneEvent_of_isReading hreading']
      rfl
  · obtain ⟨hstate, _, hchannel⟩ := Phase.quiet_of_ne_opened hc hphase
    rw [TcpConnection.step_eq_of_quiet hstate (by rw [hchannel]; rfl)] at hstep
    cases hstep
    simp only [if_true] at hrest
    cases hrest
    exact ⟨hc, rfl, rfl⟩

end Connection

end MyFileServer
