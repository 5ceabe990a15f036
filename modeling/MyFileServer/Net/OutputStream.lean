import MyFileServer.Net.TcpConnection

/-!
# The output as a stream

The bytes that a connection has accepted are the bytes it has written,
followed by the bytes that wait in `outputBuffer_`.  Payloads keep this account
as long as the buffer can take what the kernel leaves.  A file is not kept in
the buffer: its account is kept only when `sendfile` takes all of it at once.
-/

namespace MyFileServer

open Execution

/-! ## What goes in and what comes out -/

def Effect.data : Effect → Bytes
  | .write data => data
  | _ => []

def written (effects : List Effect) : Bytes :=
  effects.flatMap Effect.data

@[simp] theorem written_nil : written [] = [] := rfl

@[simp] theorem written_cons (effect : Effect) (effects : List Effect) :
    written (effect :: effects) = effect.data ++ written effects :=
  List.flatMap_cons

@[simp] theorem written_append (effects₁ effects₂ : List Effect) :
    written (effects₁ ++ effects₂) = written effects₁ ++ written effects₂ :=
  List.flatMap_append

theorem written_ite {effect : Effect} (hsilent : effect.data = []) {p : Prop}
    [Decidable p] : written (if p then [effect] else []) = [] := by
  split
  · rw [written_cons, hsilent]
    rfl
  · rfl

theorem shutdownWrite_notMem_ite {effect : Effect}
    (hother : effect ≠ .shutdownWrite) {p : Prop} [Decidable p] :
    .shutdownWrite ∉ if p then [effect] else [] := by
  split <;> simp [hother.symm]

namespace TcpConnection

def accepted (c : TcpConnection) : Op → Bytes
  | .send payload _ => if c.state_ = .kConnected then payload else []
  | .sendFile _ count file _ =>
      if c.state_ = .kConnected then file.take count else []
  | .shutdown => []
  | .handleWrite _ => []

abbrev StreamCall := Call TcpConnection Op (List Effect)

def effects (calls : List StreamCall) : List Effect :=
  calls.flatMap (·.output)

def acceptedBytes (calls : List StreamCall) : Bytes :=
  calls.flatMap fun call => call.pre.accepted call.input

theorem written_effects (calls : List StreamCall) :
    written (effects calls) = calls.flatMap fun call => written call.output :=
  List.flatMap_assoc

/-- No `EPIPE` or `ECONNRESET`, and no file shorter than its count. -/
def Op.Regular : Op → Prop
  | .send _ answer => ∀ errno, answer = .failed errno → errno.isFault = false
  | .sendFile _ count file answer =>
      count ≤ file.length ∧
        ∀ errno, answer = .failed errno → errno.isFault = false
  | .shutdown => True
  | .handleWrite answer =>
      ∀ errno, answer = .failed errno → errno.isFault = false

/-- What the kernel leaves of `len` bytes. -/
def leftover (c : TcpConnection) (len : ℕ) : Answer → ℕ
  | .wrote n => if c.idle then len - n else len
  | .failed _ => len

def BufferTakes (c : TcpConnection) : Op → Prop
  | .send payload answer =>
      c.state_ = .kConnected →
        c.outputBuffer_.Takes (c.leftover payload.length answer)
  | _ => True

/-- A file finds the connection idle, and the kernel takes all of it. -/
def FileLeaves (c : TcpConnection) : Op → Prop
  | .sendFile _ count _ answer =>
      c.state_ = .kConnected →
        count = 0 ∨ c.idle ∧ ∃ n, answer = .wrote n ∧ count ≤ n
  | _ => True

def Fits (c : TcpConnection) (op : Op) : Prop :=
  c.BufferTakes op ∧ c.FileLeaves op

def Op.Buffered : Op → Prop
  | .sendFile _ _ _ _ => False
  | _ => True

/-! ## One step -/

structure StreamInv (c : TcpConnection) : Prop where
  buffer : c.outputBuffer_.Inv
  writing : c.channel_.isWriting = true ↔ c.outputBuffer_.readable ≠ []
  state : c.state_ = .kConnected ∨ c.state_ = .kDisconnecting

structure Finished (c : TcpConnection) : Prop where
  state : c.state_ = .kDisconnecting
  empty : c.outputBuffer_.readable = []

structure Kept (c : TcpConnection) (op : Op) (next : TcpConnection)
    (out : List Effect) : Prop where
  inv : next.StreamInv
  balance : written out ++ next.outputBuffer_.readable =
    c.outputBuffer_.readable ++ c.accepted op
  ending : .shutdownWrite ∈ out → next.Finished ∧
    ∃ front, out = front ++ [.shutdownWrite] ∧ .shutdownWrite ∉ front

theorem established_inv : established.StreamInv :=
  ⟨Buffer.initial_inv, by simp [established, Buffer.initial_readable]; decide,
    .inl rfl⟩

section Step

variable {c : TcpConnection}

theorem StreamInv.readableBytes_eq_zero (hc : c.StreamInv) :
    c.outputBuffer_.readableBytes = 0 ↔ c.outputBuffer_.readable = [] := by
  rw [← Buffer.length_readable hc.buffer, List.length_eq_zero_iff]

theorem StreamInv.empty_of_not_writing (hc : c.StreamInv)
    (hwriting : c.channel_.isWriting = false) : c.outputBuffer_.readable = [] := by
  by_contra hne
  have hwaits := hc.writing.mpr hne
  rw [hwriting] at hwaits
  cases hwaits

theorem StreamInv.not_writing_of_empty (hc : c.StreamInv)
    (hempty : c.outputBuffer_.readable = []) : c.channel_.isWriting = false := by
  rw [← Bool.not_eq_true, hc.writing]
  exact not_not.mpr hempty

theorem StreamInv.idle_iff (hc : c.StreamInv) :
    c.idle = true ↔ c.outputBuffer_.readable = [] := by
  unfold idle
  by_cases hempty : c.outputBuffer_.readable = []
  · have hwriting := hc.not_writing_of_empty hempty
    simp [hwriting, hc.readableBytes_eq_zero.mpr hempty, hempty]
  · have hwriting := hc.writing.mpr hempty
    simp [hwriting, hempty]

@[simp] theorem isWriting_enableWritingUnless (c : TcpConnection) :
    c.enableWritingUnless.isWriting = true := by
  unfold enableWritingUnless
  split
  next hwriting => exact hwriting
  next => exact c.channel_.isWriting_enableWriting

theorem Kept.silent {op : Op} (hc : c.StreamInv) (haccepted : c.accepted op = []) :
    Kept c op c [] where
  inv := hc
  balance := by simp [haccepted]
  ending := by simp

/-- The direct write takes a front part of the data, and only past an empty
buffer. -/
structure Direct (c : TcpConnection) (data : Bytes) (answer : Answer)
    (attempt : Attempt) : Prop where
  no_fault : attempt.faultError = false
  no_end : .shutdownWrite ∉ attempt.effects
  leaves : data.length - attempt.nwrote = c.leftover data.length answer
  balance : written attempt.effects ++
      (c.outputBuffer_.readable ++ data.drop attempt.nwrote) =
    c.outputBuffer_.readable ++ data

theorem StreamInv.directWrite (hc : c.StreamInv) {data : Bytes} {answer : Answer}
    (hanswer : ∀ errno, answer = .failed errno → errno.isFault = false) :
    Direct c data answer (c.directWrite data answer) := by
  unfold TcpConnection.directWrite
  by_cases hidle : c.idle
  · have hempty := hc.idle_iff.mp hidle
    rw [if_pos hidle]
    cases answer with
    | wrote n =>
        have hleaves : data.length - min n data.length =
            c.leftover data.length (.wrote n) := by
          simp only [leftover, hidle, if_true]
          omega
        refine ⟨rfl, ?_, hleaves, ?_⟩
        · rw [List.mem_cons, not_or]
          exact ⟨by simp, shutdownWrite_notMem_ite (by simp)⟩
        · rw [written_cons, written_ite rfl]
          simp [Effect.data, hempty]
    | failed errno => exact ⟨hanswer errno rfl, by simp, rfl, by simp⟩
  · have hleaves : data.length = c.leftover data.length answer := by
      cases answer <;> simp [leftover, hidle]
    rw [if_neg hidle]
    exact ⟨rfl, by simp, hleaves, by simp⟩

theorem StreamInv.send_buffered (hc : c.StreamInv) {payload : Bytes}
    {answer : Answer} {attempt : Attempt} {buf : Buffer} {marked : List Effect}
    (hstate : c.state_ = .kConnected) (hdirect : Direct c payload answer attempt)
    (hremaining : 0 < payload.length - attempt.nwrote)
    (happend : c.outputBuffer_.append (payload.drop attempt.nwrote) = .ok buf)
    (hwritten : written marked = []) (hend : .shutdownWrite ∉ marked) :
    Kept c (.send payload answer)
      { c with outputBuffer_ := buf, channel_ := c.enableWritingUnless }
      (attempt.effects ++ marked) := by
  obtain ⟨hbuf, hread, _⟩ := Buffer.append_spec hc.buffer happend
  have hwaits : buf.readable ≠ [] := by
    rw [hread]
    apply List.append_ne_nil_of_right_ne_nil
    rw [← List.length_pos_iff, List.length_drop]
    exact hremaining
  have haccepted : c.accepted (.send payload answer) = payload := if_pos hstate
  refine ⟨⟨hbuf, by simp [hwaits], .inl hstate⟩, ?_, ?_⟩
  · rw [haccepted, written_append, hwritten, List.append_nil, hread,
      hdirect.balance]
  · intro h
    rcases List.mem_append.mp h with h | h
    · exact absurd h hdirect.no_end
    · exact absurd h hend

theorem StreamInv.send_direct (hc : c.StreamInv) {payload : Bytes}
    {answer : Answer} {attempt : Attempt} (hstate : c.state_ = .kConnected)
    (hdirect : Direct c payload answer attempt)
    (hremaining : ¬ 0 < payload.length - attempt.nwrote) :
    Kept c (.send payload answer) c attempt.effects := by
  have hall : payload.drop attempt.nwrote = [] := by
    rw [List.drop_eq_nil_iff]
    omega
  have haccepted : c.accepted (.send payload answer) = payload := if_pos hstate
  have hbalance := hdirect.balance
  rw [hall, List.append_nil] at hbalance
  exact ⟨hc, by rw [haccepted, hbalance], fun h => absurd h hdirect.no_end⟩

theorem StreamInv.send (hc : c.StreamInv) {payload : Bytes} {answer : Answer}
    (hregular : Op.Regular (.send payload answer))
    (hfits : c.BufferTakes (.send payload answer)) :
    ∃ next out, c.send payload answer = .ok (next, out) ∧
      Kept c (.send payload answer) next out := by
  unfold TcpConnection.send
  by_cases hstate : c.state_ = .kConnected
  · have hdirect : Direct c payload answer (c.directWrite payload answer) :=
      hc.directWrite hregular
    rw [if_pos hstate]
    unfold sendInLoop
    rw [if_neg (by rw [hstate]; decide)]
    by_cases hremaining : 0 < payload.length - (c.directWrite payload answer).nwrote
    · have htakes := hfits hstate
      rw [← hdirect.leaves, ← List.length_drop] at htakes
      obtain ⟨buf, happend⟩ := Buffer.append_returns hc.buffer htakes
      simp only [hdirect.no_fault, hremaining, happend, bind, Except.bind]
      exact ⟨_, _, rfl, hc.send_buffered hstate hdirect hremaining happend
        (written_ite rfl) (shutdownWrite_notMem_ite (by simp))⟩
    · simp only [hremaining]
      exact ⟨c, _, by simp; rfl, hc.send_direct hstate hdirect hremaining⟩
  · rw [if_neg hstate]
    exact ⟨c, [], rfl, .silent hc (if_neg hstate)⟩

theorem StreamInv.sendFileInLoop (hc : c.StreamInv) {file : Bytes}
    {answer : Answer} (hfile : c.sendLen_ ≤ file.length)
    (hleaves : c.sendLen_ = 0 ∨
      c.idle ∧ ∃ n, answer = .wrote n ∧ c.sendLen_ ≤ n) :
    (c.sendFileInLoop file answer).1.StreamInv ∧
      written (c.sendFileInLoop file answer).2 ++
          (c.sendFileInLoop file answer).1.outputBuffer_.readable =
        c.outputBuffer_.readable ++ file.take c.sendLen_ ∧
      .shutdownWrite ∉ (c.sendFileInLoop file answer).2 := by
  have hrunning : c.state_ ≠ .kDisconnected := by
    rcases hc.state with hstate | hstate <;> rw [hstate] <;> decide
  unfold TcpConnection.sendFileInLoop
  rw [if_neg hrunning]
  by_cases hidle : c.idle
  · have hempty := hc.idle_iff.mp hidle
    cases answer with
    | wrote n =>
        have hall : min n (min c.sendLen_ file.length) = c.sendLen_ := by
          rcases hleaves with hzero | ⟨_, m, hm, hcount⟩
          · omega
          · cases hm
            omega
        simp only [hidle, if_true, hall, Nat.sub_self, Nat.lt_irrefl, and_false,
          if_false]
        exact ⟨⟨hc.buffer, hc.writing, hc.state⟩,
          by simp [hempty, Effect.data], by simp⟩
    | failed errno =>
        have hzero : c.sendLen_ = 0 := by
          rcases hleaves with hzero | ⟨_, m, hm, _⟩
          · exact hzero
          · cases hm
        simp only [hidle, if_true, hzero, Nat.lt_irrefl, and_false, if_false]
        exact ⟨hc, by simp, by simp⟩
  · have hzero : c.sendLen_ = 0 := by
      rcases hleaves with hzero | ⟨hidle', _⟩
      · exact hzero
      · exact absurd hidle' hidle
    simp only [hidle, Bool.false_eq_true, hzero, Nat.lt_irrefl, and_false,
      if_false]
    exact ⟨hc, by simp, by simp⟩

theorem StreamInv.sendFile (hc : c.StreamInv) {fd : ℤ} {count : ℕ}
    {file : Bytes} {answer : Answer}
    (hregular : Op.Regular (.sendFile fd count file answer))
    (hfits : c.FileLeaves (.sendFile fd count file answer)) :
    Kept c (.sendFile fd count file answer) (c.sendFile fd count file answer).1
      (c.sendFile fd count file answer).2 := by
  unfold TcpConnection.sendFile
  by_cases hstate : c.state_ = .kConnected
  · have haccepted : c.accepted (.sendFile fd count file answer) =
        file.take count := if_pos hstate
    have hnext : { c with sendFd_ := fd, sendLen_ := count }.StreamInv :=
      ⟨hc.buffer, hc.writing, hc.state⟩
    obtain ⟨hinv, hbalance, hnoEnd⟩ :=
      hnext.sendFileInLoop hregular.1 (hfits hstate)
    rw [if_pos hstate]
    exact ⟨hinv, by rw [haccepted, hbalance], fun hend => absurd hend hnoEnd⟩
  · rw [if_neg hstate]
    exact .silent hc (if_neg hstate)

theorem StreamInv.shutdown (hc : c.StreamInv) :
    Kept c .shutdown c.shutdown.1 c.shutdown.2 := by
  unfold TcpConnection.shutdown shutdownInLoop
  by_cases hstate : c.state_ = .kConnected
  · rw [if_pos hstate]
    have hnext : { c with state_ := .kDisconnecting }.StreamInv :=
      ⟨hc.buffer, hc.writing, .inr rfl⟩
    cases hwriting : c.channel_.isWriting with
    | true => exact ⟨hnext, by simp [hwriting, accepted], by simp [hwriting]⟩
    | false =>
        have hempty := hc.empty_of_not_writing hwriting
        refine ⟨hnext, by simp [hwriting, accepted, Effect.data], ?_⟩
        intro _
        exact ⟨⟨rfl, hempty⟩, [], by simp [hwriting], by simp⟩
  · rw [if_neg hstate]
    exact .silent hc rfl

theorem StreamInv.take_append_retrieve (hc : c.StreamInv) (k : ℕ) :
    c.outputBuffer_.readable.take k ++ (c.outputBuffer_.retrieve k).readable =
      c.outputBuffer_.readable := by
  rw [Buffer.readable_retrieve hc.buffer, List.take_append_drop]

theorem StreamInv.handleWrite_partly (hc : c.StreamInv) {k : ℕ} {answer : Answer}
    (hwriting : c.channel_.isWriting = true)
    (hwaits : (c.outputBuffer_.retrieve k).readable ≠ []) :
    Kept c (.handleWrite answer)
      { c with outputBuffer_ := c.outputBuffer_.retrieve k }
      [.write (c.outputBuffer_.readable.take k)] where
  inv := ⟨Buffer.retrieve_inv hc.buffer k, iff_of_true hwriting hwaits, hc.state⟩
  balance := by
    simpa [accepted, Effect.data] using hc.take_append_retrieve k
  ending := by simp

theorem StreamInv.handleWrite_drained (hc : c.StreamInv) {k : ℕ} {answer : Answer}
    (hempty : (c.outputBuffer_.retrieve k).readable = []) :
    Kept c (.handleWrite answer)
      { c with
        outputBuffer_ := c.outputBuffer_.retrieve k
        channel_ := c.channel_.disableWriting }
      (.write (c.outputBuffer_.readable.take k) ::
        ((if c.writeCompleteCallback_ then [.writeComplete] else []) ++
          if c.state_ = .kDisconnecting then [.shutdownWrite] else [])) where
  inv := ⟨Buffer.retrieve_inv hc.buffer k, by simp [hempty], hc.state⟩
  balance := by
    rw [written_cons, written_append, written_ite rfl, written_ite rfl]
    simpa [accepted, Effect.data] using hc.take_append_retrieve k
  ending := by
    intro hend
    have hcomplete : .shutdownWrite ∉
        (if c.writeCompleteCallback_ then [Effect.writeComplete] else []) :=
      shutdownWrite_notMem_ite (by simp)
    have hclosing : c.state_ = .kDisconnecting := by
      by_contra hopen
      rw [if_neg hopen, List.append_nil] at hend
      rcases List.mem_cons.mp hend with hend | hend
      · cases hend
      · exact hcomplete hend
    refine ⟨⟨hclosing, hempty⟩, .write (c.outputBuffer_.readable.take k) ::
      if c.writeCompleteCallback_ then [.writeComplete] else [], ?_, ?_⟩
    · rw [if_pos hclosing, ← List.cons_append]
    · rw [List.mem_cons, not_or]
      exact ⟨by simp, hcomplete⟩

theorem StreamInv.handleWrite (hc : c.StreamInv) (answer : Answer) :
    Kept c (.handleWrite answer) (c.handleWrite answer).1
      (c.handleWrite answer).2 := by
  unfold TcpConnection.handleWrite
  cases hwriting : c.channel_.isWriting with
  | false => exact .silent hc rfl
  | true =>
      cases answer with
      | failed errno => exact .silent hc rfl
      | wrote n =>
          simp only [if_true]
          generalize min n c.outputBuffer_.readableBytes = k
          have hlength := Buffer.length_readable (Buffer.retrieve_inv hc.buffer k)
          by_cases hk : 0 < k
          · rw [if_pos hk]
            by_cases hdrained : (c.outputBuffer_.retrieve k).readableBytes = 0
            · have hempty : (c.outputBuffer_.retrieve k).readable = [] := by
                rw [← List.length_eq_zero_iff, hlength, hdrained]
              rw [if_pos hdrained]
              simp only [shutdownInLoop, Channel.isWriting_disableWriting,
                Bool.not_false, if_true]
              exact hc.handleWrite_drained hempty
            · have hwaits : (c.outputBuffer_.retrieve k).readable ≠ [] := by
                rw [Ne, ← List.length_eq_zero_iff, hlength]
                exact hdrained
              rw [if_neg hdrained]
              exact hc.handleWrite_partly hwriting hwaits
          · have hzero : k = 0 := by omega
            rw [if_neg hk, hzero]
            exact ⟨hc, by simp [accepted, Effect.data], by simp⟩

theorem step_kept (hc : c.StreamInv) {op : Op} (hregular : op.Regular)
    (hfits : c.Fits op) :
    ∃ next out, c.step op = .ok (next, out) ∧ Kept c op next out := by
  cases op with
  | send payload answer => exact hc.send hregular hfits.1
  | sendFile fd count file answer => exact ⟨_, _, rfl, hc.sendFile hregular hfits.2⟩
  | shutdown => exact ⟨_, _, rfl, hc.shutdown⟩
  | handleWrite answer => exact ⟨_, _, rfl, hc.handleWrite answer⟩

theorem step_returns (hc : c.StreamInv) {op : Op} (hop : op.Regular ∧ c.Fits op) :
    ∃ next out, c.step op = .ok (next, out) ∧ next.StreamInv := by
  obtain ⟨next, out, hnext, hkept⟩ := step_kept hc hop.1 hop.2
  exact ⟨next, out, hnext, hkept.inv⟩

end Step

/-! ## Runs -/

theorem Finished.step_silent {c : TcpConnection} (hfinished : c.Finished)
    (hc : c.StreamInv) (op : Op) :
    c.step op = .ok (c, []) ∧ c.accepted op = [] := by
  have hclosed : c.state_ ≠ .kConnected := by
    rw [hfinished.state]
    decide
  have hquiet := hc.not_writing_of_empty hfinished.empty
  cases op with
  | send payload answer => exact ⟨if_neg hclosed, if_neg hclosed⟩
  | sendFile fd count file answer =>
      exact ⟨congrArg Except.ok (if_neg hclosed), if_neg hclosed⟩
  | shutdown => exact ⟨congrArg Except.ok (if_neg hclosed), rfl⟩
  | handleWrite answer =>
      refine ⟨congrArg Except.ok ?_, rfl⟩
      unfold handleWrite
      rw [hquiet]
      rfl

theorem Finished.run_silent {c final : TcpConnection} (hfinished : c.Finished)
    (hc : c.StreamInv) {ops : List Op} {calls : List StreamCall}
    (hrun : Execution.run step c ops = .ok (final, calls)) :
    final = c ∧ effects calls = [] ∧ acceptedBytes calls = [] := by
  induction ops generalizing calls with
  | nil =>
      obtain ⟨hfinal, rfl⟩ := run_nil_eq_ok.mp hrun
      exact ⟨hfinal, rfl, rfl⟩
  | cons op ops ih =>
      obtain ⟨next, out, rest, hfirst, hrest, rfl⟩ := run_cons_eq_ok.mp hrun
      obtain ⟨hsilent, haccepted⟩ := hfinished.step_silent hc op
      rw [hsilent] at hfirst
      cases hfirst
      have htail := ih hrest
      unfold effects acceptedBytes at htail ⊢
      rw [List.flatMap_cons, List.flatMap_cons, htail.2.1, htail.2.2, haccepted]
      exact ⟨htail.1, rfl, rfl⟩

/-- The end of the stream comes after everything that was accepted, when the
channel is not writing, and nothing comes after it. -/
def EndsLast (final : TcpConnection) (calls : List StreamCall) : Prop :=
  ∀ before after, effects calls = before ++ .shutdownWrite :: after →
    written before = acceptedBytes calls ∧
      final.channel_.isWriting = false ∧ after = []

theorem endsLast_of_guarded {c final : TcpConnection} (hc : c.StreamInv)
    {ops : List Op} {calls : List StreamCall}
    (hrun : Execution.run step c ops = .ok (final, calls))
    (hguard : ∀ call ∈ calls, call.input.Regular ∧ call.pre.Fits call.input) :
    ∀ before after, effects calls = before ++ .shutdownWrite :: after →
      written before = c.outputBuffer_.readable ++ acceptedBytes calls ∧
        final.channel_.isWriting = false ∧ after = [] := by
  induction ops generalizing c calls with
  | nil =>
      rw [(run_nil_eq_ok.mp hrun).2]
      intro before after hsplit
      exact absurd hsplit.symm (by simp [effects])
  | cons op ops ih =>
      obtain ⟨next, out, rest, hfirst, hrest, rfl⟩ := run_cons_eq_ok.mp hrun
      obtain ⟨hop, htail⟩ := List.forall_mem_cons.mp hguard
      obtain ⟨next', out', hstep, hkept⟩ := step_kept hc hop.1 hop.2
      rw [hfirst, Except.ok.injEq] at hstep
      cases hstep
      have heffects : effects (⟨c, op, out⟩ :: rest) = out ++ effects rest :=
        List.flatMap_cons
      have hbytes : acceptedBytes (⟨c, op, out⟩ :: rest) =
          c.accepted op ++ acceptedBytes rest := List.flatMap_cons
      intro before after hsplit
      rw [heffects] at hsplit
      rw [hbytes, ← List.append_assoc, ← hkept.balance]
      by_cases hend : .shutdownWrite ∈ out
      · obtain ⟨hfinished, front, rfl, hfront⟩ := hkept.ending hend
        obtain ⟨hfinal, hnothing, hnone⟩ :=
          hfinished.run_silent hkept.inv hrest
        rw [hnothing, List.append_nil,
          List.append_cons_inj_of_notMem hfront (by simp)] at hsplit
        obtain ⟨rfl, _, rfl⟩ := hsplit
        rw [hnone, hfinal, hfinished.empty]
        exact ⟨by simp [Effect.data], hkept.inv.not_writing_of_empty hfinished.empty, rfl⟩
      · have hlater : ∃ between, before = out ++ between ∧
            effects rest = between ++ .shutdownWrite :: after := by
          rcases List.append_eq_append_iff.mp hsplit with
            ⟨between, hbefore, hrest'⟩ | ⟨between, hout, hrest'⟩
          · exact ⟨between, hbefore, hrest'⟩
          · cases between with
            | nil => exact ⟨[], by simpa using hout.symm, by simpa using hrest'.symm⟩
            | cons effect between =>
                have heffect := (List.cons.inj hrest').1
                rw [hout, ← heffect] at hend
                exact absurd (by simp) hend
        obtain ⟨between, rfl, hsplit'⟩ := hlater
        obtain ⟨hbetween, hquiet⟩ := ih hkept.inv hrest htail between after hsplit'
        rw [written_append, hbetween, List.append_assoc]
        exact ⟨rfl, hquiet⟩

/-- A call of a run that follows from what the kernel and the files do. -/
def Sound (call : StreamCall) : Prop :=
  call.input.Regular ∧ call.pre.Fits call.input

theorem balance_run {c final : TcpConnection} {ops : List Op} {calls : List StreamCall}
    (hc : c.StreamInv) (hrun : Execution.run step c ops = .ok (final, calls))
    (hsound : ∀ call ∈ calls, Sound call) :
    final.StreamInv ∧ written (effects calls) ++ final.outputBuffer_.readable =
      c.outputBuffer_.readable ++ acceptedBytes calls := by
  have hkept : ∀ (c : TcpConnection) (op : Op) (next : TcpConnection) (out : List Effect),
      c.StreamInv → op.Regular ∧ c.Fits op → c.step op = .ok (next, out) →
        next.StreamInv ∧ written out ++ next.outputBuffer_.readable =
          c.outputBuffer_.readable ++ c.accepted op := by
    intro c op next out hc hop hnext
    obtain ⟨next', out', hnext', hkept⟩ := step_kept hc hop.1 hop.2
    rw [hnext, Except.ok.injEq] at hnext'
    cases hnext'
    exact ⟨hkept.inv, hkept.balance⟩
  have hfinal := (run_invariant (fun c op next out hc hop hnext =>
    (hkept c op next out hc hop hnext).1) hrun hc hsound).1
  refine ⟨hfinal, ?_⟩
  rw [written_effects]
  exact run_balance hkept hrun hc hsound

/-- A connection that is up, with the callbacks that its user has set. -/
def establishedWith (writeComplete highWater : Bool) (mark : ℕ) : TcpConnection :=
  { established with
    writeCompleteCallback_ := writeComplete
    highWaterMarkCallback_ := highWater
    highWaterMark_ := mark }

theorem establishedWith_inv (writeComplete highWater : Bool) (mark : ℕ) :
    (establishedWith writeComplete highWater mark).StreamInv :=
  ⟨established_inv.buffer, established_inv.writing, established_inv.state⟩

section Established

variable {writeComplete highWater : Bool} {mark : ℕ}

theorem stream_run {ops : List Op} (hregular : ∀ op ∈ ops, op.Regular)
    (hfits : Guarded step Fits (establishedWith writeComplete highWater mark) ops) :
    ∃ final calls,
      Execution.run step (establishedWith writeComplete highWater mark) ops =
        .ok (final, calls) ∧
      final.StreamInv ∧ EndsLast final calls ∧
      written (effects calls) ++ final.outputBuffer_.readable =
        acceptedBytes calls := by
  have hstart := establishedWith_inv writeComplete highWater mark
  obtain ⟨final, calls, hrun, hguard⟩ :=
    (hfits.and_forall hregular).run (fun _ _ hc hop => step_returns hc hop) hstart
  obtain ⟨hfinal, hsum⟩ := balance_run hstart hrun hguard
  have hends := endsLast_of_guarded hstart hrun hguard
  have hempty : (establishedWith writeComplete highWater mark).outputBuffer_.readable = [] :=
    Buffer.initial_readable
  rw [hempty, List.nil_append] at hsum
  refine ⟨final, calls, hrun, hfinal, ?_, hsum⟩
  intro before after hsplit
  have hlast := hends before after hsplit
  rw [hempty, List.nil_append] at hlast
  exact hlast

theorem stream_run_prefix {ops done : List Op}
    (hregular : ∀ op ∈ ops, op.Regular)
    (hfits : Guarded step Fits (establishedWith writeComplete highWater mark) ops)
    (hdone : done <+: ops) :
    ∃ final calls,
      Execution.run step (establishedWith writeComplete highWater mark) done =
        .ok (final, calls) ∧
      final.StreamInv ∧ EndsLast final calls ∧
      written (effects calls) ++ final.outputBuffer_.readable =
        acceptedBytes calls := by
  obtain ⟨later, rfl⟩ := hdone
  exact stream_run (List.forall_mem_append.mp hregular).1 hfits.of_append

end Established

/-- What payloads are promised in every state of a run on an established
connection. -/
def StreamHolds (start : TcpConnection) (ops : List Op) : Prop :=
  ∀ done, done <+: ops →
    ∃ final calls, Execution.run step start done = .ok (final, calls) ∧
      written (effects calls) ++ final.outputBuffer_.readable =
        acceptedBytes calls ∧
      (final.channel_.isWriting = true ↔ final.outputBuffer_.readable ≠ []) ∧
      EndsLast final calls

/-- Without files the output is one stream in every run whose leftovers the
buffer can take. -/
theorem output_stream_holds {writeComplete highWater : Bool} {mark : ℕ} {ops : List Op}
    (hbuffered : ∀ op ∈ ops, op.Buffered) (hregular : ∀ op ∈ ops, op.Regular)
    (htakes : Guarded step BufferTakes (establishedWith writeComplete highWater mark) ops) :
    StreamHolds (establishedWith writeComplete highWater mark) ops := by
  have hfits : Guarded step Fits (establishedWith writeComplete highWater mark) ops := by
    apply (htakes.and_forall hbuffered).mono
    intro c op hop
    refine ⟨hop.2, ?_⟩
    cases op with
    | sendFile fd count file answer => exact hop.1.elim
    | send payload answer => trivial
    | shutdown => trivial
    | handleWrite answer => trivial
  intro done hdone
  obtain ⟨final, calls, hrun, hfinal, hends, hbalance⟩ :=
    stream_run_prefix hregular hfits hdone
  exact ⟨final, calls, hrun, hbalance, hfinal.writing, hends⟩

theorem output_stream_holds_hello :
    StreamHolds (establishedWith true false 0) [.send (ascii "hello") (.wrote 2), .shutdown,
      .handleWrite (.wrote 3)] := by
  apply output_stream_holds
  · simp [Op.Buffered]
  · simp [Op.Regular]
  · refine ⟨?_, fun _ _ _ => ⟨trivial, fun _ _ _ => ⟨trivial, fun _ _ _ => trivial⟩⟩⟩
    intro _
    exact .of_lt (by decide) (lt_maxSize (by decide)).le

theorem append_of_step_blocked {payload : Bytes} {next : TcpConnection}
    {out : List Effect} (hpayload : 0 < payload.length)
    (hstep : established.step (.send payload (.failed .EWOULDBLOCK)) =
      .ok (next, out)) : ∃ buf, Buffer.initial.append payload = .ok buf := by
  have hidle : established.idle = true := by
    rw [established_inv.idle_iff]
    exact Buffer.initial_readable
  have hattempt : established.directWrite payload (.failed .EWOULDBLOCK) = {} := by
    unfold directWrite
    rw [if_pos hidle]
    rfl
  change established.send payload (.failed .EWOULDBLOCK) = .ok (next, out) at hstep
  have hstate : established.state_ = .kConnected := rfl
  unfold send sendInLoop at hstep
  rw [if_pos hstate, if_neg (by rw [hstate]; decide), hattempt] at hstep
  simp only [Nat.sub_zero, hpayload, Bool.not_false, and_self, if_true,
    List.drop_zero] at hstep
  obtain ⟨buf, happend, _⟩ := bind_eq_ok.mp hstep
  exact ⟨buf, happend⟩

/-- A payload of `2 ^ 31` bytes that the kernel does not take is lost in
`append`. -/
theorem not_streamHolds_large :
    let op := Op.send (List.replicate (2 ^ 31) 0) (.failed .EWOULDBLOCK)
    op.Buffered ∧ op.Regular ∧ ¬ StreamHolds established [op] := by
  intro op
  refine ⟨trivial, by intro errno h; cases h; rfl, ?_⟩
  intro h
  obtain ⟨final, calls, hrun, _⟩ := h [op] List.prefix_rfl
  obtain ⟨next, out, _, hstep, _⟩ := run_cons_eq_ok.mp hrun
  have hlarge : 2 ^ 31 ≤ (List.replicate (2 ^ 31) (0 : UInt8)).length :=
    List.length_replicate.ge
  obtain ⟨buf, happend⟩ := append_of_step_blocked (by omega) hstep
  exact absurd (Buffer.append_initial_lt happend) (not_lt.mpr hlarge)

/-- What payloads and files are promised in every state of a run. -/
def FilesHold (start : TcpConnection) (ops : List Op) : Prop :=
  ∀ done, done <+: ops →
    ∃ final calls, Execution.run step start done = .ok (final, calls) ∧
      (final.channel_.isWriting = false →
        written (effects calls) = acceptedBytes calls) ∧
      ∀ before after, effects calls = before ++ .shutdownWrite :: after →
        written before = acceptedBytes calls ∧ final.channel_.isWriting = false

/-- Nothing is lost in a run in which every file leaves at once. -/
theorem files_hold {writeComplete highWater : Bool} {mark : ℕ} {ops : List Op}
    (hregular : ∀ op ∈ ops, op.Regular)
    (hfits : Guarded step Fits (establishedWith writeComplete highWater mark) ops) :
    FilesHold (establishedWith writeComplete highWater mark) ops := by
  intro done hdone
  obtain ⟨final, calls, hrun, hfinal, hends, hbalance⟩ :=
    stream_run_prefix hregular hfits hdone
  refine ⟨final, calls, hrun, ?_, ?_⟩
  · intro hquiet
    rw [hfinal.empty_of_not_writing hquiet, List.append_nil] at hbalance
    exact hbalance
  · intro before after hsplit
    obtain ⟨hlast, hquiet, _⟩ := hends before after hsplit
    exact ⟨hlast, hquiet⟩

theorem files_hold_abc :
    FilesHold (establishedWith true true 1) [.sendFile 3 3 (ascii "abc") (.wrote 3), .shutdown] := by
  apply files_hold
  · simp [Op.Regular]
    decide
  · refine ⟨⟨trivial, ?_⟩, fun _ _ _ => ⟨⟨trivial, trivial⟩, fun _ _ _ => trivial⟩⟩
    intro _
    exact .inr ⟨by decide +kernel, 3, rfl, le_rfl⟩

/-- One byte of a header waits when the file comes: the file is never sent,
and the channel stops writing. -/
theorem not_filesHold_header :
    let ops := [Op.send (ascii "hd") (.wrote 1), .sendFile 3 3 (ascii "abc") (.wrote 3),
      .handleWrite (.wrote 1)]
    (∀ op ∈ ops, op.Regular) ∧ ¬ FilesHold established ops := by
  intro ops
  refine ⟨by simp [ops, Op.Regular]; decide, ?_⟩
  intro h
  obtain ⟨final, calls, hrun, hwritten, _⟩ := h ops List.prefix_rfl
  have hcheck : (Execution.run step established ops).map (fun r =>
      (r.1.channel_.isWriting, written (effects r.2), acceptedBytes r.2)) =
      .ok (false, ascii "hd", ascii "hdabc") := by
    decide +kernel
  rw [hrun] at hcheck
  obtain ⟨hquiet, hresult⟩ := Prod.mk.inj (Except.ok.inj hcheck)
  obtain ⟨hout, hin⟩ := Prod.mk.inj hresult
  have hsame := hwritten hquiet
  rw [hout, hin] at hsame
  exact absurd hsame (by decide)

end TcpConnection

end MyFileServer
