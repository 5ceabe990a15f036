import MyFileServer.Net.OutputStream

/-!
# The callbacks of the sender

A user of a connection who sends faster than the client reads is told by two
callbacks: `highWaterMarkCallback_` when the bytes that wait have reached the
mark, and `writeCompleteCallback_` when none of them waits any more.
-/

namespace MyFileServer

open Execution

/-- The level that a call of `highWaterMarkCallback_` is given. -/
def Effect.level? : Effect → Option ℕ
  | .highWaterMark len => some len
  | _ => none

def marks (effects : List Effect) : List ℕ :=
  effects.filterMap Effect.level?

def completes (effects : List Effect) : ℕ :=
  effects.count .writeComplete

@[simp] theorem marks_nil : marks [] = [] := rfl

@[simp] theorem marks_write (data : Bytes) (effects : List Effect) :
    marks (.write data :: effects) = marks effects := rfl

@[simp] theorem marks_append (effects₁ effects₂ : List Effect) :
    marks (effects₁ ++ effects₂) = marks effects₁ ++ marks effects₂ :=
  List.filterMap_append

@[simp] theorem completes_nil : completes [] = 0 := rfl

@[simp] theorem completes_write (data : Bytes) (effects : List Effect) :
    completes (.write data :: effects) = completes effects :=
  List.count_cons_of_ne (by simp)

@[simp] theorem completes_append (effects₁ effects₂ : List Effect) :
    completes (effects₁ ++ effects₂) = completes effects₁ + completes effects₂ :=
  List.count_append

/-- The report of a level that goes from `l` to `l'`. -/
def crossed (mark l l' : ℕ) : List ℕ :=
  if l < mark ∧ mark ≤ l' then [l'] else []

theorem crossed_of_le {mark l l' : ℕ} (hle : l' ≤ l) : crossed mark l l' = [] :=
  if_neg (by omega)

namespace TcpConnection

/-- The bytes that wait. -/
def waiting (c : TcpConnection) : ℕ :=
  c.outputBuffer_.readable.length

/-- The bytes accepted by the calls that the kernel has not taken. -/
def level (calls : List StreamCall) : ℕ :=
  (acceptedBytes calls).length - (written (effects calls)).length

/-- A payload of a connection that is up, with a count as the answer. -/
def Op.counted (c : TcpConnection) : Op → Bool
  | .send _ (.wrote _) => c.state_ = .kConnected
  | _ => false

/-- Both callbacks are set. -/
structure Watched (mark : ℕ) (c : TcpConnection) : Prop where
  inv : c.StreamInv
  high : c.highWaterMarkCallback_ = true
  mark_eq : c.highWaterMark_ = mark
  complete : c.writeCompleteCallback_ = true

def watched (mark : ℕ) : TcpConnection :=
  establishedWith true true mark

theorem watched_watched (mark : ℕ) : Watched mark (watched mark) :=
  ⟨establishedWith_inv true true mark, rfl, rfl, rfl⟩

/-- What a step reports of the bytes that wait. -/
structure Noted (mark : ℕ) (c : TcpConnection) (op : Op) (next : TcpConnection)
    (out : List Effect) : Prop where
  watched : Watched mark next
  high : marks out = crossed mark c.waiting next.waiting
  complete : completes out =
    if next.waiting = 0 ∧ (c.waiting ≠ 0 ∨ op.counted c) then 1 else 0

section Step

variable {mark : ℕ} {c next : TcpConnection} {out : List Effect}

theorem StreamInv.waiting_eq (hc : c.StreamInv) :
    c.waiting = c.outputBuffer_.readableBytes :=
  Buffer.length_readable hc.buffer

/-- A step that keeps the bytes that wait. -/
theorem Noted.level {op : Op} (hnext : Watched mark next) (hsame : next.waiting = c.waiting)
    (hop : op.counted c = false) (hmarks : marks out = []) (hcompletes : completes out = 0) :
    Noted mark c op next out where
  watched := hnext
  high := by
    rw [hsame, crossed_of_le le_rfl, hmarks]
  complete := by
    rw [hsame, hop, hcompletes, if_neg (by simp)]

theorem Noted.silent {op : Op} (hc : Watched mark c) (hop : op.counted c = false) :
    Noted mark c op c [] :=
  .level hc rfl hop rfl rfl

theorem Watched.waiting_eq_zero_iff (hc : Watched mark c) : c.waiting = 0 ↔ c.idle = true := by
  unfold waiting
  rw [List.length_eq_zero_iff, hc.inv.idle_iff]

theorem Watched.directWrite (hc : Watched mark c) (payload : Bytes) (answer : Answer)
    (hstate : c.state_ = .kConnected) :
    marks (c.directWrite payload answer).effects = [] ∧
      completes (c.directWrite payload answer).effects =
        if payload.length - (c.directWrite payload answer).nwrote = 0 ∧ c.idle = true ∧
            Op.counted c (.send payload answer)
        then 1 else 0 := by
  unfold TcpConnection.directWrite
  by_cases hidle : c.idle
  · rw [if_pos hidle]
    cases answer with
    | wrote n =>
        have hcounted : Op.counted c (.send payload (.wrote n)) = true := decide_eq_true hstate
        simp only [hc.complete, hidle, hcounted, and_true, marks_write, completes_write]
        split_ifs <;> exact ⟨rfl, rfl⟩
    | failed errno => exact ⟨rfl, (if_neg (by simp [Op.counted])).symm⟩
  · rw [if_neg hidle]
    exact ⟨rfl, (if_neg (by simp [hidle])).symm⟩

/-- The test that `sendInLoop` makes before it appends. -/
theorem Watched.marked (hc : Watched mark c) (remaining : ℕ) :
    marks (if c.highWaterMark_ ≤ c.outputBuffer_.readableBytes + remaining ∧
        c.outputBuffer_.readableBytes < c.highWaterMark_ ∧ c.highWaterMarkCallback_ then
      [.highWaterMark (c.outputBuffer_.readableBytes + remaining)] else []) =
        crossed mark c.waiting (c.waiting + remaining) := by
  unfold crossed
  rw [hc.mark_eq, hc.high, ← hc.inv.waiting_eq]
  split_ifs with hmark hcross hcross
  · rfl
  · exact absurd ⟨hmark.2.1, hmark.1⟩ hcross
  · exact absurd ⟨hcross.2, hcross.1, rfl⟩ hmark
  · rfl

theorem Watched.send (hc : Watched mark c) {payload : Bytes} {answer : Answer}
    (hregular : Op.Regular (.send payload answer)) (hinv : next.StreamInv)
    (hstep : c.send payload answer = .ok (next, out)) :
    Noted mark c (.send payload answer) next out := by
  unfold TcpConnection.send at hstep
  by_cases hstate : c.state_ = .kConnected
  · obtain ⟨hmarks, hcompletes⟩ := hc.directWrite payload answer hstate
    have hdirect : Direct c payload answer (c.directWrite payload answer) :=
      hc.inv.directWrite hregular
    rw [if_pos hstate] at hstep
    unfold sendInLoop at hstep
    rw [if_neg (by rw [hstate]; decide)] at hstep
    by_cases hremaining : 0 < payload.length - (c.directWrite payload answer).nwrote
    · simp only [hdirect.no_fault, hremaining] at hstep
      obtain ⟨buf, happend, hnext⟩ := bind_eq_ok.mp hstep
      cases hnext
      obtain ⟨hbuf, hread, _⟩ := Buffer.append_spec hc.inv.buffer happend
      have hlevel : buf.readable.length =
          c.waiting + (payload.length - (c.directWrite payload answer).nwrote) := by
        rw [hread, List.length_append, List.length_drop]
        rfl
      have hsome : ¬ (payload.length - (c.directWrite payload answer).nwrote = 0 ∧
          c.idle = true ∧ Op.counted c (.send payload answer)) := by
        rintro ⟨hzero, _⟩
        omega
      rw [if_neg hsome] at hcompletes
      refine ⟨⟨hinv, hc.high, hc.mark_eq, hc.complete⟩, ?_, ?_⟩
      · rw [marks_append, hmarks, List.nil_append, hc.marked, ← hlevel]
        rfl
      · have hwaits : ¬ (buf.readable.length = 0 ∧
            (c.waiting ≠ 0 ∨ Op.counted c (.send payload answer) = true)) := by
          rintro ⟨hzero, _⟩
          omega
        rw [completes_append, hcompletes]
        refine Eq.trans ?_ (if_neg hwaits).symm
        split_ifs <;> rfl
    · rw [if_neg (not_and_of_not_right _ hremaining)] at hstep
      obtain ⟨rfl, rfl⟩ := Prod.mk.inj (Except.ok.inj hstep)
      refine ⟨hc, hmarks.trans (crossed_of_le le_rfl).symm, hcompletes.trans ?_⟩
      refine if_congr ?_ rfl rfl
      rw [hc.waiting_eq_zero_iff]
      constructor
      · rintro ⟨_, hidle, hcounted⟩
        exact ⟨hidle, .inr hcounted⟩
      · rintro ⟨hidle, hwaits | hcounted⟩
        · exact absurd (hc.waiting_eq_zero_iff.mpr hidle) hwaits
        · exact ⟨by omega, hidle, hcounted⟩
  · rw [if_neg hstate] at hstep
    cases hstep
    refine .silent hc ?_
    cases answer with
    | wrote n => exact decide_eq_false hstate
    | failed errno => rfl

/-- Files are not reported. -/
structure Unreported (c next : TcpConnection) (out : List Effect) : Prop where
  buffer : next.outputBuffer_ = c.outputBuffer_
  high : next.highWaterMarkCallback_ = c.highWaterMarkCallback_
  mark_eq : next.highWaterMark_ = c.highWaterMark_
  complete : next.writeCompleteCallback_ = c.writeCompleteCallback_
  marks_eq : marks out = []
  completes_eq : completes out = 0

theorem unreported_sendFileInLoop (c : TcpConnection) (file : Bytes) (answer : Answer) :
    Unreported c (c.sendFileInLoop file answer).1 (c.sendFileInLoop file answer).2 := by
  unfold sendFileInLoop
  by_cases hclosed : c.state_ = .kDisconnected
  · rw [if_pos hclosed]
    exact ⟨rfl, rfl, rfl, rfl, rfl, rfl⟩
  · rw [if_neg hclosed]
    cases hidle : c.idle with
    | false =>
        simp only [Bool.false_eq_true, if_false]
        split_ifs <;> exact ⟨rfl, rfl, rfl, rfl, rfl, rfl⟩
    | true =>
        simp only [if_true]
        cases answer <;> dsimp only <;> split_ifs <;> exact ⟨rfl, rfl, rfl, rfl, rfl, rfl⟩

theorem Watched.sendFile (hc : Watched mark c) {fd : ℤ} {count : ℕ} {file : Bytes}
    {answer : Answer} (hregular : Op.Regular (.sendFile fd count file answer))
    (hfits : c.FileLeaves (.sendFile fd count file answer)) :
    Noted mark c (.sendFile fd count file answer) (c.sendFile fd count file answer).1
      (c.sendFile fd count file answer).2 := by
  have hinv := (hc.inv.sendFile hregular hfits).inv
  unfold TcpConnection.sendFile at hinv ⊢
  by_cases hstate : c.state_ = .kConnected
  · rw [if_pos hstate] at hinv ⊢
    have hquiet := unreported_sendFileInLoop { c with sendFd_ := fd, sendLen_ := count } file answer
    refine .level ⟨hinv, hquiet.high.trans hc.high, hquiet.mark_eq.trans hc.mark_eq,
      hquiet.complete.trans hc.complete⟩ ?_ rfl hquiet.marks_eq hquiet.completes_eq
    exact congrArg (fun buf : Buffer => buf.readable.length) hquiet.buffer
  · rw [if_neg hstate]
    exact .silent hc rfl

theorem Watched.shutdown (hc : Watched mark c) :
    Noted mark c .shutdown c.shutdown.1 c.shutdown.2 := by
  have hinv := hc.inv.shutdown.inv
  unfold TcpConnection.shutdown shutdownInLoop at hinv ⊢
  by_cases hstate : c.state_ = .kConnected
  · rw [if_pos hstate] at hinv ⊢
    dsimp only at hinv ⊢
    refine .level ⟨hinv, hc.high, hc.mark_eq, hc.complete⟩ rfl rfl ?_ ?_
    · split_ifs <;> rfl
    · split_ifs <;> rfl
  · rw [if_neg hstate]
    exact .silent hc rfl

theorem Watched.handleWrite (hc : Watched mark c) (answer : Answer) :
    Noted mark c (.handleWrite answer) (c.handleWrite answer).1 (c.handleWrite answer).2 := by
  have hinv := (hc.inv.handleWrite answer).inv
  unfold TcpConnection.handleWrite at hinv ⊢
  cases hwriting : c.channel_.isWriting with
  | false => exact .silent hc rfl
  | true =>
      cases answer with
      | failed errno => exact .silent hc rfl
      | wrote n =>
          simp only [hwriting, if_true] at hinv ⊢
          have hpending : c.waiting ≠ 0 := fun hzero =>
            hc.inv.writing.mp hwriting (List.length_eq_zero_iff.mp hzero)
          generalize min n c.outputBuffer_.readableBytes = k at hinv ⊢
          have hlevel : (c.outputBuffer_.retrieve k).readable.length = c.waiting - k := by
            rw [Buffer.readable_retrieve hc.inv.buffer, List.length_drop]
            rfl
          have hempty : (c.outputBuffer_.retrieve k).readableBytes =
              (c.outputBuffer_.retrieve k).readable.length :=
            (Buffer.length_readable (Buffer.retrieve_inv hc.inv.buffer k)).symm
          by_cases hk : 0 < k
          · rw [if_pos hk] at hinv ⊢
            by_cases hdrained : (c.outputBuffer_.retrieve k).readableBytes = 0
            · rw [if_pos hdrained] at hinv ⊢
              refine ⟨⟨hinv, hc.high, hc.mark_eq, hc.complete⟩, ?_, ?_⟩
              · refine Eq.trans ?_ (crossed_of_le (hlevel.le.trans (Nat.sub_le _ _))).symm
                simp only [shutdownInLoop, marks_write, marks_append, hc.complete]
                split_ifs <;> rfl
              · have hall : (c.outputBuffer_.retrieve k).readable.length = 0 ∧
                    (c.waiting ≠ 0 ∨ Op.counted c (.handleWrite (.wrote n)) = true) :=
                  ⟨hempty.symm.trans hdrained, .inl hpending⟩
                refine Eq.trans ?_ (if_pos hall).symm
                simp only [shutdownInLoop, completes_write, completes_append, hc.complete]
                split_ifs <;> rfl
            · rw [if_neg hdrained] at hinv ⊢
              refine ⟨⟨hinv, hc.high, hc.mark_eq, hc.complete⟩, ?_, ?_⟩
              · exact (crossed_of_le (hlevel.le.trans (Nat.sub_le _ _))).symm
              · refine (if_neg ?_).symm
                rintro ⟨hzero, _⟩
                exact hdrained (hempty.trans hzero)
          · rw [if_neg hk] at hinv ⊢
            exact .level hc rfl rfl rfl rfl

theorem Watched.step (hc : Watched mark c) {op : Op} (hregular : op.Regular)
    (hfits : c.Fits op) (hstep : c.step op = .ok (next, out)) : Noted mark c op next out := by
  obtain ⟨next', out', hsame, hkept⟩ := step_kept hc.inv hregular hfits
  rw [hstep, Except.ok.injEq] at hsame
  cases hsame
  cases op with
  | send payload answer => exact hc.send hregular hkept.inv hstep
  | sendFile fd count file answer =>
      obtain ⟨rfl, rfl⟩ := Prod.mk.inj (Except.ok.inj hstep)
      exact hc.sendFile hregular hfits.2
  | shutdown =>
      obtain ⟨rfl, rfl⟩ := Prod.mk.inj (Except.ok.inj hstep)
      exact hc.shutdown
  | handleWrite answer =>
      obtain ⟨rfl, rfl⟩ := Prod.mk.inj (Except.ok.inj hstep)
      exact hc.handleWrite answer

end Step

/-! ## Runs -/

variable {mark : ℕ} {c final : TcpConnection} {ops : List Op} {calls : List StreamCall}

theorem Watched.run (hc : Watched mark c)
    (hrun : Execution.run TcpConnection.step c ops = .ok (final, calls))
    (hsound : ∀ call ∈ calls, Sound call) : Watched mark final := by
  have hstep : ∀ (c : TcpConnection) (op : Op) (next : TcpConnection) (out : List Effect),
      Watched mark c → op.Regular ∧ c.Fits op → c.step op = .ok (next, out) →
        Watched mark next := by
    intro c op next out hc hop hnext
    exact (hc.step hop.1 hop.2 hnext).watched
  exact (run_invariant hstep hrun hc hsound).1

theorem level_run (hc : Watched mark c) (hempty : c.waiting = 0)
    (hrun : Execution.run step c ops = .ok (final, calls))
    (hsound : ∀ call ∈ calls, Sound call) : level calls = final.waiting := by
  have hbalance := congrArg List.length (balance_run hc.inv hrun hsound).2
  rw [List.length_append, List.length_append] at hbalance
  unfold level
  unfold waiting at hempty ⊢
  omega

/-- In every run the level of the bytes that wait is reported exactly when it
comes up to the mark, and the end of the writing exactly when nothing waits any
more or a payload has gone out at once. -/
theorem notified_of_run {before after : List StreamCall} {call : StreamCall}
    (hrun : Execution.run step (watched mark) ops = .ok (final, calls))
    (hsound : ∀ call ∈ calls, Sound call) (hsplit : calls = before ++ call :: after) :
    marks call.output = crossed mark (level before) (level (before ++ [call])) ∧
      completes call.output =
        if level (before ++ [call]) = 0 ∧ (level before ≠ 0 ∨ call.input.counted call.pre)
        then 1 else 0 := by
  rw [hsplit] at hrun hsound
  obtain ⟨mid, hbefore, hlater⟩ := run_split hrun
  cases call with
  | mk pre op out =>
      obtain ⟨next, out', rest, hstep, _, hcall⟩ := run_cons_eq_ok.mp hlater
      cases hcall
      have hthrough : Execution.run TcpConnection.step (watched mark)
          (before.map (·.input) ++ [op]) = .ok (next, before ++ [⟨mid, op, out⟩]) :=
        run_append_eq_ok.mpr ⟨mid, before, [⟨mid, op, out⟩], hbefore,
          run_cons_eq_ok.mpr ⟨next, out, [], hstep, rfl, rfl⟩, rfl⟩
      have hempty : (watched mark).waiting = 0 :=
        List.length_eq_zero_iff.mpr Buffer.initial_readable
      obtain ⟨hpast, hlast⟩ := List.forall_mem_append.mp hsound
      have hfirst := (List.forall_mem_cons.mp hlast).1
      have hwatched := (watched_watched mark).run hbefore hpast
      have hnoted := hwatched.step hfirst.1 hfirst.2 hstep
      have hthere : ∀ call ∈ before ++ [⟨mid, op, out⟩], Sound call :=
        List.forall_mem_append.mpr ⟨hpast, List.forall_mem_singleton.mpr hfirst⟩
      rw [level_run (watched_watched mark) hempty hbefore hpast,
        level_run (watched_watched mark) hempty hthrough hthere]
      exact ⟨hnoted.high, hnoted.complete⟩

/-- The kernel takes two bytes of five, and then the other three. -/
def helloOps : List Op :=
  [.send (ascii "hello") (.wrote 2), .handleWrite (.wrote 3)]

theorem guarded_hello :
    Guarded step (fun c op => op.Regular ∧ c.Fits op) (watched 3) helloOps := by
  refine ⟨⟨nofun, ⟨?_, trivial⟩⟩, fun _ _ _ => ⟨⟨nofun, ⟨trivial, trivial⟩⟩, fun _ _ _ => trivial⟩⟩
  intro _
  exact .of_lt (by decide) (lt_maxSize (by decide)).le

theorem levels_hello : (Execution.run step (watched 3) helloOps).map
    (fun result => (level (result.2.take 0), level (result.2.take 1), level (result.2.take 2))) =
      .ok (0, 3, 0) := by
  decide +kernel

theorem notified_of_run_hello : ∃ final first second,
    Execution.run step (watched 3) helloOps = .ok (final, [first, second]) ∧
      marks first.output = [3] ∧ completes second.output = 1 := by
  have hstep : ∀ (c : TcpConnection) (op : Op), Watched 3 c → op.Regular ∧ c.Fits op →
      ∃ next out, c.step op = .ok (next, out) ∧ Watched 3 next := by
    intro c op hc hop
    obtain ⟨next, out, hnext, _⟩ := step_kept hc.inv hop.1 hop.2
    exact ⟨next, out, hnext, (hc.step hop.1 hop.2 hnext).watched⟩
  obtain ⟨final, calls, hrun, hsound⟩ := guarded_hello.run hstep (watched_watched 3)
  have hlevels := levels_hello
  have hlength : calls.length = 2 := by
    rw [← List.length_map (fun call : StreamCall => call.input), run_inputs hrun]
    rfl
  obtain ⟨first, second, rfl⟩ := List.length_eq_two.mp hlength
  rw [hrun] at hlevels
  simp only [Except.map, Except.ok.injEq, Prod.mk.injEq, List.take] at hlevels
  obtain ⟨hzero, hthree, hdrained⟩ := hlevels
  have hfirst := notified_of_run hrun hsound
    (show [first, second] = [] ++ first :: [second] from rfl)
  have hsecond := notified_of_run hrun hsound
    (show [first, second] = [first] ++ second :: [] from rfl)
  refine ⟨final, first, second, hrun, ?_, ?_⟩
  · rw [hfirst.1]
    change crossed 3 (level []) (level [first]) = [3]
    rw [hzero, hthree]
    rfl
  · have hcall : level ([first] ++ [second]) = 0 ∧
        (level [first] ≠ 0 ∨ second.input.counted second.pre = true) :=
      ⟨hdrained, .inl (by omega)⟩
    rw [hsecond.2, if_pos hcall]

end TcpConnection

end MyFileServer
