import MyFileServer.Base.Runtime
import MyFileServer.Net.EPollPoller

/-!
# Waiting for events

One round of `EventLoop::loop`: `EPollPoller::poll` fills `activeChannels_` from
the array `events_`, the channels are handled one after another, and then the
pending functors run.  Handlers and functors change the registration of
channels.  The kernel decides what is ready; it knows the array by its size.
-/

namespace MyFileServer

open Execution

/-- What `epoll_wait` answers: -1, or what happened on each descriptor that is
ready. -/
inductive WaitAnswer
  | failed
  | ready (reports : List (ℤ × BitVec 32))

structure PollLoop (Ptr : Type) where
  poller : EPollPoller Ptr
  /-- An entry that was never written holds a null pointer. -/
  events_ : List (Option (EpollEvent Ptr))
  revents_ : Ptr → BitVec 32
  /-- Those that are still to be handled. -/
  activeChannels_ : List Ptr
  /-- The calls of `handleEvent` with the `revents_` that they found. -/
  handled : List (Ptr × BitVec 32)

inductive PollInput (Ptr : Type)
  | poll (answer : WaitAnswer)
  /-- `handleEvent` of the next active channel. -/
  | handle (ops : List (Ptr × ChannelOp))
  | doPendingFunctors (ops : List (Ptr × ChannelOp))

/-- A step that cannot happen, a use of a null pointer, or the end of the
process. -/
inductive PollStop
  | notEnabled
  | nullChannel
  | abort
  deriving DecidableEq, Repr

def kInitEventListSize : ℕ := 16

namespace EPollPoller

/-- `Poller::hasChannel`. -/
def hasChannel {Ptr : Type} [DecidableEq Ptr] (s : EPollPoller Ptr) (fd : Ptr → ℤ)
    (ch : Ptr) : Bool :=
  s.channels_ (fd ch) = some ch

end EPollPoller

/-- The entry that the kernel writes for a ready descriptor.  It reports what
the descriptor is registered for, and errors and hangups always. -/
def eventEntry {Ptr : Type} (interest : InterestSet Ptr) (report : ℤ × BitVec 32) :
    Option (EpollEvent Ptr) :=
  match interest report.1 with
  | some registered =>
      if report.2 ≠ 0 ∧ report.2 &&& ~~~(registered.events ||| EPOLLERR ||| EPOLLHUP) = 0 then
        some ⟨report.2, registered.ptr⟩
      else none
  | none => none

namespace PollLoop

section

variable {Ptr : Type}

def initial : PollLoop Ptr where
  poller := EPollPoller.initial
  events_ := List.replicate kInitEventListSize none
  revents_ := fun _ => 0
  activeChannels_ := []
  handled := []

/-- `numEvents` and `events_` after the call of `epoll_wait`, which writes at
most `maxevents` entries, and one for each descriptor. -/
def epollWait (s : PollLoop Ptr) : WaitAnswer → Option (ℕ × List (Option (EpollEvent Ptr)))
  | .failed => some (toSizeT (-1), s.events_)
  | .ready reports =>
      let entries := reports.filterMap (eventEntry s.poller.interest)
      if (reports.map Prod.fst).Nodup ∧ entries.length = reports.length ∧
          0 < toInt s.events_.length ∧ (entries.length : ℤ) ≤ toInt s.events_.length then
        some (entries.length, entries.map some ++ s.events_.drop entries.length)
      else none

variable [DecidableEq Ptr]

/-- One round of the loop in `fillActiveChannels`. -/
def activate (s : PollLoop Ptr) (i : ℕ) : Except PollStop (PollLoop Ptr) :=
  match s.events_[i]? with
  | some (some event) => .ok { s with
      revents_ := Function.update s.revents_ event.ptr event.events
      activeChannels_ := s.activeChannels_ ++ [event.ptr] }
  | _ => .error .nullChannel

def fillActiveChannels (s : PollLoop Ptr) (numEvents : ℤ) : Except PollStop (PollLoop Ptr) :=
  (List.range numEvents.toNat).foldlM activate s

/-- `numEvents` is a `size_t`, so an error goes the way of events as well. -/
def poll (s : PollLoop Ptr) (answer : WaitAnswer) : Except PollStop (PollLoop Ptr) :=
  match s.epollWait answer with
  | none => .error .notEnabled
  | some (numEvents, events_) => do
      let s := { s with events_ }
      if 0 < numEvents then
        let s ← s.fillActiveChannels (toInt numEvents)
        if numEvents = s.events_.length then
          return { s with events_ := s.events_ ++ List.replicate s.events_.length none }
        else return s
      else return s

variable (fd : Ptr → ℤ)

def changeChannels (s : PollLoop Ptr) (ops : List (Ptr × ChannelOp)) :
    Except PollStop (PollLoop Ptr) :=
  match run (EPollPoller.step fd) s.poller ops with
  | .ok (poller, _) => .ok { s with poller }
  | .error _ => .error .abort

def next (s : PollLoop Ptr) : PollInput Ptr → Except PollStop (PollLoop Ptr)
  | .poll answer => if s.activeChannels_ = [] then s.poll answer else .error .notEnabled
  | .handle ops =>
      match s.activeChannels_ with
      | [] => .error .notEnabled
      | ch :: rest =>
          { s with
            activeChannels_ := rest
            handled := s.handled ++ [(ch, s.revents_ ch)] }.changeChannels fd ops
  | .doPendingFunctors ops =>
      if s.activeChannels_ = [] then s.changeChannels fd ops else .error .notEnabled

def step (s : PollLoop Ptr) (input : PollInput Ptr) :
    Except PollStop (PollLoop Ptr × Unit) :=
  (fun s => (s, ())) <$> s.next fd input

end

/-! ## The registration -/

section

variable {Ptr : Type} [DecidableEq Ptr] {fd : Ptr → ℤ} {s s' : PollLoop Ptr}

/-- The interest set names a channel with each descriptor of its own. -/
def Owns (fd : Ptr → ℤ) (interest : InterestSet Ptr) : Prop :=
  ∀ f event, interest f = some event → f = fd event.ptr

structure Knows (fd : Ptr → ℤ) (p : EPollPoller Ptr) : Prop where
  registered : EPollPoller.Registered fd p
  owns : Owns fd p.interest

omit [DecidableEq Ptr] in
theorem Owns.update {interest : InterestSet Ptr} {ch : Ptr} {event : Option (EpollEvent Ptr)}
    (howns : Owns fd interest) (hevent : ∀ e, event = some e → e.ptr = ch) :
    Owns fd (Function.update interest (fd ch) event) := by
  intro f e he
  by_cases hf : f = fd ch
  · rw [hf, Function.update_self] at he
    rw [hf, hevent e he]
  · rw [Function.update_of_ne hf] at he
    exact howns f e he

omit [DecidableEq Ptr] in
/-- A call of `epoll_ctl` changes at most the entry of the channel. -/
theorem Owns.ctl {p p' : EPollPoller Ptr} {operation : EpollOp} {ch : Ptr} {calls}
    (howns : Owns fd p.interest) (h : p.update fd operation ch = .ok (p', calls)) :
    Owns fd p'.interest := by
  unfold EPollPoller.update at h
  split at h
  next interest hctl =>
    cases h
    unfold epollCtl at hctl
    split at hctl
    · cases hctl
      exact howns.update fun e he => by cases he; rfl
    · cases hctl
      exact howns.update fun e he => by cases he; rfl
    · cases hctl
      exact howns.update fun e he => by cases he
    · cases hctl
  next =>
    split at h
    · cases h
      exact howns
    · cases h

theorem Owns.updateChannel {p p' : EPollPoller Ptr} {ch : Ptr} {calls}
    (howns : Owns fd p.interest) (h : p.updateChannel fd ch = .ok (p', calls)) :
    Owns fd p'.interest := by
  unfold EPollPoller.updateChannel at h
  dsimp only at h
  split at h
  · have hsame : Owns fd ((if p.index_ ch = .kNew then
        { p with channels_ := Function.update p.channels_ (fd ch) (some ch) }
        else p).set_index ch .kAdded).interest := by
      split <;> exact howns
    exact hsame.ctl h
  · split at h
    · obtain ⟨⟨q, _⟩, hq, hrest⟩ := bind_eq_ok.mp h
      cases hrest
      have hq' := howns.ctl hq
      exact hq'
    · exact howns.ctl h

theorem Owns.step {p p' : EPollPoller Ptr} {op : Ptr × ChannelOp} {calls}
    (howns : Owns fd p.interest) (h : p.step fd op = .ok (p', calls)) :
    Owns fd p'.interest := by
  have hchange : ∀ (f : Channel → Channel), p.change fd op.1 f = .ok (p', calls) →
      Owns fd p'.interest := by
    intro f hf
    have hsame : Owns fd ({ p with
        channel := Function.update p.channel op.1 (f (p.channel op.1)) }).interest := howns
    exact hsame.updateChannel hf
  obtain ⟨ch, op⟩ := op
  cases op with
  | enableReading => exact hchange _ h
  | disableReading => exact hchange _ h
  | enableWriting => exact hchange _ h
  | disableWriting => exact hchange _ h
  | disableAll => exact hchange _ h
  | remove =>
      simp only [EPollPoller.step, EPollPoller.removeChannel] at h
      have hsame : Owns fd ({ p with
          channels_ := Function.update p.channels_ (fd ch) none }).interest := howns
      split at h
      · obtain ⟨⟨q, _⟩, hq, hrest⟩ := bind_eq_ok.mp h
        cases hrest
        have hq' := hsame.ctl hq
        exact hq'
      · cases h
        exact howns

omit [DecidableEq Ptr] in
theorem knows_initial : Knows fd (EPollPoller.initial : EPollPoller Ptr) :=
  ⟨EPollPoller.registered_initial, fun _ _ h => nomatch h⟩

/-- The handlers change the registration without an error. -/
theorem Knows.run (hfd : Function.Injective fd) {p : EPollPoller Ptr} (hp : Knows fd p)
    (ops : List (Ptr × ChannelOp)) :
    ∃ p' calls, run (EPollPoller.step fd) p ops = .ok (p', calls) ∧ Knows fd p' := by
  have hstep : ∀ (p : EPollPoller Ptr) op, Knows fd p → ∃ p' calls,
      EPollPoller.step fd p op = .ok (p', calls) ∧ Knows fd p' ∧ True := by
    intro p op hp
    obtain ⟨p', calls, hnext, htouch, hat, _⟩ := EPollPoller.step_registers hfd hp.registered op
    exact ⟨p', calls, hnext, ⟨hp.registered.of_touches htouch hat, hp.owns.step hnext⟩,
      trivial⟩
  obtain ⟨p', calls, hrun, hp', _⟩ := run_total hstep hp ops
  exact ⟨p', calls, hrun, hp'⟩

/-! ## One call of `poll` -/

/-- What the kernel reports in the step. -/
def eventsOf (s : PollLoop Ptr) : PollInput Ptr → List (EpollEvent Ptr)
  | .poll (.ready reports) => reports.filterMap (eventEntry s.poller.interest)
  | _ => []

omit [DecidableEq Ptr] in
theorem eventEntry_eq_some {interest : InterestSet Ptr} {report : ℤ × BitVec 32}
    {entry : EpollEvent Ptr} (h : eventEntry interest report = some entry) :
    ∃ registered, interest report.1 = some registered ∧ entry.ptr = registered.ptr ∧
      entry.events &&& ~~~(registered.events ||| EPOLLERR ||| EPOLLHUP) = 0 := by
  unfold eventEntry at h
  split at h
  next registered hregistered =>
    split at h
    next hmask =>
      cases h
      exact ⟨registered, hregistered, rfl, hmask.2⟩
    next => cases h
  next => cases h

omit [DecidableEq Ptr] in
/-- Different descriptors belong to different channels. -/
theorem Owns.nodup_entries {interest : InterestSet Ptr} (howns : Owns fd interest)
    {reports : List (ℤ × BitVec 32)} (hreports : (reports.map Prod.fst).Nodup) :
    ((reports.filterMap (eventEntry interest)).map EpollEvent.ptr).Nodup := by
  have hsub : List.Sublist
      ((reports.filterMap (eventEntry interest)).map fun e => fd e.ptr)
      (reports.map Prod.fst) := by
    clear hreports
    induction reports with
    | nil => exact .slnil
    | cons report reports ih =>
        cases hentry : eventEntry interest report with
        | none =>
            rw [List.filterMap_cons_none hentry]
            exact ih.cons _
        | some entry =>
            obtain ⟨registered, hregistered, hptr, _⟩ := eventEntry_eq_some hentry
            rw [List.filterMap_cons_some hentry, List.map_cons, List.map_cons, hptr,
              ← howns _ _ hregistered]
            exact ih.cons_cons _
  have hfds := hsub.nodup hreports
  rw [show (fun e : EpollEvent Ptr => fd e.ptr) = fd ∘ EpollEvent.ptr from rfl,
    ← List.map_map] at hfds
  exact hfds.of_map fd

/-- `revents_` of the channels after the masks were stored in order. -/
def storeMasks (revents_ : Ptr → BitVec 32) (entries : List (EpollEvent Ptr)) :
    Ptr → BitVec 32 :=
  entries.foldl (fun revents_ e => Function.update revents_ e.ptr e.events) revents_

theorem storeMasks_eq (revents_ : Ptr → BitVec 32) {entries : List (EpollEvent Ptr)}
    (hentries : (entries.map EpollEvent.ptr).Nodup) :
    entries.map (fun e => (e.ptr, storeMasks revents_ entries e.ptr)) =
      entries.map fun e => (e.ptr, e.events) := by
  induction entries using List.reverseRecOn with
  | nil => rfl
  | append_singleton entries entry ih =>
      rw [List.map_append, List.nodup_append] at hentries
      obtain ⟨hnodup, _, hdisjoint⟩ := hentries
      have hstore : storeMasks revents_ (entries ++ [entry]) =
          Function.update (storeMasks revents_ entries) entry.ptr entry.events := by
        unfold storeMasks
        rw [List.foldl_append]
        rfl
      rw [List.map_append, List.map_append, hstore, ← ih hnodup]
      congr 1
      · refine List.map_congr_left fun e he => ?_
        have hne : e.ptr ≠ entry.ptr :=
          hdisjoint _ (List.mem_map_of_mem he) _ (by simp)
        rw [Function.update_of_ne hne]
      · simp

/-- `fillActiveChannels` reads entries that the kernel has just written. -/
theorem fillActiveChannels_eq {entries : List (EpollEvent Ptr)}
    {rest : List (Option (EpollEvent Ptr))} (hevents : s.events_ = entries.map some ++ rest) :
    s.fillActiveChannels entries.length = .ok { s with
      revents_ := storeMasks s.revents_ entries
      activeChannels_ := s.activeChannels_ ++ entries.map EpollEvent.ptr } := by
  have hfront : ∀ k ≤ entries.length, (List.range k).foldlM activate s = .ok { s with
      revents_ := storeMasks s.revents_ (entries.take k)
      activeChannels_ := s.activeChannels_ ++ (entries.take k).map EpollEvent.ptr } := by
    intro k
    induction k with
    | zero =>
        intro _
        simp [storeMasks]
        rfl
    | succ k ih =>
        intro hk
        have hentry : s.events_[k]? = some (some entries[k]) := by
          rw [hevents, List.getElem?_append_left (by simpa using hk), List.getElem?_map,
            List.getElem?_eq_getElem hk]
          rfl
        rw [List.range_succ, List.foldlM_append, ih (by omega), List.take_succ_eq_append_getElem hk]
        simp only [bind, Except.bind, List.foldlM_cons, List.foldlM_nil, activate, hentry,
          storeMasks, List.foldl_append, List.foldl_cons, List.foldl_nil, List.map_append,
          List.map_cons, List.map_nil, List.append_assoc]
        rfl
  have hall := hfront entries.length le_rfl
  rw [List.take_length] at hall
  exact hall

/-- What a call of `poll` leaves when the kernel has stored these entries:
`events_` has room for more afterwards, and it grew only when it was full. -/
structure Filled (s s' : PollLoop Ptr) (entries : List (EpollEvent Ptr)) : Prop where
  poller_eq : s'.poller = s.poller
  handled_eq : s'.handled = s.handled
  active_eq : s'.activeChannels_ = s.activeChannels_ ++ entries.map EpollEvent.ptr
  revents_eq : s'.revents_ = storeMasks s.revents_ entries
  size : s'.events_.length = s.events_.length ∨
    s'.events_.length = s.events_.length * 2 ∧ s.events_.length = entries.length
  fits : entries.length < s'.events_.length

theorem Filled.size_eq {entries : List (EpollEvent Ptr)} (hfilled : Filled s s' entries) :
    s'.events_.length =
      if entries.length = s.events_.length then s.events_.length * 2 else s.events_.length := by
  have hfits := hfilled.fits
  rcases hfilled.size with hsame | ⟨hdouble, hfull⟩
  · rw [if_neg (by omega), hsame]
  · rw [if_pos hfull.symm, hdouble]

theorem toInt_length {n size : ℕ} (hpos : 0 < toInt size) (hle : (n : ℤ) ≤ toInt size) :
    toInt n = n ∧ n ≤ size := by
  unfold toInt at hpos hle ⊢
  rw [Int.bmod_def] at hpos hle ⊢
  split_ifs at hpos hle ⊢ <;> omega

/-- -1 as a `size_t` is more than 0 and no size of the array, and as an `int`
again it is no number of channels. -/
theorem poll_failed (hsize : s.events_.length ≠ 2 ^ 64 - 1) : s.poll .failed = .ok s := by
  have hminus : toSizeT (-1) = 2 ^ 64 - 1 := by decide
  have hnone : toInt (2 ^ 64 - 1) = -1 := by decide
  have hfill : s.fillActiveChannels (-1) = .ok s := rfl
  unfold poll epollWait
  dsimp only
  rw [hminus, if_pos (by norm_num), hnone]
  exact bind_eq_ok.mpr ⟨s, hfill, if_neg hsize.symm⟩

/-- The branch for events, with the array as the kernel left it. -/
theorem poll_events {entries : List (EpollEvent Ptr)} {rest : List (Option (EpollEvent Ptr))}
    {answer : WaitAnswer}
    (hwait : s.epollWait answer = some (entries.length, entries.map some ++ rest))
    (hint : toInt entries.length = entries.length)
    (hlength : (entries.map some ++ rest).length = s.events_.length)
    (hpos : 0 < s.events_.length) :
    ∃ s', s.poll answer = .ok s' ∧ Filled s s' entries := by
  have hle : entries.length ≤ s.events_.length := by
    rw [← hlength, List.length_append, List.length_map]
    exact Nat.le_add_right _ _
  unfold poll
  rw [hwait]
  dsimp only
  by_cases hnone : entries = []
  · rw [hnone, List.length_nil, if_neg (lt_irrefl 0)]
    refine ⟨_, rfl, rfl, rfl, (List.append_nil _).symm, rfl, .inl ?_, ?_⟩
    · rw [hnone] at hlength
      exact hlength
    · rw [hnone] at hlength
      exact hlength.symm ▸ hpos
  · have hfill := fillActiveChannels_eq (s := { s with events_ := entries.map some ++ rest }) rfl
    rw [if_pos (List.length_pos_of_ne_nil hnone), hint]
    by_cases hfull : entries.length = s.events_.length
    · refine ⟨_, bind_eq_ok.mpr ⟨_, hfill, if_pos (hfull.trans hlength.symm)⟩, rfl, rfl, rfl, rfl,
        .inr ⟨?_, hfull.symm⟩, ?_⟩
      · rw [List.length_append, List.length_replicate, hlength]
        omega
      · rw [List.length_append, List.length_replicate, hlength]
        omega
    · have hne : entries.length ≠ (entries.map some ++ rest).length := hlength ▸ hfull
      refine ⟨_, bind_eq_ok.mpr ⟨_, hfill, if_neg hne⟩, rfl, rfl, rfl, rfl, .inl hlength, ?_⟩
      exact hlength.symm ▸ lt_of_le_of_ne hle hfull

/-- The sizes that doubling reaches. -/
def Doubled (size : ℕ) : Prop :=
  ∃ k, size = kInitEventListSize * 2 ^ k

theorem Doubled.pos {size : ℕ} (hsize : Doubled size) : 0 < size := by
  obtain ⟨k, rfl⟩ := hsize
  exact Nat.mul_pos (by decide) (Nat.two_pow_pos k)

theorem Doubled.ne_minusOne {size : ℕ} (hsize : Doubled size) : size ≠ 2 ^ 64 - 1 := by
  obtain ⟨k, rfl⟩ := hsize
  rw [kInitEventListSize]
  omega

theorem Doubled.double {size : ℕ} (hsize : Doubled size) : Doubled (size * 2) := by
  obtain ⟨k, rfl⟩ := hsize
  exact ⟨k + 1, by rw [pow_succ, Nat.mul_assoc]⟩

/-- An answer that the kernel cannot give is no step of the loop; nothing else
stops the call. -/
theorem poll_fills (answer : WaitAnswer) (hsize : Doubled s.events_.length) :
    Ends (· = .notEnabled) (fun s' => Filled s s' (eventsOf s (.poll answer)))
      (s.poll answer) := by
  cases answer with
  | failed =>
      rw [poll_failed hsize.ne_minusOne]
      exact ⟨rfl, rfl, (List.append_nil _).symm, rfl, .inl rfl, hsize.pos⟩
  | ready reports =>
      by_cases henabled : (reports.map Prod.fst).Nodup ∧
          (reports.filterMap (eventEntry s.poller.interest)).length = reports.length ∧
          0 < toInt s.events_.length ∧
          ((reports.filterMap (eventEntry s.poller.interest)).length : ℤ) ≤
            toInt s.events_.length
      · obtain ⟨hint, hle⟩ := toInt_length henabled.2.2.1 henabled.2.2.2
        have hwait : s.epollWait (.ready reports) =
            some (_, (reports.filterMap (eventEntry s.poller.interest)).map some ++
              s.events_.drop _) := if_pos henabled
        have hlength : ((reports.filterMap (eventEntry s.poller.interest)).map some ++
            s.events_.drop (reports.filterMap (eventEntry s.poller.interest)).length).length =
              s.events_.length := by
          rw [List.length_append, List.length_map, List.length_drop]
          omega
        obtain ⟨s', hpoll, hfilled⟩ := poll_events hwait hint hlength hsize.pos
        rw [hpoll]
        exact hfilled
      · have hwait : s.epollWait (.ready reports) = none := if_neg henabled
        unfold poll
        rw [hwait]
        rfl

/-! ## Whole runs -/

/-- The handler changes only the registration of its own channel. -/
def HandlesOwn (call : Call (PollLoop Ptr) (PollInput Ptr) Unit) : Prop :=
  ∀ ops, call.input = .handle ops → ∀ ch ∈ call.pre.activeChannels_.head?,
    ∀ op ∈ ops, op.1 = ch

/-- The events of the run in the order in which `epoll_wait` gave them. -/
def reported (calls : List (Call (PollLoop Ptr) (PollInput Ptr) Unit)) :
    List (EpollEvent Ptr) :=
  calls.flatMap fun call => eventsOf call.pre call.input

/-- The event is one that the channel asked for. -/
def Wanted (fd : Ptr → ℤ) (p : EPollPoller Ptr) (e : EpollEvent Ptr) : Prop :=
  p.hasChannel fd e.ptr = true ∧ p.index_ e.ptr = .kAdded ∧
    e.events &&& ~~~((p.channel e.ptr).events_ ||| EPOLLERR ||| EPOLLHUP) = 0

/-- The step doubles the array when its answer fills it, and else keeps its
size. -/
def Grows (fd : Ptr → ℤ) (call : Call (PollLoop Ptr) (PollInput Ptr) Unit) : Prop :=
  ∃ next, call.pre.step fd call.input = .ok (next, call.output) ∧
    next.events_.length =
      if (eventsOf call.pre call.input).length = call.pre.events_.length then
        call.pre.events_.length * 2
      else call.pre.events_.length

/-- What holds after every run of the loop.  Every event reached the handler of
its channel once, in order and with the mask that the kernel reported, or is
still to be handled. -/
structure Polled (fd : Ptr → ℤ) (calls : List (Call (PollLoop Ptr) (PollInput Ptr) Unit))
    (s : PollLoop Ptr) : Prop where
  knows : Knows fd s.poller
  distinct : s.activeChannels_.Nodup
  delivered : s.handled ++ s.activeChannels_.map (fun ch => (ch, s.revents_ ch)) =
    (reported calls).map fun e => (e.ptr, e.events)
  wanted : ∀ call ∈ calls, ∀ e ∈ eventsOf call.pre call.input,
    Wanted fd call.pre.poller e
  room : Doubled s.events_.length
  /-- The array grew when one answer filled it. -/
  full : s.events_.length = kInitEventListSize ∨ ∃ call ∈ calls,
    s.events_.length = (eventsOf call.pre call.input).length * 2
  grows : ∀ call ∈ calls, Grows fd call
  /-- No channel is handled after its removal. -/
  registered : (∀ call ∈ calls, HandlesOwn call) →
    ∀ ch ∈ s.activeChannels_, s.poller.hasChannel fd ch = true

omit [DecidableEq Ptr] in
theorem reported_append (past : List (Call (PollLoop Ptr) (PollInput Ptr) Unit))
    (call : Call (PollLoop Ptr) (PollInput Ptr) Unit) :
    reported (past ++ [call]) = reported past ++ eventsOf call.pre call.input := by
  unfold reported
  rw [List.flatMap_append, List.flatMap_singleton]

omit [DecidableEq Ptr] in
theorem eventEntry_ptr {p : EPollPoller Ptr} (hp : EPollPoller.Registered fd p)
    (howns : Owns fd p.interest) {report : ℤ × BitVec 32} {e : EpollEvent Ptr}
    (hentry : eventEntry p.interest report = some e) :
    p.interest (fd e.ptr) = some ⟨(p.channel e.ptr).events_, e.ptr⟩ ∧
      e.events &&& ~~~((p.channel e.ptr).events_ ||| EPOLLERR ||| EPOLLHUP) = 0 := by
  obtain ⟨registered, hregistered, hptr, hmask⟩ := eventEntry_eq_some hentry
  have hfd := howns _ _ hregistered
  rw [hfd, ← hptr] at hregistered
  have hat := (hp e.ptr).interest_eq
  rw [hregistered] at hat
  split_ifs at hat
  cases hat
  exact ⟨hregistered, hmask⟩

/-- The kernel reports only what a registered channel asked for. -/
theorem Knows.wanted {p : EPollPoller Ptr} (hp : Knows fd p) {report : ℤ × BitVec 32}
    {e : EpollEvent Ptr} (hentry : eventEntry p.interest report = some e) : Wanted fd p e := by
  obtain ⟨hinterest, hmask⟩ := eventEntry_ptr hp.registered hp.owns hentry
  have hindex : p.index_ e.ptr = .kAdded :=
    (hp.registered.consistent.interest_iff e.ptr).mpr (by rw [hinterest]; rfl)
  have hchannels := (hp.registered.consistent.channels_iff e.ptr).mpr (.inl hindex)
  exact ⟨by simpa [EPollPoller.hasChannel] using hchannels, hindex, hmask⟩

theorem changeChannels_ends (hfd : Function.Injective fd) (hknows : Knows fd s.poller)
    (ops : List (Ptr × ChannelOp)) :
    ∃ p calls, run (EPollPoller.step fd) s.poller ops = .ok (p, calls) ∧ Knows fd p ∧
      s.changeChannels fd ops = .ok { s with poller := p } := by
  obtain ⟨p, calls, hrun, hp⟩ := hknows.run hfd ops
  refine ⟨p, calls, hrun, hp, ?_⟩
  unfold changeChannels
  rw [hrun]

/-- Operations on one channel leave the other channels registered. -/
theorem hasChannel_of_run (hfd : Function.Injective fd) {ch : Ptr} {ops : List (Ptr × ChannelOp)}
    (hops : ∀ op ∈ ops, op.1 = ch) {p p' : EPollPoller Ptr} {calls} (hp : Knows fd p)
    (hrun : run (EPollPoller.step fd) p ops = .ok (p', calls)) {other : Ptr} (hother : other ≠ ch) :
    p'.channels_ (fd other) = p.channels_ (fd other) := by
  induction ops generalizing p calls with
  | nil => rw [(run_nil_eq_ok.mp hrun).1]
  | cons op ops ih =>
      obtain ⟨q, output, rest, hstep, hrest, rfl⟩ := run_cons_eq_ok.mp hrun
      obtain ⟨q', output', hnext, htouch, hat, _⟩ :=
        EPollPoller.step_registers hfd hp.registered op
      obtain ⟨rfl, rfl⟩ := Prod.mk.inj (Except.ok.inj (hstep.symm.trans hnext))
      have hq : Knows fd q := ⟨hp.registered.of_touches htouch hat, hp.owns.step hstep⟩
      rw [ih (fun op' hop' => hops op' (List.mem_cons_of_mem _ hop')) hq hrest]
      have hfirst := hops op List.mem_cons_self
      exact htouch.channels_eq other (by rw [hfirst]; exact hother)

theorem polled_initial : Polled fd [] (initial : PollLoop Ptr) where
  knows := knows_initial
  distinct := .nil
  delivered := rfl
  wanted := fun _ h => nomatch h
  room := ⟨0, rfl⟩
  full := .inl rfl
  grows := fun _ h => nomatch h
  registered := fun _ _ h => nomatch h

variable {past : List (Call (PollLoop Ptr) (PollInput Ptr) Unit)}

theorem Polled.poll (hs : Polled fd past s) (hactive : s.activeChannels_ = [])
    {answer : WaitAnswer}
    (hnodup : ((eventsOf s (.poll answer)).map EpollEvent.ptr).Nodup)
    (hwanted : ∀ e ∈ eventsOf s (.poll answer), Wanted fd s.poller e)
    (hstep : s.step fd (.poll answer) = .ok (s', ()))
    (hfilled : Filled s s' (eventsOf s (.poll answer))) :
    Polled fd (past ++ [⟨s, .poll answer, ()⟩]) s' := by
  have hactive' : s'.activeChannels_ = (eventsOf s (.poll answer)).map EpollEvent.ptr := by
    rw [hfilled.active_eq, hactive, List.nil_append]
  have hbefore := hs.delivered
  rw [hactive, List.map_nil, List.append_nil] at hbefore
  constructor
  case knows => exact hfilled.poller_eq ▸ hs.knows
  case distinct => exact hactive' ▸ hnodup
  case delivered =>
    have hmasks := storeMasks_eq s.revents_ hnodup
    rw [reported_append, List.map_append, hfilled.handled_eq, ← hbefore, hactive', List.map_map,
      hfilled.revents_eq, ← hmasks]
    rfl
  case wanted =>
    exact List.forall_mem_append.mpr ⟨hs.wanted, List.forall_mem_singleton.mpr hwanted⟩
  case room =>
    rcases hfilled.size with hsize | ⟨hsize, _⟩
    · exact hsize ▸ hs.room
    · exact hsize ▸ hs.room.double
  case full =>
    rcases hfilled.size with hsize | ⟨hsize, hfull⟩
    · rw [hsize]
      refine hs.full.imp_right ?_
      intro h
      obtain ⟨call, hcall, hcallFull⟩ := h
      exact ⟨call, List.mem_append_left _ hcall, hcallFull⟩
    · rw [hfull] at hsize
      exact .inr ⟨_, List.mem_append_right _ (List.mem_singleton_self _), hsize⟩
  case grows =>
    have hgrows : Grows fd ⟨s, .poll answer, ()⟩ := ⟨s', hstep, hfilled.size_eq⟩
    exact List.forall_mem_append.mpr ⟨hs.grows, List.forall_mem_singleton.mpr hgrows⟩
  case registered =>
    intro _ ch hch
    rw [hactive'] at hch
    obtain ⟨e, he, rfl⟩ := List.mem_map.mp hch
    rw [hfilled.poller_eq]
    exact (hwanted e he).1

theorem Knows.wanted_of_mem (hs : Knows fd s.poller) {input : PollInput Ptr} {e : EpollEvent Ptr}
    (he : e ∈ eventsOf s input) : Wanted fd s.poller e := by
  unfold eventsOf at he
  split at he
  · obtain ⟨report, _, hentry⟩ := List.mem_filterMap.mp he
    exact hs.wanted hentry
  · cases he

theorem nodup_eventsOf (howns : Owns fd s.poller.interest) {answer : WaitAnswer}
    (hpoll : s.poll answer = .ok s') :
    ((eventsOf s (.poll answer)).map EpollEvent.ptr).Nodup := by
  cases answer with
  | failed => exact .nil
  | ready reports =>
      refine howns.nodup_entries ?_
      by_contra hreports
      have hwait : s.epollWait (.ready reports) = none := if_neg fun h => hreports h.1
      unfold poll at hpoll
      rw [hwait] at hpoll
      cases hpoll

/-- A step that reports nothing, takes channels from the list and changes the
registration. -/
theorem Polled.changed (hs : Polled fd past s) {input : PollInput Ptr}
    (hinput : eventsOf s input = []) (hstep : s.step fd input = .ok (s', ()))
    {p : EPollPoller Ptr} (hp : Knows fd p)
    (hpoller : s'.poller = p) (hevents : s'.events_ = s.events_)
    (hrevents : s'.revents_ = s.revents_)
    (hhandled : s'.handled ++ s'.activeChannels_.map (fun ch => (ch, s.revents_ ch)) =
      s.handled ++ s.activeChannels_.map fun ch => (ch, s.revents_ ch))
    (hactive : List.Sublist s'.activeChannels_ s.activeChannels_)
    (hregistered : HandlesOwn ⟨s, input, ()⟩ → ∀ ch ∈ s'.activeChannels_,
      p.channels_ (fd ch) = s.poller.channels_ (fd ch)) :
    Polled fd (past ++ [⟨s, input, ()⟩]) s' where
  knows := hpoller ▸ hp
  distinct := hactive.nodup hs.distinct
  delivered := by
    rw [reported_append, hinput, List.append_nil, ← hs.delivered, hrevents, hhandled]
  wanted := by
    refine List.forall_mem_append.mpr ⟨hs.wanted, List.forall_mem_singleton.mpr ?_⟩
    intro e he
    rw [hinput] at he
    cases he
  room := hevents ▸ hs.room
  full := by
    rw [hevents]
    refine hs.full.imp_right ?_
    intro h
    obtain ⟨call, hcall, hfull⟩ := h
    exact ⟨call, List.mem_append_left _ hcall, hfull⟩
  grows := by
    refine List.forall_mem_append.mpr
      ⟨hs.grows, List.forall_mem_singleton.mpr ⟨s', hstep, ?_⟩⟩
    have hpos := hs.room.pos
    dsimp only
    rw [hinput, hevents, List.length_nil, if_neg (by omega)]
  registered := by
    intro hown ch hch
    have hbefore := hs.registered
      (fun call hcall => hown call (List.mem_append_left _ hcall)) ch (hactive.subset hch)
    have hsame := hregistered (hown _ (by simp)) ch hch
    rw [hpoller]
    unfold EPollPoller.hasChannel at hbefore ⊢
    rw [hsame]
    exact hbefore

theorem Polled.handle (hfd : Function.Injective fd) (hs : Polled fd past s) {ch : Ptr}
    {rest : List Ptr} (hactive : s.activeChannels_ = ch :: rest)
    (ops : List (Ptr × ChannelOp)) :
    ∃ next, s.step fd (.handle ops) = .ok (next, ()) ∧
      Polled fd (past ++ [⟨s, .handle ops, ()⟩]) next := by
  obtain ⟨p, calls, hrun, hp, hchange⟩ := changeChannels_ends (s := { s with
    activeChannels_ := rest
    handled := s.handled ++ [(ch, s.revents_ ch)] }) hfd hs.knows ops
  have hnext : s.step fd (.handle ops) = .ok ({ s with
      activeChannels_ := rest
      handled := s.handled ++ [(ch, s.revents_ ch)]
      poller := p }, ()) := by
    unfold step next
    rw [hactive]
    dsimp only
    rw [hchange]
    rfl
  have hdistinct := hs.distinct
  rw [hactive, List.nodup_cons] at hdistinct
  refine ⟨_, hnext, hs.changed rfl hnext hp rfl rfl rfl ?_ ?_ ?_⟩
  · rw [hactive, List.append_assoc]
    rfl
  · rw [hactive]
    exact List.sublist_cons_self ch rest
  · intro hown other hother
    have hops : ∀ op ∈ ops, op.1 = ch := by
      refine hown ops rfl ch ?_
      rw [hactive]
      rfl
    exact hasChannel_of_run hfd hops hs.knows hrun (fun h => hdistinct.1 (h ▸ hother))

/-- One step: it cannot happen, or the invariant holds with its events. -/
theorem polled_step (hfd : Function.Injective fd) (hs : Polled fd past s)
    (input : PollInput Ptr) :
    Ends (· = .notEnabled) (fun r => Polled fd (past ++ [⟨s, input, r.2⟩]) r.1)
      (s.step fd input) := by
  cases input with
  | poll answer =>
      by_cases hactive : s.activeChannels_ = []
      · have hnext : s.step fd (.poll answer) =
            (fun s => (s, ())) <$> s.poll answer := congrArg _ (if_pos hactive)
        have hfills := poll_fills answer hs.room
        rw [hnext]
        cases hpoll : s.poll answer with
        | error e =>
            rw [hpoll] at hfills
            exact hfills
        | ok s' =>
            rw [hpoll] at hnext
            exact hs.poll hactive (nodup_eventsOf hs.knows.owns hpoll)
              (fun _ he => hs.knows.wanted_of_mem he) hnext (hfills.of_eq_ok hpoll)
      · have hnext : s.step fd (.poll answer) = .error .notEnabled :=
          congrArg _ (if_neg hactive)
        rw [hnext]
        rfl
  | handle ops =>
      cases hactive : s.activeChannels_ with
      | nil =>
          have hnext : s.step fd (.handle ops) = .error .notEnabled := by
            unfold step next
            rw [hactive]
            rfl
          rw [hnext]
          rfl
      | cons ch rest =>
          obtain ⟨next, hnext, hpolled⟩ := hs.handle hfd hactive ops
          rw [hnext]
          exact hpolled
  | doPendingFunctors ops =>
      by_cases hactive : s.activeChannels_ = []
      · obtain ⟨p, calls, hrun, hp, hchange⟩ := changeChannels_ends hfd hs.knows ops
        have hnext : s.step fd (.doPendingFunctors ops) = .ok ({ s with poller := p }, ()) := by
          unfold step next
          dsimp only
          rw [if_pos hactive, hchange]
          rfl
        rw [hnext]
        refine hs.changed rfl hnext hp rfl rfl rfl rfl (List.Sublist.refl _) ?_
        intro _ ch hch
        rw [hactive] at hch
        cases hch
      · have hnext : s.step fd (.doPendingFunctors ops) = .error .notEnabled :=
          congrArg _ (if_neg hactive)
        rw [hnext]
        rfl

/-- Handlers see exactly what the kernel reports.  In every run of the loop no
null channel is handled and no call of `epoll_ctl` ends the process. -/
theorem polls_of_run (hfd : Function.Injective fd) (inputs : List (PollInput Ptr)) :
    Ends (· = .notEnabled) (fun r => Polled fd r.2 r.1)
      (run (step fd) initial inputs) := by
  have hstep : ∀ past s (input : PollInput Ptr), Polled fd past s →
      Ends (· = .notEnabled) (fun r => Polled fd (past ++ [⟨s, input, r.2⟩]) r.1)
        (s.step fd input) := fun _ _ input hs => polled_step hfd hs input
  exact Ends.run hstep polled_initial inputs

/-- The first handler removes its channel while the other is still to be
handled. -/
theorem polls_of_run_removedByHandler :
    let fd : Bool → ℤ := fun ch => if ch then 8 else 7
    let inputs : List (PollInput Bool) :=
      [.doPendingFunctors [(true, .enableReading), (false, .enableReading)],
        .poll (.ready [(8, EPOLLHUP), (7, EPOLLIN)]), .handle [(true, .remove)], .handle [],
        .poll .failed]
    Function.Injective fd ∧ Returns (run (step fd) initial inputs) ∧
      Ends (· = .notEnabled) (fun r => Polled fd r.2 r.1) (run (step fd) initial inputs) := by
  have hfd : Function.Injective (fun ch : Bool => if ch then (8 : ℤ) else 7) := by decide
  exact ⟨hfd, ⟨_, rfl⟩, polls_of_run hfd _⟩

end

end PollLoop

end MyFileServer
