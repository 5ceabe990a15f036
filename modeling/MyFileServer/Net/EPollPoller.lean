import MyFileServer.Lib.Execution
import MyFileServer.Net.Channel
import Mathlib.Logic.Function.Basic

/-!
# The epoll poller

The registration of a channel is kept in three places: its own `index_`, the
map `channels_` of the poller and the interest set in the kernel.  The two
functions of `EPollPoller` that change it, `updateChannel` and
`removeChannel`, keep the three in step, and with that no call of `epoll_ctl`
fails.
-/

namespace MyFileServer

open Execution

inductive Index
  | kNew
  | kAdded
  | kDeleted
  deriving DecidableEq, Repr

inductive EpollOp
  | EPOLL_CTL_ADD
  | EPOLL_CTL_MOD
  | EPOLL_CTL_DEL
  deriving DecidableEq, Repr

/-- A channel is named by its address, of type `Ptr`. -/
structure EpollEvent (Ptr : Type) where
  events : BitVec 32
  ptr : Ptr
  deriving DecidableEq

abbrev InterestSet (Ptr : Type) := ℤ → Option (EpollEvent Ptr)

/-- The kernel refuses to add a descriptor twice (`EEXIST`) and to change or
delete one that is absent (`ENOENT`). -/
def epollCtl {Ptr : Type} (interest : InterestSet Ptr) (operation : EpollOp)
    (fd : ℤ) (event : EpollEvent Ptr) : Option (InterestSet Ptr) :=
  match operation, interest fd with
  | .EPOLL_CTL_ADD, none => some (Function.update interest fd (some event))
  | .EPOLL_CTL_MOD, some _ => some (Function.update interest fd (some event))
  | .EPOLL_CTL_DEL, some _ => some (Function.update interest fd none)
  | _, _ => none

/-- `LOG_FATAL` ends the process. -/
inductive Abort
  | logFatal
  deriving DecidableEq, Repr

structure CtlCall where
  operation : EpollOp
  succeeded : Bool
  deriving DecidableEq, Repr

/-- The poller with the kernel's interest set, and the fields that the
channels themselves hold. -/
structure EPollPoller (Ptr : Type) where
  channels_ : ℤ → Option Ptr
  interest : InterestSet Ptr
  channel : Ptr → Channel
  index_ : Ptr → Index

inductive ChannelOp
  | enableReading
  | disableReading
  | enableWriting
  | disableWriting
  | disableAll
  | remove
  deriving DecidableEq, Repr

namespace EPollPoller

section

variable {Ptr : Type}

def initial : EPollPoller Ptr where
  channels_ := fun _ => none
  interest := fun _ => none
  channel := fun _ => {}
  index_ := fun _ => .kNew

def set_index [DecidableEq Ptr] (s : EPollPoller Ptr) (ch : Ptr) (idx : Index) : EPollPoller Ptr :=
  { s with index_ := Function.update s.index_ ch idx }

/-- The argument `fd` is the constant member `fd_` of every channel. -/
def update (fd : Ptr → ℤ) (s : EPollPoller Ptr) (operation : EpollOp) (ch : Ptr) :
    Except Abort (EPollPoller Ptr × List CtlCall) :=
  match epollCtl s.interest operation (fd ch) ⟨(s.channel ch).events_, ch⟩ with
  | some interest => .ok ({ s with interest }, [⟨operation, true⟩])
  | none =>
      if operation = .EPOLL_CTL_DEL then .ok (s, [⟨operation, false⟩])
      else .error .logFatal

variable [DecidableEq Ptr] (fd : Ptr → ℤ)

def updateChannel (s : EPollPoller Ptr) (ch : Ptr) :
    Except Abort (EPollPoller Ptr × List CtlCall) :=
  let index := s.index_ ch
  if index = .kNew ∨ index = .kDeleted then
    let s :=
      if index = .kNew then
        { s with channels_ := Function.update s.channels_ (fd ch) (some ch) }
      else s
    (s.set_index ch .kAdded).update fd .EPOLL_CTL_ADD ch
  else if (s.channel ch).isNoneEvent then do
    let (s, calls) ← s.update fd .EPOLL_CTL_DEL ch
    return (s.set_index ch .kDeleted, calls)
  else
    s.update fd .EPOLL_CTL_MOD ch

def removeChannel (s : EPollPoller Ptr) (ch : Ptr) :
    Except Abort (EPollPoller Ptr × List CtlCall) :=
  let s := { s with channels_ := Function.update s.channels_ (fd ch) none }
  if s.index_ ch = .kAdded then do
    let (s, calls) ← s.update fd .EPOLL_CTL_DEL ch
    return (s.set_index ch .kNew, calls)
  else
    return (s.set_index ch .kNew, [])

/-- A function of `Channel` changes its `events_` and then calls `update`. -/
def change (s : EPollPoller Ptr) (ch : Ptr) (f : Channel → Channel) :
    Except Abort (EPollPoller Ptr × List CtlCall) :=
  { s with channel := Function.update s.channel ch (f (s.channel ch)) }.updateChannel
    fd ch

def step (s : EPollPoller Ptr) :
    Ptr × ChannelOp → Except Abort (EPollPoller Ptr × List CtlCall)
  | (ch, .enableReading) => s.change fd ch Channel.enableReading
  | (ch, .disableReading) => s.change fd ch Channel.disableReading
  | (ch, .enableWriting) => s.change fd ch Channel.enableWriting
  | (ch, .disableWriting) => s.change fd ch Channel.disableWriting
  | (ch, .disableAll) => s.change fd ch Channel.disableAll
  | (ch, .remove) => s.removeChannel fd ch

end

/-! ## The three copies agree -/

section

variable {Ptr : Type} {fd : Ptr → ℤ} {s s' : EPollPoller Ptr} {ch : Ptr}

/-- The registration of one channel. -/
structure RegisteredAt (fd : Ptr → ℤ) (s : EPollPoller Ptr) (ch : Ptr) : Prop where
  interest_eq : s.interest (fd ch) =
    if s.index_ ch = .kAdded then some ⟨(s.channel ch).events_, ch⟩ else none
  channels_eq : s.channels_ (fd ch) = if s.index_ ch = .kNew then none else some ch

def Registered (fd : Ptr → ℤ) (s : EPollPoller Ptr) : Prop :=
  ∀ ch, RegisteredAt fd s ch

/-- What an operation on one channel leaves: the other channels keep their
part of every copy. -/
structure Touches (fd : Ptr → ℤ) (ch : Ptr) (s s' : EPollPoller Ptr) : Prop where
  channels_eq : ∀ other, other ≠ ch → s'.channels_ (fd other) = s.channels_ (fd other)
  interest_eq : ∀ other, other ≠ ch → s'.interest (fd other) = s.interest (fd other)
  channel_eq : ∀ other, other ≠ ch → s'.channel other = s.channel other
  index_eq : ∀ other, other ≠ ch → s'.index_ other = s.index_ other

theorem registered_initial : Registered fd initial :=
  fun _ => ⟨rfl, rfl⟩

theorem Registered.of_touches (hs : Registered fd s) (htouch : Touches fd ch s s')
    (hch : RegisteredAt fd s' ch) : Registered fd s' := by
  intro other
  by_cases hother : other = ch
  · rw [hother]
    exact hch
  · constructor
    · rw [htouch.interest_eq other hother, htouch.index_eq other hother,
        htouch.channel_eq other hother]
      exact (hs other).interest_eq
    · rw [htouch.channels_eq other hother, htouch.index_eq other hother]
      exact (hs other).channels_eq

theorem update_add (habsent : s.interest (fd ch) = none) :
    s.update fd .EPOLL_CTL_ADD ch =
      .ok ({ s with interest :=
          Function.update s.interest (fd ch) (some ⟨(s.channel ch).events_, ch⟩) },
        [⟨.EPOLL_CTL_ADD, true⟩]) := by
  simp [update, epollCtl, habsent]

theorem update_mod {event : EpollEvent Ptr} (hpresent : s.interest (fd ch) = some event) :
    s.update fd .EPOLL_CTL_MOD ch =
      .ok ({ s with interest :=
          Function.update s.interest (fd ch) (some ⟨(s.channel ch).events_, ch⟩) },
        [⟨.EPOLL_CTL_MOD, true⟩]) := by
  simp [update, epollCtl, hpresent]

theorem update_del {event : EpollEvent Ptr} (hpresent : s.interest (fd ch) = some event) :
    s.update fd .EPOLL_CTL_DEL ch =
      .ok ({ s with interest := Function.update s.interest (fd ch) none },
        [⟨.EPOLL_CTL_DEL, true⟩]) := by
  simp [update, epollCtl, hpresent]

end

section

variable {Ptr : Type} [DecidableEq Ptr] {fd : Ptr → ℤ} {s : EPollPoller Ptr}

/-- What a step on the channel does: it succeeds, with every call of
`epoll_ctl` in it, registers the channel and leaves the others alone. -/
def Registers (fd : Ptr → ℤ) (ch : Ptr) (s : EPollPoller Ptr)
    (result : Except Abort (EPollPoller Ptr × List CtlCall)) : Prop :=
  ∃ s' calls, result = .ok (s', calls) ∧ Touches fd ch s s' ∧
    RegisteredAt fd s' ch ∧ ∀ call ∈ calls, call.succeeded = true

theorem touches_of_updates (hfd : Function.Injective fd) {ch : Ptr}
    {channels' : Option Ptr} {interest' : Option (EpollEvent Ptr)}
    {channel' : Channel} {index' : Index} {s' : EPollPoller Ptr}
    (hchannels : s'.channels_ = Function.update s.channels_ (fd ch) channels')
    (hinterest : s'.interest = Function.update s.interest (fd ch) interest')
    (hchannel : s'.channel = Function.update s.channel ch channel')
    (hindex : s'.index_ = Function.update s.index_ ch index') :
    Touches fd ch s s' := by
  constructor <;> intro other hother
  · rw [hchannels, Function.update_of_ne (hfd.ne hother)]
  · rw [hinterest, Function.update_of_ne (hfd.ne hother)]
  · rw [hchannel, Function.update_of_ne hother]
  · rw [hindex, Function.update_of_ne hother]

theorem change_registers (hfd : Function.Injective fd) (hs : Registered fd s)
    (ch : Ptr) (f : Channel → Channel) : Registers fd ch s (s.change fd ch f) := by
  have hinterest := (hs ch).interest_eq
  have hchannels := (hs ch).channels_eq
  unfold change updateChannel
  cases hindex : s.index_ ch with
  | kNew =>
      rw [hindex, if_neg (by decide)] at hinterest
      rw [if_pos (Or.inl rfl), if_pos rfl, update_add (by exact hinterest)]
      refine ⟨_, _, rfl, ?_, ?_, by simp⟩
      · exact touches_of_updates hfd rfl rfl rfl rfl
      · constructor <;> simp [set_index]
  | kAdded =>
      rw [hindex, if_pos rfl] at hinterest
      rw [hindex, if_neg (by decide)] at hchannels
      have hkeep : s.channels_ = Function.update s.channels_ (fd ch) (some ch) := by
        rw [← hchannels, Function.update_eq_self]
      rw [if_neg (by decide)]
      split_ifs with hnone
      · -- without an event of interest the descriptor leaves the interest set
        rw [update_del (by exact hinterest)]
        refine ⟨_, _, rfl, ?_, ?_, by simp⟩
        · exact touches_of_updates hfd hkeep rfl rfl rfl
        · constructor <;> simp [set_index, hchannels]
      · rw [update_mod (by exact hinterest)]
        refine ⟨_, _, rfl, ?_, ?_, by simp⟩
        · exact touches_of_updates hfd hkeep rfl rfl
            (Function.update_eq_self ch s.index_).symm
        · constructor <;> simp [hindex, hchannels]
  | kDeleted =>
      rw [hindex, if_neg (by decide)] at hinterest
      rw [hindex, if_neg (by decide)] at hchannels
      have hkeep : s.channels_ = Function.update s.channels_ (fd ch) (some ch) := by
        rw [← hchannels, Function.update_eq_self]
      rw [if_pos (Or.inr rfl), if_neg (by decide), update_add (by exact hinterest)]
      refine ⟨_, _, rfl, ?_, ?_, by simp⟩
      · exact touches_of_updates hfd hkeep rfl rfl rfl
      · constructor <;> simp [set_index, hchannels]

theorem removeChannel_registers (hfd : Function.Injective fd) (hs : Registered fd s)
    (ch : Ptr) : Registers fd ch s (s.removeChannel fd ch) := by
  have hinterest := (hs ch).interest_eq
  have hchannel : s.channel = Function.update s.channel ch (s.channel ch) := by
    rw [Function.update_eq_self]
  by_cases hindex : s.index_ ch = .kAdded
  · rw [if_pos hindex] at hinterest
    simp only [removeChannel, hindex, if_true]
    rw [update_del (by exact hinterest)]
    refine ⟨_, _, rfl, ?_, ?_, by simp⟩
    · exact touches_of_updates hfd rfl rfl hchannel rfl
    · constructor <;> simp [set_index]
  · rw [if_neg hindex] at hinterest
    simp only [removeChannel, hindex, if_false]
    refine ⟨_, _, rfl, ?_, ?_, by simp⟩
    · exact touches_of_updates hfd rfl
        (Function.update_eq_self (fd ch) s.interest).symm hchannel rfl
    · constructor <;> simp [set_index, hinterest]

theorem step_registers (hfd : Function.Injective fd) (hs : Registered fd s)
    (op : Ptr × ChannelOp) : Registers fd op.1 s (s.step fd op) := by
  obtain ⟨ch, op⟩ := op
  cases op with
  | enableReading => exact change_registers hfd hs ch Channel.enableReading
  | disableReading => exact change_registers hfd hs ch Channel.disableReading
  | enableWriting => exact change_registers hfd hs ch Channel.enableWriting
  | disableWriting => exact change_registers hfd hs ch Channel.disableWriting
  | disableAll => exact change_registers hfd hs ch Channel.disableAll
  | remove => exact removeChannel_registers hfd hs ch

/-- The invariant in terms of membership and of the single fields. -/
structure Consistent (fd : Ptr → ℤ) (s : EPollPoller Ptr) : Prop where
  interest_iff : ∀ ch, s.index_ ch = .kAdded ↔ (s.interest (fd ch)).isSome = true
  mask_eq : ∀ ch event, s.interest (fd ch) = some event →
    event.events = (s.channel ch).events_ ∧ event.ptr = ch
  channels_iff : ∀ ch,
    s.channels_ (fd ch) = some ch ↔ s.index_ ch = .kAdded ∨ s.index_ ch = .kDeleted

omit [DecidableEq Ptr] in
theorem Registered.consistent (hs : Registered fd s) : Consistent fd s where
  interest_iff := by
    intro ch
    rw [(hs ch).interest_eq]
    split_ifs with hindex <;> simp [hindex]
  mask_eq := by
    intro ch event hevent
    rw [(hs ch).interest_eq] at hevent
    split_ifs at hevent
    rw [← Option.some.inj hevent]
    exact ⟨rfl, rfl⟩
  channels_iff := by
    intro ch
    rw [(hs ch).channels_eq]
    cases s.index_ ch <;> simp

theorem run_consistent (hfd : Function.Injective fd) (ops : List (Ptr × ChannelOp)) :
    ∃ final calls, run (step fd) initial ops = .ok (final, calls) ∧
      Consistent fd final ∧
      ∀ call ∈ calls, Consistent fd call.pre ∧
        ∀ ctl ∈ call.output, ctl.succeeded = true := by
  have hstep : ∀ s op, Registered fd s →
      ∃ next output, step fd s op = .ok (next, output) ∧ Registered fd next ∧
        ∀ ctl ∈ output, ctl.succeeded = true := by
    intro s op hs
    obtain ⟨next, output, hnext, htouch, hat, hok⟩ := step_registers hfd hs op
    exact ⟨next, output, hnext, hs.of_touches htouch hat, hok⟩
  obtain ⟨final, calls, hrun, hfinal, hcalls⟩ := run_total hstep registered_initial ops
  refine ⟨final, calls, hrun, hfinal.consistent, ?_⟩
  intro call hcall
  exact ⟨(hcalls call hcall).1.consistent, (hcalls call hcall).2⟩

theorem run_consistent_reopened :
    let fd : Bool → ℤ := fun ch => if ch then 8 else 7
    let ops : List (Bool × ChannelOp) :=
      [(true, .disableAll), (true, .disableAll), (false, .enableReading),
        (true, .enableWriting), (false, .remove), (false, .enableReading)]
    Function.Injective fd ∧
    ∃ final calls, run (step fd) initial ops = .ok (final, calls) ∧
      Consistent fd final ∧
      ∀ call ∈ calls, Consistent fd call.pre ∧
        ∀ ctl ∈ call.output, ctl.succeeded = true := by
  have hfd : Function.Injective (fun ch : Bool => if ch then (8 : ℤ) else 7) := by decide
  exact ⟨hfd, run_consistent hfd _⟩

end

end EPollPoller

end MyFileServer
