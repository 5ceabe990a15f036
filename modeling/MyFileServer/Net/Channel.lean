import Mathlib.Tactic

/-!
# Channels

The events that a channel is interested in, as the bits of `events_`.
-/

namespace MyFileServer

/-- The bits of `events_` and `revents_`. -/
def EPOLLIN : BitVec 32 := 0x1
def EPOLLPRI : BitVec 32 := 0x2
def EPOLLOUT : BitVec 32 := 0x4
def EPOLLERR : BitVec 32 := 0x8
def EPOLLHUP : BitVec 32 := 0x10

/-- One of the bits is set. -/
def anyOf (events mask : BitVec 32) : Bool := events &&& mask ≠ 0

structure Channel where
  events_ : BitVec 32 := 0
  deriving DecidableEq, Repr

namespace Channel

/-- `EPOLLIN | EPOLLPRI`. -/
def kReadEvent : BitVec 32 := 0x1 ||| 0x2

/-- `EPOLLOUT`. -/
def kWriteEvent : BitVec 32 := 0x4

def kNoneEvent : BitVec 32 := 0

def enableReading (ch : Channel) : Channel :=
  { events_ := ch.events_ ||| kReadEvent }

def disableReading (ch : Channel) : Channel :=
  { events_ := ch.events_ &&& ~~~kReadEvent }

def enableWriting (ch : Channel) : Channel :=
  { events_ := ch.events_ ||| kWriteEvent }

def disableWriting (ch : Channel) : Channel :=
  { events_ := ch.events_ &&& ~~~kWriteEvent }

def disableAll (ch : Channel) : Channel :=
  { events_ := ch.events_ &&& kNoneEvent }

def isNoneEvent (ch : Channel) : Bool :=
  ch.events_ = kNoneEvent

def isWriting (ch : Channel) : Bool :=
  ch.events_ &&& kWriteEvent ≠ 0

@[simp] theorem isWriting_enableWriting (ch : Channel) :
    ch.enableWriting.isWriting = true := by
  have hbit : (ch.events_ ||| kWriteEvent) &&& kWriteEvent = kWriteEvent := by
    ext i hi
    simp only [BitVec.getElem_and, BitVec.getElem_or]
    cases ch.events_[i] <;> cases kWriteEvent[i] <;> rfl
  simp only [isWriting, enableWriting, hbit]
  decide

@[simp] theorem isWriting_disableWriting (ch : Channel) :
    ch.disableWriting.isWriting = false := by
  have hbit : ch.events_ &&& ~~~kWriteEvent &&& kWriteEvent = 0 := by
    ext i hi
    simp only [BitVec.getElem_and, BitVec.getElem_not]
    cases ch.events_[i] <;> cases kWriteEvent[i] <;> simp
  simp [isWriting, disableWriting, hbit]

end Channel

end MyFileServer
