import Mathlib.Order.Lattice
import Mathlib.Algebra.Order.Group.Int

/-!
# Time stamps

A time stamp is a number of microseconds, and time stamps are compared by it.
-/

namespace MyFileServer

structure Timestamp where
  microSecondsSinceEpoch_ : ℤ := 0
  deriving DecidableEq, Repr

namespace Timestamp

def kMicroSecondsPerSecond : ℤ := 1000 * 1000

theorem microSecondsSinceEpoch_injective :
    Function.Injective Timestamp.microSecondsSinceEpoch_ := by
  rintro ⟨s⟩ ⟨t⟩ rfl
  rfl

instance : LinearOrder Timestamp :=
  LinearOrder.lift' Timestamp.microSecondsSinceEpoch_ microSecondsSinceEpoch_injective

theorem le_iff {s t : Timestamp} :
    s ≤ t ↔ s.microSecondsSinceEpoch_ ≤ t.microSecondsSinceEpoch_ := Iff.rfl

end Timestamp

end MyFileServer
