import Mieru.Session.State

/-!
# The congestion window

`CubicSendAlgorithm` with its window as a number of segments.  The cubic
function of the time since the last reduction is a floating-point computation:
`onAck` and `onLoss` receive its value, converted to `uint32`, as an argument.
Whatever it is, `inRange` puts the window back between the two limits before
the lock is released.
-/

namespace Mieru.Congestion

inductive CubicOperationMode where
  | cubicSlowStart
  | cubicNormal
  deriving DecidableEq, Repr

structure CubicSendAlgorithm where
  minWindowSize : UInt32
  maxWindowSize : UInt32
  mode : CubicOperationMode := .cubicSlowStart
  congestionWindow : UInt32
  windowSizeBeforeLastReduction : UInt32 := 0
  accumulatedAcks : UInt32 := 0
  min_le : minWindowSize ≤ congestionWindow
  le_max : congestionWindow ≤ maxWindowSize

def inRange (minWindowSize maxWindowSize window : UInt32) : UInt32 :=
  if window < minWindowSize then minWindowSize
  else if maxWindowSize < window then maxWindowSize
  else window

variable {minWindowSize maxWindowSize : UInt32}

theorem min_le_inRange (h : minWindowSize ≤ maxWindowSize) (window : UInt32) :
    minWindowSize ≤ inRange minWindowSize maxWindowSize window := by
  unfold inRange
  split
  · exact UInt32.le_refl _
  · rename_i hmin
    split
    · exact h
    · exact UInt32.not_lt.mp hmin

theorem inRange_le_max (h : minWindowSize ≤ maxWindowSize) (window : UInt32) :
    inRange minWindowSize maxWindowSize window ≤ maxWindowSize := by
  unfold inRange
  split
  · exact h
  · split
    · exact UInt32.le_refl _
    · rename_i hmax
      exact UInt32.not_lt.mp hmax

namespace CubicSendAlgorithm

/-- `NewCubicSendAlgorithm`, which panics on other limits. -/
def new (minWindowSize maxWindowSize : UInt32)
    (h : minWindowSize ≤ maxWindowSize) : CubicSendAlgorithm where
  minWindowSize := minWindowSize
  maxWindowSize := maxWindowSize
  congestionWindow := minWindowSize
  min_le := UInt32.le_refl _
  le_max := h

theorem min_le_max (c : CubicSendAlgorithm) : c.minWindowSize ≤ c.maxWindowSize :=
  UInt32.le_trans c.min_le c.le_max

def congestionWindowSize (c : CubicSendAlgorithm) : UInt32 := c.congestionWindow

def setWindow (c : CubicSendAlgorithm) (window : UInt32) : CubicSendAlgorithm :=
  { c with
    congestionWindow := inRange c.minWindowSize c.maxWindowSize window
    min_le := min_le_inRange c.min_le_max window
    le_max := inRange_le_max c.min_le_max window }

def onAck (c : CubicSendAlgorithm) (cubic : UInt32) : CubicSendAlgorithm :=
  match c.mode with
  | .cubicSlowStart => c.setWindow (c.congestionWindow + 1)
  | .cubicNormal =>
    let c := { c with accumulatedAcks := c.accumulatedAcks + 1 }
    c.setWindow (cubic + c.accumulatedAcks / 16)

def onLoss (c : CubicSendAlgorithm) (reduced : UInt32) : CubicSendAlgorithm :=
  { c with
    mode := .cubicNormal
    windowSizeBeforeLastReduction := c.congestionWindow
    accumulatedAcks := 0 }.setWindow reduced

def onTimeout (c : CubicSendAlgorithm) : CubicSendAlgorithm :=
  { c with
    mode := .cubicSlowStart
    congestionWindow := c.minWindowSize
    windowSizeBeforeLastReduction := 0
    accumulatedAcks := 0
    min_le := UInt32.le_refl _
    le_max := c.min_le_max }

end CubicSendAlgorithm

inductive CubicEvent where
  | onAck (cubic : UInt32)
  | onLoss (reduced : UInt32)
  | onTimeout

def CubicSendAlgorithm.apply (c : CubicSendAlgorithm) : CubicEvent → CubicSendAlgorithm
  | .onAck cubic => c.onAck cubic
  | .onLoss reduced => c.onLoss reduced
  | .onTimeout => c.onTimeout

theorem CubicSendAlgorithm.maxWindowSize_apply (c : CubicSendAlgorithm)
    (event : CubicEvent) : (c.apply event).maxWindowSize = c.maxWindowSize := by
  cases event with
  | onAck cubic =>
    simp only [apply, onAck]
    split <;> rfl
  | onLoss reduced => rfl
  | onTimeout => rfl

end Mieru.Congestion

namespace Mieru.Protocol

def maxWindowSize : UInt32 := UInt32.ofNat segmentTreeCapacity

theorem minWindowSize_le_max : minWindowSize ≤ maxWindowSize := by decide

def newCubic : Congestion.CubicSendAlgorithm :=
  .new minWindowSize maxWindowSize minWindowSize_le_max

end Mieru.Protocol
