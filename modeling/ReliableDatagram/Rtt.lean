/-!
# Round trip times

The smoothed round trip time is a moving average in which each new sample has weight 1/11.
-/

namespace ReliableDatagram

/-- A smoothed time of zero means that there is nothing to average with yet. -/
structure RttEstimator where
  last : Nat := 0
  smoothed : Nat := 0
deriving DecidableEq

namespace RttEstimator

def onSample (e : RttEstimator) (sample : Nat) : RttEstimator where
  last := sample
  smoothed := if e.smoothed = 0 then sample else (e.smoothed * 10 + sample) / 11

/-- How long to wait for an acknowledgement before sending again. -/
def retransmitTimeout (e : RttEstimator) (maxRtt margin : Nat) : Nat :=
  min e.smoothed maxRtt + margin

end RttEstimator

end ReliableDatagram
