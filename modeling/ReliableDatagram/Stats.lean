import ReliableDatagram.Address.Basic

/-!
# Statistics

Snapshots of the counters of a channel and of an end point.
-/

namespace ReliableDatagram

structure ChannelStats where
  packetsSent : Nat := 0
  bytesSent : Nat := 0
  packetsReceived : Nat := 0
  bytesReceived : Nat := 0
  acksReceived : Nat := 0
  dropped : Nat := 0
  repeated : Nat := 0
  lastRtt : Nat := 0
  smoothedRtt : Nat := 0
  sendQueueLength : Nat := 0
  receiveQueueLength : Nat := 0
  writeQueueLength : Nat := 0
  maxQueueSize : Nat := 0
  sendRate : Nat := 0
  repeatRate : Nat := 0
  connected : Bool := false
deriving DecidableEq

structure EndPointStats where
  /-- In key order. -/
  channels : List (Key × ChannelStats)
  malformedPackets : Nat := 0
  sendErrors : Nat := 0
deriving DecidableEq

namespace EndPointStats

def total (s : EndPointStats) (count : ChannelStats → Nat) : Nat :=
  s.channels.foldr (fun entry rest => count entry.2 + rest) 0

def packetsSent (s : EndPointStats) : Nat := s.total (·.packetsSent)

def packetsReceived (s : EndPointStats) : Nat := s.total (·.packetsReceived)

def dropped (s : EndPointStats) : Nat := s.total (·.dropped)

def repeated (s : EndPointStats) : Nat := s.total (·.repeated)

end EndPointStats

end ReliableDatagram
