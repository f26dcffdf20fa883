import ReliableDatagram.Proofs.Channel.Capacity
import ReliableDatagram.Proofs.Table.Deeds

/-!
# The capacity of a table's channels

Whatever reaches a table, its channels buffer no more than the configuration allows. That is so
between any two steps, as every prefix of a run is a run.
-/

namespace ReliableDatagram.Table

open Channel

variable {config : Config} {clock : Clock}

theorem lasting_confined (sizes : config.defaultQueueSize ≤ config.maxQueueSize) (clock : Clock) :
    Lasting config clock (Confined config) where
  create key generation now := confined_create key generation now sizes
  apply now cop _ confined := confined.apply ⟨now, config, clock⟩ cop

/-- In every run of a new table, all channels have bounded buffers: the limit of the send queue stays
where tuning may move it, the send queue holds no more packets than the greatest limit, and there are
no more parked writes and early packets than the configuration says. -/
theorem buffers_bounded (sizes : config.defaultQueueSize ≤ config.maxQueueSize) (clock : Clock)
    (ops : List (Nat × Op)) :
    ∀ c ∈ (run ops { config, clock }).value.channels, Bounded config c := by
  intro c mem
  exact ((lasting_confined sizes clock).channels ops c mem).bounded

/-- Room for one packet, one parked write and two early packets. -/
def cramped : Config :=
  { defaultQueueSize := 1, maxQueueSize := 1, maxWriteQueue := 1, receiveWindow := 2 }

/-- Three writes, of which the first one is sent, and five data packets, of which the second one is
lost and the last one is too far ahead. -/
def crush : List (Nat × Op) :=
  let peer : SocketAddr := ⟨.v4 1, 1⟩
  let data (id : UInt32) : Op := .request (.datagram peer (Packet.data 1 ⟨id⟩ 0 [7]).encode)
  let write (ticket : Nat) : Op := .request (.write ⟨peer, 1⟩ 1 ⟨ticket, [1]⟩)
  [.request (.connect ⟨peer, 1⟩), write 0, write 1, write 2, data 0, data 2, data 3, data 4].map
    (0, ·)

/-- All bounds are reached. -/
theorem buffers_bounded_of_crush : ∃ c ∈ (run crush { config := cramped, clock := ⟨0, 0⟩ }).value.channels,
    Bounded cramped c ∧ c.sender.unacked.limit = 1 ∧ c.sender.unacked.length = 1 ∧
      c.sender.parked.length = 1 ∧ c.receiver.early.length = 2 := by
  have full : ∃ c ∈ (run crush { config := cramped, clock := ⟨0, 0⟩ }).value.channels,
      c.sender.unacked.limit = 1 ∧ c.sender.unacked.length = 1 ∧
        c.sender.parked.length = 1 ∧ c.receiver.early.length = 2 := by decide +kernel
  obtain ⟨c, mem, full⟩ := full
  exact ⟨c, mem, buffers_bounded (by decide) ⟨0, 0⟩ crush c mem, full⟩

end ReliableDatagram.Table
