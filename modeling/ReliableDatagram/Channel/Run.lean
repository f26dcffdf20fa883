import ReliableDatagram.Channel.Receiving
import ReliableDatagram.Channel.Upkeep

/-!
# Runs of a channel

A run applies operations at given times, under one configuration and clock.
-/

namespace ReliableDatagram.Channel

inductive Op
  | packet (p : Packet)
  | write (w : ParkedWrite)
  | ping
  | tick
  | destroy (reason : DisconnectReason)

/-- A tick that gives up leaves the channel as it is: whoever ticks decides what to do then. -/
def apply (c : Channel) (ctx : Context) : Op → Logged Effect Channel
  | .packet p => c.onPacket ctx p
  | .write w => c.write ctx w
  | .ping => c.ping ctx
  | .tick => Prod.fst <$> c.tick ctx
  | .destroy reason => c.destroy reason

def run (config : Config) (clock : Clock) : List (Nat × Op) → Channel → Logged Effect Channel
  | [], c => pure c
  | (now, op) :: ops, c => do run config clock ops (← c.apply ⟨now, config, clock⟩ op)

end ReliableDatagram.Channel
