import ReliableDatagram.Table.Basic

/-!
# Requests to a table and runs of it

A request is what reaches a table in normal operation. A run mixes requests with shutdowns.
-/

namespace ReliableDatagram.Table

inductive Request
  | datagram (sender : SocketAddr) (bytes : Bytes)
  | connect (key : Key)
  | write (key : Key) (generation : Nat) (w : Channel.ParkedWrite)
  | close (key : Key) (generation : Nat)
  | tick
  | stats
  | channelStats (key : Key) (generation : Nat)

inductive Answer
  | none
  | generation (generation : Nat)
  /-- Whether there was a channel to close. -/
  | closed (found : Bool)
  | stats (stats : EndPointStats)
  | channelStats (stats? : Option ChannelStats)

def perform (t : Table) (now : Nat) : Request → Logged Effect (Answer × Table)
  | .datagram sender bytes => (.none, ·) <$> t.onDatagram now sender bytes
  | .connect key => (fun (generation, t) => (.generation generation, t)) <$> t.connect now key
  | .write key generation w => (.none, ·) <$> t.write now key generation w
  | .close key generation => (fun (found, t) => (.closed found, t)) <$> t.close key generation
  | .tick => (.none, ·) <$> t.tick now
  | .stats => pure (.stats t.stats, t)
  | .channelStats key generation => pure (.channelStats (t.channelStats? key generation), t)

inductive Op
  | request (r : Request)
  | shutdown (reason : DisconnectReason)

def apply (t : Table) (now : Nat) : Op → Logged Effect Table
  | .request r => Prod.snd <$> t.perform now r
  | .shutdown reason => t.shutdown reason

def run : List (Nat × Op) → Table → Logged Effect Table
  | [], t => pure t
  | (now, op) :: ops, t => do run ops (← t.apply now op)

end ReliableDatagram.Table
