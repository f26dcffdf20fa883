import ReliableDatagram.Link.Basic

/-!
# Runs of a link

A run interleaves the operations of both sides, the passing of time and what the network does.
-/

namespace ReliableDatagram.Link

inductive Op
  | pass (duration : Nat)
  | connect (e : End) (channel : UInt8)
  | write (e : End) (channel : UInt8) (generation : Nat) (w : Channel.ParkedWrite)
  | close (e : End) (channel : UInt8) (generation : Nat)
  | tick (e : End)
  | deliver (e : End) (i : Nat)
  | copy (e : End) (i : Nat)
  | lose (e : End) (i : Nat)
  | restart (e : End) (base : UInt32)

def apply (l : Link) : Op → Logged (End × Effect) Link
  | .pass duration => pure (l.pass duration)
  | .connect e channel => Prod.snd <$> l.perform e (.connect (l.key e channel))
  | .write e channel generation w => Prod.snd <$> l.perform e (.write (l.key e channel) generation w)
  | .close e channel generation => Prod.snd <$> l.perform e (.close (l.key e channel) generation)
  | .tick e => Prod.snd <$> l.perform e .tick
  | .deliver e i => Prod.snd <$> l.deliver e i
  | .copy e i => Prod.snd <$> l.copy e i
  | .lose e i => pure (l.lose e i).2
  | .restart e base => pure (l.restart e base).2

def run : List Op → Link → Logged (End × Effect) Link
  | [], l => pure l
  | op :: ops, l => do run ops (← l.apply op)

end ReliableDatagram.Link
