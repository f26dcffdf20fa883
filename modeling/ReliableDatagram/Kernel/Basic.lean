import ReliableDatagram.Table.Run

/-!
# The kernel

The kernel takes one input at a time, applies it to its table, sends the datagrams that come of it
and then reports the events. The first input that ends it destroys all channels and is the last one
that it answers.
-/

namespace ReliableDatagram

structure Kernel where
  table : Table
  running : Bool := true
  /-- Whether somebody receives the events. -/
  observed : Bool := true

namespace Kernel

inductive Input
  | request (r : Table.Request)
  | shutdown
  /-- Nobody can give commands any more. -/
  | commandsClosed
  | readFailed (error : String)
  /-- No datagrams will be received any more. -/
  | inboundClosed

inductive Action
  | answer (a : Table.Answer)
  | reply (ticket : Nat) (result : Except TransportError Nat)
  | transmit (target : SocketAddr) (packet : Bytes) (failed : Bool)
  | report (event : Event)
  /-- A shutdown is complete. -/
  | done
  /-- A write came too late and gets no answer. -/
  | lost (ticket : Nat)

namespace Action

def datagram? : Action → Option (SocketAddr × Bytes)
  | transmit target packet _ => some (target, packet)
  | _ => none

def event? : Action → Option Event
  | report event => some event
  | _ => none

def reply? : Action → Option (Nat × Except TransportError Nat)
  | reply ticket result => some (ticket, result)
  | _ => none

def lost? : Action → Option Nat
  | lost ticket => some ticket
  | _ => none

end Action

/-- What the caller of a request waits for. -/
def answers : Table.Answer → List Action
  | .none | .closed _ => []
  | a => [.answer a]

/-- Takes over what the table did. The `i`-th datagram fails to be sent if `fails i`; that is
counted and has no other effect. -/
def flush (k : Kernel) (fails : Nat → Bool) (x : Logged Effect (Table.Answer × Table)) :
    Logged Action Kernel :=
  let datagrams := x.log.filterMap Effect.datagram?
  let replies := (x.log.filterMap Effect.reply?).map fun (ticket, r) => Action.reply ticket r
  let sends := datagrams.mapIdx fun i (target, packet) => Action.transmit target packet (fails i)
  let reports := if k.observed then (x.log.filterMap Effect.event?).map .report else []
  let errors := (List.range datagrams.length).countP fails
  ⟨{ k with table := x.value.2.recordSendErrors errors },
    answers x.value.1 ++ replies ++ sends ++ reports⟩

def terminate (k : Kernel) (fails : Nat → Bool) (reason : DisconnectReason)
    (error : Option String) : Logged Action Kernel := do
  let k ← k.flush fails do
    let t ← k.table.shutdown reason
    Logged.act (.emit (.terminated error))
    return (.none, t)
  return { k with running := false }

/-- The writes in an input, which get no answer from a kernel that has ended. -/
def tooLate : Input → List Action
  | .request (.write _ _ w) => [.lost w.ticket]
  | _ => []

def step (k : Kernel) (now : Nat) (fails : Nat → Bool) (i : Input) : Logged Action Kernel :=
  if k.running then
    match i with
    | .request r => k.flush fails (k.table.perform now r)
    | .shutdown => do
      let k ← k.terminate fails .endPointShutdown none
      Logged.act .done
      return k
    | .commandsClosed => k.terminate fails .endPointShutdown none
    | .readFailed error => k.terminate fails .socketFailure (some error)
    | .inboundClosed => k.terminate fails .socketFailure (some "receive loop ended")
  else ⟨k, tooLate i⟩

end Kernel

end ReliableDatagram
