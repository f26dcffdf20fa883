import ReliableDatagram.Kernel.Basic

/-!
# End points

An end point owns a socket and the kernel behind it, and keeps the events that were not read yet.
Here its host has no network: every datagram fails to be sent, and none is received.

Two tasks work for an end point, its kernel and the receiver of datagrams. Both hold the socket, so
that it stays bound until both have ended. Inputs wait in an inbox of limited size for the kernel.
-/

namespace ReliableDatagram

/-- Whether an action is meant for the caller that gave the input. -/
def Kernel.Action.isAnswer : Kernel.Action → Bool
  | .answer _ | .reply .. | .done | .lost _ => true
  | .transmit .. | .report _ => false

structure EndPoint where
  addr : SocketAddr
  kernel : Kernel
  nextTick : Nat
  /-- Events that nobody read yet, oldest first. -/
  unread : List Event
  /-- Inputs that the kernel did not take yet, oldest first. -/
  inbox : List Kernel.Input := []
  /-- What the kernel answered since the last question. -/
  answers : List Kernel.Action := []
  /-- The socket is known to take datagrams. -/
  writable : Bool := false
  /-- What the kernel goes on with when the socket takes datagrams. -/
  held : List Kernel.Action := []
  /-- Its tasks end as soon as they are run. -/
  abandoned : Bool := false
  /-- The receiver has not ended. -/
  receiving : Bool := true

namespace EndPoint

/-- The operations on queues and sockets that one may make before one has to let others run. -/
def turnLength : Nat := 128

/-- The first tick is due at once. -/
def start (addr : SocketAddr) (config : Config) (now : Nat) : EndPoint where
  addr := addr
  kernel := { table := { config, clock := ⟨now, 0⟩ } }
  nextTick := now
  unread := [.initialized addr]

def isBound (e : EndPoint) : Bool := e.kernel.running || e.receiving

def hasRoom (e : EndPoint) : Bool :=
  e.inbox.length < e.kernel.table.config.inboundQueueSize

/-- The kernel waits until the socket takes datagrams. -/
def isHeld (e : EndPoint) : Bool := !e.held.isEmpty

/-- The kernel has something to do. -/
def isBusy (e : EndPoint) : Bool := e.kernel.running && (e.isHeld || !e.inbox.isEmpty)

def put (e : EndPoint) (i : Kernel.Input) : EndPoint := { e with inbox := e.inbox ++ [i] }

/-- Events are reported once all datagrams are sent. -/
def report (e : EndPoint) (actions : List Kernel.Action) : EndPoint :=
  { e with unread := e.unread ++ actions.filterMap Kernel.Action.event?, held := [] }

/-- The kernel takes an input. Answers are given before datagrams are sent. -/
def take (e : EndPoint) (now : Nat) (i : Kernel.Input) : Logged Kernel.Action EndPoint :=
  let x := e.kernel.step now (fun _ => true) i
  let e := { e with
    kernel := x.value
    answers := e.answers ++ x.log.filter Kernel.Action.isAnswer }
  ⟨if e.writable || x.log.all (·.datagram?.isNone) then e.report x.log
    else { e with held := x.log }, x.log⟩

/-- The kernel takes inputs until there are no more, it has ended or has to wait, or the allowance
is spent. -/
def takeAll (now : Nat) : Nat → List Kernel.Input → EndPoint → EndPoint
  | 0, inbox, e => { e with inbox }
  | _ + 1, [], e => { e with inbox := [] }
  | n + 1, i :: inbox, e =>
    let x := e.take now i
    if !x.value.kernel.running then { x.value with inbox := [] }
    else if x.value.isHeld then { x.value with inbox }
    else takeAll now (n - x.log.countP (·.datagram?.isSome)) inbox x.value

/-- What the kernel does when it is run. -/
def runKernel (e : EndPoint) (now : Nat) : EndPoint :=
  if e.abandoned then { e with kernel.running := false, inbox := [], held := [] }
  else if e.isHeld && !e.writable then e
  else takeAll now turnLength e.inbox (e.report e.held)

/-- What the receiver does when it is run: it waits in vain for a datagram. -/
def runReceiver (e : EndPoint) : EndPoint := if e.abandoned then { e with receiving := false } else e

/-! ### Time -/

/-- The tick interval in whole milliseconds, rounded up, which is as fine as timers are. -/
def period (e : EndPoint) : Nat :=
  (e.kernel.table.config.tickInterval + millisecond - 1) / millisecond * millisecond

def tick (e : EndPoint) : EndPoint :=
  { (e.take e.nextTick (.request .tick)).value with nextTick := e.nextTick + e.period }

/-- The number of ticks that are due up to an instant. -/
def due (e : EndPoint) (now : Nat) : Nat :=
  if now < e.nextTick || !e.kernel.running then 0 else (now - e.nextTick) / e.period + 1

/-- Makes at most the given number of ticks, until one of them brings what is looked for; the
instant is that of the tick. -/
def await {α : Type} (find : EndPoint → Option α) : Nat → EndPoint → Option (α × Nat) × EndPoint
  | 0, e => (none, e)
  | n + 1, e =>
    let after := e.tick
    match find after with
    | some a => (some (a, e.nextTick), after)
    | none => await find n after

/-- Makes all ticks that are due. -/
def catchUp (e : EndPoint) (now : Nat) : EndPoint :=
  (e.await (fun _ => (none : Option Unit)) (e.due now)).2

end EndPoint

end ReliableDatagram
