import ReliableDatagram.EndPoint.Basic

/-!
# Taking turns

A caller and the tasks of its end points share one thread. The caller keeps its turn until it has to
wait for something, or until it has made a fixed number of operations on queues. Then the tasks that
are ready get a round: one after the other in the order in which they became ready, but at most a
fixed number of them. Only after a round can the caller go on. So sockets of end points that were
abandoned are closed in some later round, and not at once.
-/

namespace ReliableDatagram

/-- The kernel or the receiver of an end point, which is known by its number. -/
inductive Task
  | kernel (endPoint : Nat)
  | receiver (endPoint : Nat)
deriving DecidableEq

/-- Sockets and end points are bound on one address of a host. -/
structure Host where
  ip : IpAddr
  now : Nat := 0
  /-- The addresses of sockets that belong to no end point. -/
  sockets : List SocketAddr := []
  endPoints : List EndPoint := []
  nextTicket : Nat := 0
  /-- Ports that are only given to those who ask for them by number. -/
  reserved : UInt16 → Bool := fun _ => false
  /-- The tasks that are ready to run, in order. -/
  ready : List Task := []
  /-- The operations that are left to the caller in its turn. -/
  allowance : Nat := EndPoint.turnLength

namespace Host

/-- The tasks that are run at most in a round. -/
def roundLength : Nat := 61

def modify (h : Host) (id : Nat) (f : EndPoint → EndPoint) : Host :=
  { h with endPoints := h.endPoints.modify id f }

/-- Makes a task ready, unless it is already. -/
def wake (h : Host) (t : Task) : Host :=
  if h.ready.contains t then h else { h with ready := h.ready ++ [t] }

def runTask (h : Host) : Task → Host
  | .kernel id => h.modify id (·.runKernel h.now)
  | .receiver id => h.modify id EndPoint.runReceiver

def runTasks : Nat → Host → Host
  | 0, h => h
  | n + 1, h =>
    match h.ready with
    | [] => h
    | t :: ready => runTasks n ({ h with ready }.runTask t)

/-- After the tasks of a round the host sees which sockets take datagrams, and kernels that stopped
half-way become ready again. -/
def round (h : Host) : Host :=
  let h := runTasks roundLength h
  let h := { h with endPoints := h.endPoints.map fun e => { e with writable := true } }
  let busy := (List.range h.endPoints.length).filter fun id =>
    h.endPoints[id]?.any EndPoint.isBusy
  busy.foldl (fun h id => h.wake (.kernel id)) h

/-- A limit of the rounds after which no task is ready: every round does away with a ready task, an
input or the wait for a socket. -/
def backlog (h : Host) : Nat :=
  h.endPoints.foldl (fun n e => n + e.inbox.length + 1) h.ready.length

/-- The caller has its turn again. -/
def resume (h : Host) : Host := { h with allowance := EndPoint.turnLength }

/-- Makes rounds until a condition holds or no task is ready. -/
def roundsUntil (holds : Host → Bool) : Nat → Host → Host
  | 0, h => h
  | n + 1, h =>
    if holds h || h.ready.isEmpty then h else roundsUntil holds n h.round.resume

def waitUntil (h : Host) (holds : Host → Bool) : Host := h.roundsUntil holds (h.backlog + 1)

/-- Before an operation: a caller whose allowance is spent loses its turn. -/
def proceed (h : Host) : Host := if h.allowance = 0 then h.round.resume else h

/-- After an operation. -/
def spend (h : Host) : Host := { h with allowance := h.allowance - 1 }

/-! ### What callers do -/

/-- Starts the tasks of an end point, which is known by its number from then on. -/
def start (h : Host) (e : EndPoint) : Nat × Host :=
  let id := h.endPoints.length
  (id, { h with
    endPoints := h.endPoints ++ [e]
    ready := h.ready ++ [.kernel id, .receiver id] })

/-- Stops the tasks of an end point, which end when it is their turn. -/
def abandon (h : Host) (id : Nat) : Host :=
  match h.endPoints[id]? with
  | none => h
  | some e =>
    let h := h.modify id fun e => { e with abandoned := true }
    let h := if e.kernel.running then h.wake (.kernel id) else h
    if e.receiving then h.wake (.receiver id) else h

/-- Puts an input into the inbox of an end point, as soon as there is room. Tells whether that
succeeds, which it does not once the kernel has ended. -/
def submit (h : Host) (id : Nat) (i : Kernel.Input) : Bool × Host :=
  let h := h.proceed.waitUntil fun h =>
    !h.endPoints[id]?.any fun e => e.kernel.running && !e.hasRoom
  match h.endPoints[id]? with
  | none => (false, h)
  | some e =>
    if !e.kernel.running then (false, h)
    else
      let h := (h.modify id (·.put i)).spend
      (true, if e.isHeld then h else h.wake (.kernel id))

/-- Why there is nothing to be had from an end point. -/
inductive Silence
  | ended
  | timeout

/-- How long a caller waits. -/
def patience : Nat := 5 * second

/-- Lets time pass until an instant. -/
def passUntil (h : Host) (now : Nat) : Host :=
  { h with
    now
    endPoints := h.endPoints.map (·.catchUp now)
    allowance := EndPoint.turnLength }

/-- Ticks an end point until it brings what the caller waits for, or patience is over. -/
def await {α : Type} (h : Host) (id : Nat) (find : EndPoint → Option α) :
    Except Silence α × Host :=
  let limit := h.now + patience
  match h.endPoints[id]? with
  | none => (.error .timeout, h.passUntil limit)
  | some e =>
    match e.await find (e.due limit) with
    | (some (a, now), e) => (.ok a, (h.modify id fun _ => e).passUntil now)
    | (none, e) => (.error .timeout, (h.modify id fun _ => e).passUntil limit)

/-- Waits for what an end point may have or get. -/
def waitFor {α : Type} (h : Host) (id : Nat) (find : EndPoint → Option α) :
    Except Silence α × Host :=
  let h := h.proceed.waitUntil fun h =>
    !h.endPoints[id]?.any fun e => e.kernel.running && (find e).isNone
  let (r, h) : Except Silence α × Host := match h.endPoints[id]? with
    | none => (.error .ended, h)
    | some e =>
      match find e with
      | some a => (.ok a, h)
      | none => if e.kernel.running then h.await id find else (.error .ended, h)
  (r, h.spend)

/-- Gives an input to an end point and waits for an answer. -/
def ask {α : Type} (h : Host) (id : Nat) (i : Kernel.Input) (find : Kernel.Action → Option α) :
    Except Silence α × Host :=
  let h := h.modify id fun e => { e with answers := [] }
  match h.submit id i with
  | (false, h) => (.error .ended, h)
  | (true, h) => h.waitFor id fun e => e.answers.findSome? find

end Host

end ReliableDatagram
