import ReliableDatagram.EndPoint.PortSearch
import ReliableDatagram.EndPoint.Tasks

/-!
# A host without a network

The calls that a program makes on a host from which no datagram gets anywhere. They take no time,
except that a caller waits for an answer or an event, up to a limit.
-/

namespace ReliableDatagram

namespace Host

/-- Refers to the channel that an end point had when the handle was made. -/
structure Handle where
  endPoint : Nat
  key : Key
  generation : Nat

inductive SendError
  | networkUnreachable

def isBound (h : Host) (addr : SocketAddr) : Bool :=
  h.sockets.contains addr || h.endPoints.any fun e => e.isBound && e.addr == addr

/-- A port that is free and not reserved, of the dynamic range if possible. -/
def freePort (h : Host) : UInt16 :=
  let ports := (List.range 64512).map fun i => UInt16.ofNat ((i + 48128) % 64512 + 1024)
  (ports.find? fun port => !h.reserved port && !h.isBound ⟨h.ip, port⟩).getD 0

def tryBind (h : Host) (addr : SocketAddr) : PortSearch.BindAnswer :=
  if addr.port ≠ 0 ∧ h.isBound addr then .inUse else .bound

/-- Port 0 becomes a free port. -/
def assigned (h : Host) (addr : SocketAddr) : SocketAddr :=
  if addr.port = 0 then { addr with port := h.freePort } else addr

def openSocket (h : Host) (port : UInt16) : SocketAddr × Host :=
  let addr := h.assigned ⟨h.ip, port⟩
  (addr, { h with sockets := h.sockets ++ [addr] })

/-- Such a socket is gone at once, unlike that of an end point. -/
def closeSocket (h : Host) (addr : SocketAddr) : Host :=
  { h with sockets := h.sockets.erase addr }

/-- Starts an end point. -/
def bind (h : Host) (config : Config) : Except BindError (SocketAddr × Nat × Host) := do
  match config.validate with
  | .error e => throw (.invalid e)
  | .ok () =>
    let found ← (PortSearch.ofConfig h.tryBind config).result config.bindAddr
    let addr := h.assigned found
    return (addr, h.start (EndPoint.start addr config h.now))

def connect (h : Host) (id : Nat) (addr : SocketAddr) (channel : UInt8) :
    Except TransportError Handle × Host :=
  if Packet.maxChannel < channel then (.error (.invalidChannel channel), h)
  else
    let key : Key := ⟨addr, channel⟩
    let generation? : Kernel.Action → Option Nat
      | .answer (.generation g) => some g
      | _ => none
    match h.ask id (.request (.connect key)) generation? with
    | (.ok generation, h) => (.ok ⟨id, key, generation⟩, h)
    | (.error _, h) => (.error .endPointClosed, h)

/-- The only interface is the one of the host itself. -/
def interface? (name : String) : Option Nat := if name = "lo" then some 1 else none

/-- The host knows no names, only the texts of addresses. All but plain ones are looked up, and the
caller waits for that. -/
def resolve (h : Host) (name : String) : Option IpAddr × Host :=
  match IpAddr.parsePlain? name with
  | some ip => (some ip, h)
  | none => (IpAddr.parse? interface? name, h.proceed.round.resume.spend)

def connectHost (h : Host) (id : Nat) (name : String) (port : UInt16) (channel : UInt8) :
    Except TransportError Handle × Host :=
  match h.resolve name with
  | (none, h) => (.error (.unresolved s!"{name}:{port.toNat}"), h)
  | (some ip, h) => h.connect id ⟨ip, port⟩ channel

/-- Writes a payload and waits for the answer. There is none if the channel is too slow. -/
def send (h : Host) (handle : Handle) (payload : Bytes) :
    Option (Except TransportError Nat) × Host :=
  let ticket := h.nextTicket
  let reply? : Kernel.Action → Option (Except TransportError Nat)
    | .reply t r => if t = ticket then some r else none
    | _ => none
  let write := Table.Request.write handle.key handle.generation ⟨ticket, payload⟩
  match { h with nextTicket := ticket + 1 }.ask handle.endPoint (.request write) reply? with
  | (.ok r, h) => (some r, h)
  | (.error .ended, h) => (some (.error (.connectionClosed handle.key)), h)
  | (.error .timeout, h) => (none, h)

/-- Nobody waits for a channel to be closed. -/
def close (h : Host) (handle : Handle) : Host :=
  (h.submit handle.endPoint (.request (.close handle.key handle.generation))).2

def channelStats (h : Host) (handle : Handle) : Except TransportError ChannelStats × Host :=
  let stats? : Kernel.Action → Option (Option ChannelStats)
    | .answer (.channelStats s) => some s
    | _ => none
  match h.ask handle.endPoint (.request (.channelStats handle.key handle.generation)) stats? with
  | (.ok (some s), h) => (.ok s, h)
  | (_, h) => (.error (.connectionClosed handle.key), h)

def stats (h : Host) (id : Nat) : Except TransportError EndPointStats × Host :=
  let stats? : Kernel.Action → Option EndPointStats
    | .answer (.stats s) => some s
    | _ => none
  match h.ask id (.request .stats) stats? with
  | (.ok s, h) => (.ok s, h)
  | (.error _, h) => (.error .endPointClosed, h)

/-- The next event, which the caller may have to wait for. -/
def nextEvent (h : Host) (id : Nat) : Except Silence Event × Host :=
  match h.waitFor id (·.unread.head?) with
  | (.ok event, h) => (.ok event, h.modify id fun e => { e with unread := e.unread.drop 1 })
  | (.error s, h) => (.error s, h)

/-- Reads at most `n` events, and tells why there are no more. -/
def readEvents (id : Nat) : Nat → Host → List Event × Option Silence × Host
  | 0, h => ([], none, h)
  | n + 1, h =>
    match h.nextEvent id with
    | (.error s, h) => ([], some s, h)
    | (.ok event, h) =>
      let (events, s, h) := readEvents id n h
      (event :: events, s, h)

/-- Destroys all channels and stops the end point. -/
def shutdown (h : Host) (id : Nat) : Host :=
  let done? : Kernel.Action → Option Unit
    | .done => some ()
    | _ => none
  (h.ask id .shutdown done?).2.abandon id

def sendRaw (_ : Host) (_from _to : SocketAddr) (_payload : Bytes) : Except SendError Nat :=
  .error .networkUnreachable

/-- Waits in vain for a datagram. -/
def receiveRaw (h : Host) : Host :=
  ((h.proceed.waitUntil fun _ => false).passUntil (h.now + patience)).spend

end Host

end ReliableDatagram
