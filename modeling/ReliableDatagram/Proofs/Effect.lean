import ReliableDatagram.Effect
import ReliableDatagram.Proofs.Packet.RoundTrip

/-!
# What a log tells

Views of single effects: the packet in a datagram, the payload in an event, the refusal in an
answer.
-/

namespace ReliableDatagram.Effect

/-- The packet in a datagram, sent for the first time or again. -/
def packet? (e : Effect) : Option Packet := e.datagram?.bind fun d => (Packet.parse d.2).toOption

/-- The packet in a datagram that is sent for the first time. -/
def launch? : Effect → Option Packet
  | send _ bytes => (Packet.parse bytes).toOption
  | _ => none

def payload? : Effect → Option Bytes
  | emit (.data _ payload) => some payload
  | _ => none

/-- Whether a direction of a channel starts over, or the peer is asked to. -/
def isReset : Effect → Bool
  | emit (.resetLocal _) | emit (.resetSent _) => true
  | _ => false

/-- Whether it is reported that the peer was asked to start over. -/
def asks : Effect → Bool
  | emit (.resetSent _) => true
  | _ => false

/-- Whether the write with this ticket is turned away. -/
def refuses (ticket : Nat) : Effect → Bool
  | reply t (.error _) => t == ticket
  | _ => false

variable {p : Packet}

theorem packet?_send (target : SocketAddr) (sound : p.WellFormed) :
    (send target p.encode).packet? = some p := by
  simp [packet?, datagram?, Packet.parse_encode sound, Except.toOption]

theorem packet?_resend (target : SocketAddr) (sound : p.WellFormed) :
    (resend target p.encode).packet? = some p := by
  simp [packet?, datagram?, Packet.parse_encode sound, Except.toOption]

theorem launch?_send (target : SocketAddr) (sound : p.WellFormed) :
    (send target p.encode).launch? = some p := by
  simp [launch?, Packet.parse_encode sound, Except.toOption]

theorem wellFormed_of_packet? {e : Effect} (seen : e.packet? = some p) : p.WellFormed := by
  obtain ⟨d, _, parsed⟩ := Option.bind_eq_some_iff.mp seen
  cases outcome : Packet.parse d.2 with
  | error _ =>
    rw [outcome] at parsed
    cases parsed
  | ok q =>
    rw [outcome] at parsed
    obtain rfl : q = p := Option.some.inj parsed
    exact Packet.wellFormed_of_parse outcome

theorem packet?_eq_none {e : Effect} (none : e.datagram? = none) : e.packet? = .none := by
  rw [packet?, none]
  rfl

theorem launch?_eq_none {e : Effect} (none : e.datagram? = none) : e.launch? = .none := by
  cases e with
  | send => cases none
  | _ => rfl

@[simp] theorem packet?_emit (event : Event) : (emit event).packet? = none := rfl

@[simp] theorem packet?_reply (ticket : Nat) (result : Except TransportError Nat) :
    (reply ticket result).packet? = none := rfl

@[simp] theorem launch?_resend (target : SocketAddr) (bytes : Bytes) :
    (resend target bytes).launch? = none := rfl

@[simp] theorem launch?_emit (event : Event) : (emit event).launch? = none := rfl

@[simp] theorem launch?_reply (ticket : Nat) (result : Except TransportError Nat) :
    (reply ticket result).launch? = none := rfl

end ReliableDatagram.Effect
