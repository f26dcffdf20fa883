import ReliableDatagram.Effect
import ReliableDatagram.Proofs.Packet.RoundTrip

/-!
# What stands at the front of a datagram

Kind and id of a packet can be read from the front of its encoding, whatever its payload is. Of the
channel number, an encoding keeps as much as fits into half a byte.
-/

namespace ReliableDatagram

namespace Packet

/-- The header that an encoding of this one begins with. -/
def Header.narrowed (h : Header) : Header :=
  { h with channel := UInt8.ofNat (h.channel.toNat % 16) }

theorem Header.narrowed_channel_le (h : Header) : h.narrowed.channel ≤ maxChannel := by
  have top : maxChannel.toNat = 15 := rfl
  rw [UInt8.le_iff_toNat_le, top]
  simp only [narrowed, UInt8.toNat_ofNat']
  omega

theorem Header.encode_narrowed (h : Header) : h.narrowed.encode = h.encode := by
  have low : (UInt8.ofNat (h.channel.toNat % 16)).toNat % 16 = h.channel.toNat % 16 := by
    simp only [UInt8.toNat_ofNat']
    omega
  simp only [encode, narrowed, low]

theorem decode_encode (p : Packet) : Header.decode p.encode = .ok p.header.narrowed := by
  rw [encode, ← Header.encode_narrowed]
  exact Header.decode_encode_append _ p.header.narrowed_channel_le _

/-- The kind and the id at the front of a datagram. -/
def label? (bytes : Bytes) : Option (Kind × PacketId) :=
  (Header.decode bytes).toOption.map fun h => (h.kind, h.id)

@[simp] theorem label?_encode (p : Packet) : label? p.encode = some (p.header.kind, p.header.id) := by
  rw [label?, decode_encode]
  rfl

end Packet

namespace Effect

/-- The id and the bytes of a packet of this kind that is sent for the first time. -/
def posted? (kind : Packet.Kind) : Effect → Option (PacketId × Bytes)
  | send _ bytes =>
    (Packet.label? bytes).bind fun label => if label.1 = kind then some (label.2, bytes) else none
  | _ => none

/-- The bytes of a packet of this kind that is sent again. -/
def repeated? (kind : Packet.Kind) : Effect → Option Bytes
  | resend _ bytes =>
    (Packet.label? bytes).bind fun label => if label.1 = kind then some bytes else none
  | _ => none

/-- The id of a packet of this kind that is sent, be it for the first time or again. -/
def sentId? (kind : Packet.Kind) (e : Effect) : Option PacketId :=
  e.datagram?.bind fun d =>
    (Packet.label? d.2).bind fun label => if label.1 = kind then some label.2 else none

variable {kind : Packet.Kind} {e : Effect}

theorem sentId?_eq_none (silent : e.datagram? = none) : e.sentId? kind = none := by
  rw [sentId?, silent]
  rfl

/-- What is sent for the first time or again is sent. -/
theorem posted?_eq_none (mute : e.sentId? kind = none) : e.posted? kind = none := by
  cases e with
  | send target bytes =>
    simp only [sentId?, datagram?, Option.bind_some, Option.bind_eq_none_iff] at mute
    simp only [posted?, Option.bind_eq_none_iff]
    intro label read
    simpa using mute label read
  | _ => rfl

theorem repeated?_eq_none (mute : e.sentId? kind = none) : e.repeated? kind = none := by
  cases e with
  | resend target bytes =>
    simp only [sentId?, datagram?, Option.bind_some, Option.bind_eq_none_iff] at mute
    simp only [repeated?, Option.bind_eq_none_iff]
    intro label read
    simpa using mute label read
  | _ => rfl

end Effect

end ReliableDatagram
