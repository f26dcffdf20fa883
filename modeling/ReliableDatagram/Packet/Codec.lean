import ReliableDatagram.Packet.Basic

/-!
# The wire format

The first byte holds the protocol version in its high half and the channel number in its low half.
Id, kind, timestamp and payload length follow, and the payload takes the rest of the datagram.
-/

namespace ReliableDatagram.Packet

inductive ParseError
  | short (length : Nat)
  | unknownVersion (version : Nat)
  | unknownKind (code : UInt8)
  | lengthMismatch (declared actual : Nat)
  | unexpectedPayload (kind : Kind)
deriving DecidableEq

def ParseError.message : ParseError → String
  | short length => s!"packet of {length} bytes is shorter than the header"
  | unknownVersion version => s!"unsupported protocol version {version}"
  | unknownKind code => s!"unknown packet type {code.toNat}"
  | lengthMismatch declared actual =>
    s!"declared payload length {declared} does not match actual payload length {actual}"
  | unexpectedPayload kind => s!"{kind.name} packet must not carry a payload"

/-- A channel number above 15 loses its high bits. -/
def Header.encode (h : Header) : Bytes :=
  UInt8.ofNat (16 * version + h.channel.toNat % 16) ::
    (LittleEndian.encode 4 h.id.raw.toNat ++
      h.kind.code ::
        (LittleEndian.encode 4 h.timestamp.toNat ++ LittleEndian.encode 2 h.payloadLength.toNat))

/-- The header at the front of a datagram, whatever follows it. -/
def Header.decode (bytes : Bytes) : Except ParseError Header :=
  match bytes with
  | v :: i₀ :: i₁ :: i₂ :: i₃ :: k :: t₀ :: t₁ :: t₂ :: t₃ :: l₀ :: l₁ :: _ =>
    if v.toNat / 16 ≠ version then .error (.unknownVersion (v.toNat / 16))
    else
      match Kind.ofCode? k with
      | none => .error (.unknownKind k)
      | some kind =>
        .ok {
          channel := UInt8.ofNat (v.toNat % 16)
          id := ⟨UInt32.ofNat (LittleEndian.decode [i₀, i₁, i₂, i₃])⟩
          kind
          timestamp := UInt32.ofNat (LittleEndian.decode [t₀, t₁, t₂, t₃])
          payloadLength := UInt16.ofNat (LittleEndian.decode [l₀, l₁]) }
  | _ => .error (.short bytes.length)

def encode (p : Packet) : Bytes := p.header.encode ++ p.payload

def parse (bytes : Bytes) : Except ParseError Packet :=
  match Header.decode bytes with
  | .error e => .error e
  | .ok header =>
    let payload := bytes.drop Header.size
    if header.payloadLength.toNat ≠ payload.length then
      .error (.lengthMismatch header.payloadLength.toNat payload.length)
    else if header.kind.carriesPayload = false ∧ payload ≠ [] then
      .error (.unexpectedPayload header.kind)
    else .ok ⟨header, payload⟩

/-- Whether a datagram has a known version and kind and exactly the payload that it declares. -/
def validate (bytes : Bytes) : Bool :=
  match Header.decode bytes with
  | .error _ => false
  | .ok header =>
    let actual := bytes.length - Header.size
    header.payloadLength.toNat == actual && (header.kind.carriesPayload || actual == 0)

@[simp] theorem Header.length_encode (h : Header) : h.encode.length = Header.size := by
  simp [Header.encode, Header.size]

@[simp] theorem length_encode (p : Packet) :
    p.encode.length = Header.size + p.payload.length := by
  simp [encode]

end ReliableDatagram.Packet
