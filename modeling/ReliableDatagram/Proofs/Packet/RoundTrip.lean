import ReliableDatagram.Packet.Codec

/-!
# What the wire format carries

Parsing gives back every packet that an encoding can represent, and nothing else parses.
-/

namespace ReliableDatagram.Packet

/-- The packets that the wire format can represent. -/
structure WellFormed (p : Packet) : Prop where
  channel_le : p.header.channel ≤ maxChannel
  declared : p.header.payloadLength.toNat = p.payload.length
  bare : p.header.kind.carriesPayload = false → p.payload = []

theorem channel_lt {channel : UInt8} (h : channel ≤ maxChannel) : channel.toNat < 16 := by
  have := UInt8.le_iff_toNat_le.mp h
  have top : maxChannel.toNat = 15 := rfl
  omega

theorem Header.decode_encode_append (h : Header) (channel_le : h.channel ≤ maxChannel)
    (rest : Bytes) : Header.decode (h.encode ++ rest) = .ok h := by
  obtain ⟨channel, ⟨id⟩, kind, timestamp, payloadLength⟩ := h
  have small : channel.toNat < 16 := channel_lt channel_le
  have idLt := id.toNat_lt
  have timestampLt := timestamp.toNat_lt
  have lengthLt := payloadLength.toNat_lt
  have idBack := LittleEndian.decode_encode 4 id.toNat
  have timestampBack := LittleEndian.decode_encode 4 timestamp.toNat
  have lengthBack := LittleEndian.decode_encode 2 payloadLength.toNat
  simp only [LittleEndian.encode, LittleEndian.capacity] at idBack timestampBack lengthBack
  have first : (UInt8.ofNat (16 * version + channel.toNat % 16)).toNat = 16 + channel.toNat := by
    simp only [UInt8.toNat_ofNat', version]
    omega
  simp only [Header.encode, LittleEndian.encode, List.cons_append, List.nil_append, Header.decode,
    Kind.ofCode?_code, idBack, timestampBack, lengthBack]
  rw [first, if_neg (by simp only [version]; omega)]
  congr 2
  · apply UInt8.toNat_inj.mp
    simp only [UInt8.toNat_ofNat']
    omega
  · congr 1
    apply UInt32.toNat_inj.mp
    simp only [UInt32.toNat_ofNat']
    omega
  · apply UInt32.toNat_inj.mp
    simp only [UInt32.toNat_ofNat']
    omega
  · apply UInt16.toNat_inj.mp
    simp only [UInt16.toNat_ofNat']
    omega

theorem parse_encode {p : Packet} (h : p.WellFormed) : parse p.encode = .ok p := by
  have payload : p.encode.drop Header.size = p.payload := by
    rw [encode, List.drop_append_of_le_length (by simp), List.drop_of_length_le (by simp),
      List.nil_append]
  unfold parse
  rw [payload, encode, Header.decode_encode_append p.header h.channel_le]
  simp only [h.declared, ne_eq, not_true_eq_false, if_false]
  rw [if_neg fun unexpected => unexpected.2 (h.bare unexpected.1)]

theorem encode_inj {p q : Packet} (pSound : p.WellFormed) (qSound : q.WellFormed)
    (same : p.encode = q.encode) : p = q := by
  have parsed := parse_encode pSound
  rw [same, parse_encode qSound] at parsed
  exact (Except.ok.inj parsed).symm

theorem Header.channel_le_of_decode {bytes : Bytes} {h : Header}
    (decoded : Header.decode bytes = .ok h) : h.channel ≤ maxChannel := by
  unfold Header.decode at decoded
  split at decoded
  · split at decoded
    · cases decoded
    · split at decoded
      · cases decoded
      · cases decoded
        apply UInt8.le_iff_toNat_le.mpr
        have top : maxChannel.toNat = 15 := rfl
        simp only [UInt8.toNat_ofNat']
        omega
  · cases decoded

theorem parse_eq_ok {bytes : Bytes} {p : Packet} (parsed : parse bytes = .ok p) :
    Header.decode bytes = .ok p.header ∧ p.payload = bytes.drop Header.size ∧
      p.header.payloadLength.toNat = p.payload.length ∧
      (p.header.kind.carriesPayload = false → p.payload = []) := by
  unfold parse at parsed
  split at parsed
  · cases parsed
  · next header decoded =>
    dsimp only at parsed
    split at parsed
    · cases parsed
    · next declared =>
      split at parsed
      · cases parsed
      · next filled =>
        cases parsed
        refine ⟨decoded, rfl, by simpa using declared, fun bare => ?_⟩
        exact Classical.byContradiction fun nonempty => filled ⟨bare, nonempty⟩

theorem encode_toNat_ofNat_four (a b c d : UInt8) :
    LittleEndian.encode 4 (UInt32.ofNat (LittleEndian.decode [a, b, c, d])).toNat = [a, b, c, d] := by
  have bound : LittleEndian.decode [a, b, c, d] < 2 ^ 32 := by
    have := a.toNat_lt
    have := b.toNat_lt
    have := c.toNat_lt
    have := d.toNat_lt
    simp only [LittleEndian.decode]
    omega
  rw [UInt32.toNat_ofNat', Nat.mod_eq_of_lt bound]
  exact LittleEndian.encode_decode [a, b, c, d]

theorem encode_toNat_ofNat_two (a b : UInt8) :
    LittleEndian.encode 2 (UInt16.ofNat (LittleEndian.decode [a, b])).toNat = [a, b] := by
  have bound : LittleEndian.decode [a, b] < 2 ^ 16 := by
    have := a.toNat_lt
    have := b.toNat_lt
    simp only [LittleEndian.decode]
    omega
  rw [UInt16.toNat_ofNat', Nat.mod_eq_of_lt bound]
  exact LittleEndian.encode_decode [a, b]

theorem Header.encode_of_decode {bytes : Bytes} {h : Header}
    (decoded : Header.decode bytes = .ok h) : h.encode ++ bytes.drop Header.size = bytes := by
  unfold Header.decode at decoded
  split at decoded
  · next v i₀ i₁ i₂ i₃ k t₀ t₁ t₂ t₃ l₀ l₁ rest =>
    split at decoded
    · cases decoded
    · next sameVersion =>
      split at decoded
      · cases decoded
      · next kind known =>
        cases decoded
        have first : UInt8.ofNat (16 * version + (UInt8.ofNat (v.toNat % 16)).toNat % 16) = v := by
          apply UInt8.toNat_inj.mp
          have := v.toNat_lt
          simp only [UInt8.toNat_ofNat', version] at sameVersion ⊢
          omega
        simp only [Header.encode, encode_toNat_ofNat_four, encode_toNat_ofNat_two, first,
          Kind.code_of_ofCode? known]
        rfl
  · cases decoded

theorem encode_of_parse {bytes : Bytes} {p : Packet} (parsed : parse bytes = .ok p) :
    p.encode = bytes := by
  obtain ⟨decoded, payload, _⟩ := parse_eq_ok parsed
  rw [encode, payload]
  exact Header.encode_of_decode decoded

theorem wellFormed_of_parse {bytes : Bytes} {p : Packet} (parsed : parse bytes = .ok p) :
    p.WellFormed := by
  obtain ⟨decoded, _, declared, bare⟩ := parse_eq_ok parsed
  exact ⟨Header.channel_le_of_decode decoded, declared, bare⟩

theorem wellFormed_make {channel : UInt8} {id : PacketId} {kind : Kind} {timestamp : UInt32}
    {payload : Bytes} (channel_le : channel ≤ maxChannel) (short : payload.length ≤ 0xffff)
    (bare : kind.carriesPayload = false → payload = []) :
    (make channel id kind timestamp payload).WellFormed := by
  refine ⟨channel_le, ?_, bare⟩
  simp only [make, UInt16.toNat_ofNat']
  omega

theorem WellFormed.length_le {p : Packet} (sound : p.WellFormed) : p.payload.length ≤ 0xffff := by
  have := p.header.payloadLength.toNat_lt
  have := sound.declared
  omega

theorem wellFormed_data {channel : UInt8} {id : PacketId} {timestamp : UInt32} {payload : Bytes}
    (channel_le : channel ≤ maxChannel) (short : payload.length ≤ 0xffff) :
    (data channel id timestamp payload).WellFormed :=
  wellFormed_make channel_le short fun bare => by cases bare

theorem WellFormed.ack {p : Packet} (sound : p.WellFormed) : p.ack.WellFormed :=
  wellFormed_make sound.channel_le (Nat.zero_le _) fun _ => rfl

theorem WellFormed.ackReset {p : Packet} (sound : p.WellFormed) : p.ackReset.WellFormed :=
  wellFormed_make sound.channel_le (Nat.zero_le _) fun _ => rfl

theorem WellFormed.ackPing {p : Packet} (sound : p.WellFormed) : p.ackPing.WellFormed :=
  wellFormed_make sound.channel_le sound.length_le fun bare => by cases bare

theorem wellFormed_ping {channel : UInt8} {timestamp : UInt32} {payload : Bytes}
    (channel_le : channel ≤ maxChannel) (short : payload.length ≤ 0xffff) :
    (ping channel timestamp payload).WellFormed :=
  wellFormed_make channel_le short fun bare => by cases bare

theorem wellFormed_reset {channel : UInt8} {timestamp : UInt32} (channel_le : channel ≤ maxChannel) :
    (reset channel timestamp).WellFormed :=
  wellFormed_make channel_le (Nat.zero_le _) fun _ => rfl

end ReliableDatagram.Packet
