import ReliableDatagram.Proofs.Packet.RoundTrip

/-!
# The grammar of datagrams

Which byte strings are packets is said here by their bytes alone. Parsing and validation accept just
these, and an encoding is the only byte string that parses to its packet: `codec_bijective`.
-/

namespace ReliableDatagram.Packet

/-- A byte string is a packet if it has a whole header of version 1 with a known kind, if as many
bytes follow the header as it declares, and if none follow that of a bare acknowledgement. -/
structure Grammatical (bytes : Bytes) : Prop where
  long : 12 ≤ bytes.length
  version : (bytes.getD 0 0).toNat / 16 = 1
  kind : (bytes.getD 5 0).toNat ≤ 5
  declared : (bytes.getD 10 0).toNat + 256 * (bytes.getD 11 0).toNat = bytes.length - 12
  bare : bytes.getD 5 0 = 1 ∨ bytes.getD 5 0 = 3 → bytes.length = 12

namespace Kind

theorem exists_ofCode?_iff {b : UInt8} : (∃ k, ofCode? b = some k) ↔ b.toNat ≤ 5 := by
  constructor
  · rintro ⟨k, known⟩
    rw [← code_of_ofCode? known]
    cases k <;> decide
  · intro small
    have cases : b.toNat = 0 ∨ b.toNat = 1 ∨ b.toNat = 2 ∨ b.toNat = 3 ∨ b.toNat = 4 ∨ b.toNat = 5 :=
      by omega
    rcases cases with code | code | code | code | code | code <;> simp [ofCode?, code]

theorem carriesPayload_eq_false_iff (k : Kind) :
    k.carriesPayload = false ↔ k.code = 1 ∨ k.code = 3 := by
  cases k <;> decide

end Kind

variable {bytes : Bytes} {h : Header} {p : Packet}

theorem exists_cons_of_long (long : 12 ≤ bytes.length) :
    ∃ v i₀ i₁ i₂ i₃ k t₀ t₁ t₂ t₃ l₀ l₁ rest,
      bytes = v :: i₀ :: i₁ :: i₂ :: i₃ :: k :: t₀ :: t₁ :: t₂ :: t₃ :: l₀ :: l₁ :: rest := by
  match bytes, long with
  | v :: i₀ :: i₁ :: i₂ :: i₃ :: k :: t₀ :: t₁ :: t₂ :: t₃ :: l₀ :: l₁ :: rest, _ =>
    exact ⟨v, i₀, i₁, i₂, i₃, k, t₀, t₁, t₂, t₃, l₀, l₁, rest, rfl⟩

theorem Header.exists_decode (long : 12 ≤ bytes.length)
    (version : (bytes.getD 0 0).toNat / 16 = 1) (kind : (bytes.getD 5 0).toNat ≤ 5) :
    ∃ h, Header.decode bytes = .ok h := by
  obtain ⟨v, i₀, i₁, i₂, i₃, k, t₀, t₁, t₂, t₃, l₀, l₁, rest, rfl⟩ := exists_cons_of_long long
  have current : v.toNat / 16 = Packet.version := version
  obtain ⟨kind, known⟩ := Kind.exists_ofCode?_iff.mpr kind
  have known : Kind.ofCode? k = some kind := known
  simp [Header.decode, current, known]

/-- What a decoded header says of the bytes that it was decoded from. -/
theorem Header.of_decode (decoded : Header.decode bytes = .ok h) :
    12 ≤ bytes.length ∧ (bytes.getD 0 0).toNat / 16 = 1 ∧ h.kind.code = bytes.getD 5 0 ∧
      h.payloadLength.toNat = (bytes.getD 10 0).toNat + 256 * (bytes.getD 11 0).toNat := by
  unfold Header.decode at decoded
  split at decoded
  · next v i₀ i₁ i₂ i₃ k t₀ t₁ t₂ t₃ l₀ l₁ rest =>
    split at decoded
    · cases decoded
    · next current =>
      split at decoded
      · cases decoded
      · next kind known =>
        cases decoded
        refine ⟨?_, Classical.not_not.mp current, Kind.code_of_ofCode? known, ?_⟩
        · simp only [List.length_cons]
          omega
        · have low := l₀.toNat_lt
          have high := l₁.toNat_lt
          simp only [LittleEndian.decode, UInt16.toNat_ofNat', List.getD_cons_succ,
            List.getD_cons_zero]
          omega
  · cases decoded

theorem grammatical_of_parse (parsed : parse bytes = .ok p) : Grammatical bytes := by
  obtain ⟨decoded, payload, declared, bare⟩ := parse_eq_ok parsed
  obtain ⟨long, version, kind, length⟩ := Header.of_decode decoded
  have rest : p.payload.length = bytes.length - 12 := by
    rw [payload, List.length_drop]
    rfl
  refine ⟨long, version, ?_, ?_, fun ack => ?_⟩
  · exact Kind.exists_ofCode?_iff.mp ⟨p.header.kind, by rw [← kind, Kind.ofCode?_code]⟩
  · rw [← length, declared, rest]
  · rw [← kind, ← Kind.carriesPayload_eq_false_iff] at ack
    have empty : p.payload.length = 0 := by rw [bare ack, List.length_nil]
    omega

theorem Grammatical.exists_parse (grammatical : Grammatical bytes) : ∃ p, parse bytes = .ok p := by
  obtain ⟨h, decoded⟩ :=
    Header.exists_decode grammatical.long grammatical.version grammatical.kind
  obtain ⟨_, _, kind, length⟩ := Header.of_decode decoded
  have declared : h.payloadLength.toNat = (bytes.drop Header.size).length := by
    rw [length, grammatical.declared, List.length_drop]
    rfl
  refine ⟨⟨h, bytes.drop Header.size⟩, ?_⟩
  unfold parse
  simp only [decoded, declared, ne_eq, not_true_eq_false, if_false]
  refine if_neg fun ⟨ack, filled⟩ => filled (List.drop_of_length_le ?_)
  rw [Kind.carriesPayload_eq_false_iff, kind] at ack
  exact Nat.le_of_eq (grammatical.bare ack)

/-- A packet that lost its end is not a packet any more. -/
theorem Grammatical.not_take (grammatical : Grammatical bytes) {n : Nat} (cut : n < bytes.length) :
    ¬Grammatical (bytes.take n) := by
  intro shorter
  have length : (bytes.take n).length = n := List.length_take_of_le (Nat.le_of_lt cut)
  have long := shorter.long
  have front (i : Nat) (inside : i < n) : (bytes.take n).getD i 0 = bytes.getD i 0 := by
    rw [List.getD_eq_getElem?_getD, List.getElem?_take_of_lt inside, ← List.getD_eq_getElem?_getD]
  have declared := shorter.declared
  rw [front 10 (by omega), front 11 (by omega), grammatical.declared] at declared
  omega

/-- Validation is written apart from parsing, but it comes to the same. -/
theorem validate_iff_parses : validate bytes = true ↔ ∃ p, parse bytes = .ok p := by
  unfold validate parse
  cases decoded : Header.decode bytes with
  | error e => simp
  | ok h =>
    simp only [List.length_drop, Bool.and_eq_true, Bool.or_eq_true, beq_iff_eq]
    by_cases declared : h.payloadLength.toNat = bytes.length - Header.size
    · have empty : bytes.drop Header.size = [] ↔ bytes.length - Header.size = 0 := by
        rw [← List.length_eq_zero_iff, List.length_drop]
      by_cases bare : h.kind.carriesPayload = true
      · simp [declared, bare]
      · by_cases filled : bytes.length - Header.size = 0
        · simp [declared, filled, empty.mpr filled]
        · simp [declared, bare, filled, empty]
    · simp [declared]

theorem parse_make {channel : UInt8} {id : PacketId} {kind : Kind} {timestamp : UInt32}
    {payload : Bytes} (channel_le : channel ≤ maxChannel) (short : payload.length ≤ 0xffff)
    (bare : kind.carriesPayload = false → payload = []) :
    parse (make channel id kind timestamp payload).encode =
      .ok ⟨⟨channel, id, kind, timestamp, UInt16.ofNat payload.length⟩, payload⟩ :=
  parse_encode (wellFormed_make channel_le short bare)

/-- Parsing and validation accept just the grammatical byte strings, and what is parsed encodes to
them again. All fields that fit the format come back from their encoding, and so do the channel, the
id and the timestamp of a packet from the answers to it. -/
theorem codec_bijective :
    (∀ bytes : Bytes,
      ((∃ p, parse bytes = .ok p) ↔ validate bytes = true) ∧
      (validate bytes = true ↔ Grammatical bytes) ∧
      ∀ p, parse bytes = .ok p → p.header.encode ++ p.payload = bytes) ∧
    (∀ channel id kind timestamp payload, channel ≤ 15 → payload.length ≤ 65535 →
      (kind = .ack ∨ kind = .ackReset → payload = []) →
      parse (make channel id kind timestamp payload).encode =
        .ok ⟨⟨channel, id, kind, timestamp, UInt16.ofNat payload.length⟩, payload⟩) ∧
    ∀ bytes p, parse bytes = .ok p →
      parse p.ack.encode = .ok ⟨⟨p.header.channel, p.header.id, .ack, p.header.timestamp, 0⟩, []⟩ ∧
      parse p.ackReset.encode =
        .ok ⟨⟨p.header.channel, p.header.id, .ackReset, p.header.timestamp, 0⟩, []⟩ ∧
      parse p.ackPing.encode =
        .ok ⟨⟨p.header.channel, p.header.id, .ackPing, p.header.timestamp,
          UInt16.ofNat p.payload.length⟩, p.payload⟩ := by
  refine ⟨fun bytes => ⟨validate_iff_parses.symm, ?_, fun p => encode_of_parse⟩, ?_, ?_⟩
  · constructor
    · intro valid
      obtain ⟨p, parsed⟩ := validate_iff_parses.mp valid
      exact grammatical_of_parse parsed
    · intro grammatical
      exact validate_iff_parses.mpr grammatical.exists_parse
  · intro channel id kind timestamp payload channel_le short bare
    refine parse_make channel_le short fun ack => bare ?_
    cases kind <;> first | exact .inl rfl | exact .inr rfl | cases ack
  · intro bytes p parsed
    have sound := wellFormed_of_parse parsed
    exact ⟨parse_encode sound.ack, parse_encode sound.ackReset, parse_encode sound.ackPing⟩

/-- The packet with id 7 and a payload of two bytes on channel 3, and the answers to it. -/
theorem codec_bijective_on_seventh :
    let p := data 3 ⟨7⟩ 1 [0x68, 0x69]
    let bytes : Bytes := [0x13, 7, 0, 0, 0, 0, 1, 0, 0, 0, 2, 0, 0x68, 0x69]
    p.encode = bytes ∧ parse bytes = .ok p ∧ Grammatical bytes ∧
      parse p.ack.encode = .ok ⟨⟨3, ⟨7⟩, .ack, 1, 0⟩, []⟩ ∧
      parse p.ackPing.encode = .ok ⟨⟨3, ⟨7⟩, .ackPing, 1, 2⟩, [0x68, 0x69]⟩ := by
  intro p bytes
  have parsed : parse bytes = .ok p :=
    codec_bijective.2.1 3 ⟨7⟩ .data 1 [0x68, 0x69] (by decide) (by decide) (by nofun)
  have answers := codec_bijective.2.2 bytes p parsed
  have accepted := (codec_bijective.1 bytes).1.mp ⟨p, parsed⟩
  exact ⟨by decide, parsed, (codec_bijective.1 bytes).2.1.mp accepted, answers.1, answers.2.2⟩

end ReliableDatagram.Packet
