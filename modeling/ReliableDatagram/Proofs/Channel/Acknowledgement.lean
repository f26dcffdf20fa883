import ReliableDatagram.Proofs.Channel.NewestStream

/-!
# What an acknowledgement releases

An acknowledgement repeats the id and the timestamp of a packet, but a sender looks at the id only,
and the ids of a stream recur in the next one. `faithful_iff` says which acknowledgements release
only the packet that they repeat: those of the newest stream, and those that release nothing.
-/

namespace ReliableDatagram.Channel

open PacketId

variable {n : UInt8} {st : List Packet} {ctx : Context} {c : Channel} {a p : Packet}

/-- The acknowledgement has the id and the timestamp of the packet. -/
def Echoes (a p : Packet) : Prop :=
  a.header.id = p.header.id ∧ a.header.timestamp = p.header.timestamp

/-- What the acknowledgement releases is the packet that it repeats, and no other one is a sample of
the round trip time. -/
structure Faithful (c : Channel) (a : Packet) (c' : Channel) : Prop where
  released : ∀ x ∈ c.sender.unacked.contents, x ∉ c'.sender.unacked.contents →
    ∃ p, Packet.parse x.2 = .ok p ∧ Echoes a p
  sampled : c'.rtt ≠ c.rtt →
    ∃ x ∈ c.sender.unacked.contents, x ∉ c'.sender.unacked.contents

section Release

theorem release_contents (ws : List ParkedWrite) (c : Channel) {x : PacketId × Bytes}
    (held : x ∈ c.sender.unacked.contents) :
    x ∈ (release ctx ws c).value.sender.unacked.contents := by
  induction ws generalizing c with
  | nil => exact held
  | cons w ws ih =>
    simp only [release]
    split
    · refine ih _ ?_
      simp [sender_sendWrite, held]
    · exact held

theorem checkConnected_rtt (c : Channel) : c.checkConnected.value.rtt = c.rtt := by
  unfold checkConnected
  split <;> rfl

end Release

section Ack

variable (kind : a.header.kind = .ack)
include kind

theorem exists_of_sampled (sampled : (c.onPacket ctx a).value.rtt ≠ c.rtt) :
    ∃ x ∈ c.sender.unacked.contents, x.1 = a.header.id := by
  cases found : c.sender.unacked.remove? a.header.id with
  | none =>
    have lost : (c.heard ctx).sender.unacked.remove? a.header.id = none := found
    refine absurd ?_ sampled
    calc (c.onPacket ctx a).value.rtt
      _ = ((c.heard ctx).dispatch ctx a).value.rtt := checkConnected_rtt _
      _ = c.rtt := by
        simp only [dispatch, kind, onAck, lost]
        rfl
  | some removed =>
    obtain ⟨entry, first, _⟩ := Option.map_eq_some_iff.mp found
    refine ⟨(entry.id, entry.packet), List.mem_map_of_mem (List.mem_of_find?_eq_some first), ?_⟩
    have same := List.find?_some first
    exact eq_of_beq same

theorem mem_onPacket_ack {x : PacketId × Bytes} (held : x ∈ c.sender.unacked.contents)
    (other : x.1 ≠ a.header.id) : x ∈ (c.onPacket ctx a).value.sender.unacked.contents := by
  rw [onPacket_sender]
  simp only [dispatch, kind, onAck]
  split
  · exact held
  · next entry unacked found =>
    refine release_contents _ _ ?_
    show x ∈ unacked.contents
    rw [SendQueue.contents_remove? found]
    exact (List.mem_eraseP_of_neg (by simpa using other)).mpr held

/-- Each id stands in the queue once, and it does not come back with a parked write. -/
theorem not_mem_onPacket_ack (sound : c.Sound) (inStream : InStream n st c)
    (short : st.length + c.sender.parked.length ≤ horizon) {x : PacketId × Bytes}
    (held : x ∈ c.sender.unacked.contents) (same : x.1 = a.header.id) :
    x ∉ (c.onPacket ctx a).value.sender.unacked.contents := by
  intro kept
  obtain ⟨s, nextId, parked, unacked, advances⟩ := onPacket_ack ctx sound kind
  obtain ⟨ks, ranked⟩ := inStream.places
  obtain ⟨k, p, found, rfl⟩ := inStream.sends.unacked x held
  have bound := (List.getElem?_eq_some_iff.mp found).1
  have kept : nth k ∈ (c.onPacket ctx a).value.sender.unackedIds := List.mem_map_of_mem kept
  have fewer := advances.parked
  rw [parked] at fewer
  rw [advances.unacked, unacked] at kept
  rcases List.mem_append.mp kept with old | new
  · have erased := ranked.eraseP a.header.id
    rw [erased.ids] at old
    obtain ⟨j, left, place⟩ := List.mem_map.mp old
    exact ranked.gone (by omega) left (place.trans same)
  · rw [(advances.places st.length (nextId.trans inStream.sends.nextId)).2] at new
    obtain ⟨j, later, place⟩ := List.mem_map.mp new
    have := List.mem_range'_1.mp later
    have := (nth_inj (by omega) (by omega)).mp place
    omega

theorem faithful_of_hits (sound : c.Sound) (inStream : InStream n st c)
    (short : st.length + c.sender.parked.length ≤ horizon)
    (hits : ∀ x ∈ c.sender.unacked.contents, x.1 = a.header.id →
      ∃ p, Packet.parse x.2 = .ok p ∧ Echoes a p) : Faithful c a (c.onPacket ctx a).value := by
  refine ⟨fun x held gone => hits x held ?_, fun sampled => ?_⟩
  · by_cases same : x.1 = a.header.id
    · exact same
    · exact absurd (mem_onPacket_ack kind held same) gone
  · obtain ⟨x, held, same⟩ := exists_of_sampled kind sampled
    exact ⟨x, held, not_mem_onPacket_ack kind sound inStream short held same⟩

end Ack

/-- The ids of a stream recur in the next one, so an acknowledgement is faithful exactly if it
repeats a packet of the newest stream or its id is not in the send queue. -/
theorem faithful_iff {config : Config} {clock : Clock} {key : Key} {generation start : Nat}
    {ops : List (Nat × Op)} {done : Logged Effect Channel} {a : Packet} (now : Nat)
    (channel_le : key.channel ≤ Packet.maxChannel)
    (reached : done = run config clock ops (create key generation config start))
    (known : ∀ step ∈ ops, step.2.Sound key)
    (short : (newestStream (launched done.log)).length + done.value.sender.parked.length ≤ horizon)
    (kind : a.header.kind = .ack) :
    Faithful done.value a (done.value.onPacket ⟨now, config, clock⟩ a).value ↔
      (∃ p ∈ newestStream (launched done.log), Echoes a p) ∨
        done.value.sender.unacked.contains a.header.id = false := by
  have tracks := tracks_run config clock generation start channel_le known
  rw [← reached] at tracks
  have sound : done.value.Sound := by
    rw [reached]
    exact Sound.run config clock (Table.sound_create channel_le) known
  obtain ⟨st, newest, inStream⟩ := tracks
  have within : st.length + done.value.sender.parked.length ≤ horizon := by
    rcases newest with rfl | rfl
    · rw [List.length_nil]
      omega
    · exact short
  constructor
  · intro faithful
    cases hit : done.value.sender.unacked.contains a.header.id with
    | false => exact .inr rfl
    | true =>
      obtain ⟨bytes, held⟩ := SendQueue.contains_iff.mp hit
      obtain ⟨q, parsed, echoes⟩ := faithful.released _ held
        (not_mem_onPacket_ack kind sound inStream within held rfl)
      obtain ⟨k, p, found, same⟩ := inStream.sends.unacked _ held
      obtain rfl : p = q := by
        rw [(Prod.mk.inj same).2, Packet.parse_encode (inStream.stream k p found).1] at parsed
        exact Except.ok.inj parsed
      rcases newest with rfl | rfl
      · cases found
      · exact .inl ⟨p, List.mem_of_getElem? found, echoes⟩
  · intro known
    refine faithful_of_hits kind sound inStream within fun x held same => ?_
    rcases known with ⟨p, mem, echoes⟩ | free
    · obtain ⟨k, q, found, rfl⟩ := inStream.sends.unacked x held
      rcases newest with rfl | rfl
      · cases found
      · obtain ⟨j, found'⟩ := List.getElem?_of_mem mem
        have := (List.getElem?_eq_some_iff.mp found).1
        have := (List.getElem?_eq_some_iff.mp found').1
        have place : nth k = nth j := by
          rw [← inStream.stream.id found', ← echoes.1]
          exact same
        obtain rfl : k = j := (nth_inj (by omega) (by omega)).mp place
        obtain rfl : q = p := Option.some.inj (found.symm.trans found')
        exact ⟨q, Packet.parse_encode (inStream.stream k q found).1, echoes⟩
    · have hit : done.value.sender.unacked.contains a.header.id = true :=
        SendQueue.contains_iff.mpr ⟨x.2, by rwa [← same]⟩
      rw [free] at hit
      cases hit

section Leftover

/-- A write, a request to start over, and another write. -/
def twoStarts : List (Nat × Op) :=
  [(0, .write ⟨0, [1]⟩), (millisecond, .packet (.reset 1 7)), (2 * millisecond, .write ⟨1, [2]⟩)]

def afterTwoStarts : Logged Effect Channel :=
  run {} ⟨0, 0⟩ twoStarts (create ⟨⟨.v4 1, 1⟩, 1⟩ 1 {} 0)

theorem sound_twoStarts : ∀ step ∈ twoStarts, step.2.Sound ⟨⟨.v4 1, 1⟩, 1⟩ := by
  intro step mem
  simp only [twoStarts, List.mem_cons, List.not_mem_nil, or_false] at mem
  rcases mem with rfl | rfl | rfl
  · exact (by decide : [1].length ≤ 0xffff)
  · exact ⟨Packet.wellFormed_reset (by decide), rfl⟩
  · exact (by decide : [2].length ≤ 0xffff)

/-- The answer to the second start is faithful. -/
theorem faithful_of_answer :
    Faithful afterTwoStarts.value (Packet.data 1 .streamStart 2 [2]).ack
      (afterTwoStarts.value.onPacket ⟨3 * millisecond, {}, ⟨0, 0⟩⟩
        (Packet.data 1 .streamStart 2 [2]).ack).value :=
  (faithful_iff (3 * millisecond) (by decide) (rfl : afterTwoStarts = _) sound_twoStarts
    (by decide +kernel) rfl).mpr
      (.inl ⟨.data 1 .streamStart 2 [2], by decide +kernel, rfl, rfl⟩)

/-- The answer to the first start releases the second one. -/
theorem not_faithful_of_leftover :
    ¬∀ (config : Config) (clock : Clock) (key : Key) (generation start : Nat)
        (ops : List (Nat × Op)) (done : Logged Effect Channel) (a : Packet) (now : Nat),
      key.channel ≤ Packet.maxChannel →
      done = run config clock ops (create key generation config start) →
      (∀ step ∈ ops, step.2.Sound key) → (Op.packet a).Sound key → a.header.kind = .ack →
      Faithful done.value a (done.value.onPacket ⟨now, config, clock⟩ a).value := by
  intro faithful
  have wellFormed : (Packet.data 1 .streamStart 0 [1]).WellFormed :=
    Packet.wellFormed_data (by decide) (by decide)
  have leftover := faithful {} ⟨0, 0⟩ ⟨⟨.v4 1, 1⟩, 1⟩ 1 0 twoStarts afterTwoStarts
    (Packet.data 1 .streamStart 0 [1]).ack (3 * millisecond) (by decide) rfl sound_twoStarts
    ⟨wellFormed.ack, rfl⟩ rfl
  obtain ⟨p, parsed, echoes⟩ := leftover.released
    (.streamStart, (Packet.data 1 .streamStart 2 [2]).encode) (by decide +kernel)
    (by decide +kernel)
  rw [Packet.parse_encode (Packet.wellFormed_data (by decide) (by decide))] at parsed
  obtain rfl := Except.ok.inj parsed
  exact absurd echoes.2 (by decide)

end Leftover

end ReliableDatagram.Channel
