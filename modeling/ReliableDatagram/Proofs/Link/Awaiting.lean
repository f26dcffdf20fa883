import ReliableDatagram.Proofs.Channel.Handshake
import ReliableDatagram.Proofs.Link.Alignment
import ReliableDatagram.Proofs.Link.Calm

/-!
# Awaiting a stream

One direction of a conversation awaits a stream when its receiver has none and the handshake is
somewhere on its way to the stream start. In a calm run that can only end with an alignment, and
nothing is delivered before.
-/

namespace ReliableDatagram

open Link Channel PacketId

variable {v : Conversation} {e : End} {lost : Prop}
variable {ctx : Context} {op : Channel.Op} {c c' : Channel} {log : List Effect}
variable {ws : List ParkedWrite} {p : Packet} {rest : List Packet}

namespace Conversation

/-- The channel at the other end has heard the oldest packet from the end `e`. -/
def hear (v : Conversation) (e : End) (c : Channel) (sent : List Packet) : Conversation :=
  (v.land e).turn e.other (some c) sent

section Hear

variable (v : Conversation) (e : End) (c : Channel) (sent : List Packet)

@[simp] theorem sender_hear_self : (v.hear e c sent).sender e = v.sender e := by simp [hear]

@[simp] theorem sender_hear_other : (v.hear e c sent).sender e.other = c.sender := by simp [hear]

@[simp] theorem receiver_hear_self : (v.hear e c sent).receiver e = v.receiver e := by simp [hear]

@[simp] theorem receiver_hear_other : (v.hear e c sent).receiver e.other = c.receiver := by
  simp [hear]

@[simp] theorem air_hear_self : (v.hear e c sent).air e = (v.air e).tail := by simp [hear]

@[simp] theorem air_hear_other : (v.hear e c sent).air e.other = v.air e.other ++ sent := by
  simp [hear]

@[simp] theorem sender_hear_back : (v.hear e.other c sent).sender e = c.sender := by simp [hear]

@[simp] theorem air_hear_back : (v.hear e.other c sent).air e = v.air e ++ sent := by simp [hear]

end Hear

end Conversation

/-- The receiver has joined the stream whose start the sender waits for, and nothing else is in the
air but copies of this start. -/
theorem aligned_hear (first : v.air e = p :: rest) (opening : Opening p (v.sender e))
    (joined : Joined p.header.timestamp c'.receiver) (copies : ∀ q ∈ forth rest, q = p)
    (quiet : back (v.air e.other) = []) (calm : ∀ q ∈ packets log, q.header.kind ≠ .reset) :
    Aligned p.header.timestamp (v.hear e c' (packets log)) e := by
  constructor
  · simpa using opening.goesOn
  · simpa using joined
  · intro q mem data _
    rw [Conversation.air_hear_self, first] at mem
    rw [copies q (mem_forth.mpr ⟨mem, .inl data⟩)]
  · intro q mem reset
    rw [Conversation.air_hear_other] at mem
    rcases List.mem_append.mp mem with old | new
    · have there : q ∈ back (v.air e.other) := mem_back.mpr ⟨old, .inr reset⟩
      rw [quiet] at there
      cases there
    · exact calm q new reset

/-- The receiver has no stream yet, and the handshake is under way. -/
structure Awaits (lost : Prop) (v : Conversation) (e : End) : Prop where
  expected : (v.receiver e.other).expected = .streamStart
  handshake : Handshake lost (v.sender e) (v.receiver e.other).pendingReset.isSome
    (forth (v.air e)) (back (v.air e.other))

namespace Awaits

theorem mono {lost' : Prop} (awaits : Awaits lost v e) (weaker : lost → lost') :
    Awaits lost' v e := ⟨awaits.expected, awaits.handshake.mono weaker⟩

theorem keeping (awaits : Awaits lost v e) : Keeping v e.other :=
  fun _ _ _ _ _ _ => .inl awaits.expected

section Receive

variable (awaits : Awaits lost v e) (first : v.air e = p :: rest) (stands : v.Stands e.other c)
include awaits first stands

/-- A packet that is not about the stream changes nothing. -/
theorem overhear (other : ¬(p.header.kind = .data ∨ p.header.kind = .ackReset))
    (same : c'.receiver = c.receiver) (silent : back (packets log) = []) :
    Awaits lost (v.hear e c' (packets log)) e := by
  have handshake := awaits.handshake
  rw [first, forth_cons_of_not other] at handshake
  constructor
  · simpa [same, stands.receiver] using awaits.expected
  · simpa [same, silent, stands.receiver, first] using handshake

theorem hear_later (sound : c.Sound) (exact : c.onPacket ctx p = ⟨c', log⟩) (later : Later p) :
    Awaits lost (v.hear e c' (packets log)) e ∧ payloads log = [] := by
  have expected := awaits.expected
  have handshake := awaits.handshake
  rw [first, forth_cons (.inl later.1)] at handshake
  rw [← stands.receiver] at expected handshake
  have place : c.placeOf ctx p = .unplaced := by
    rw [placeOf, Receiver.place_of_ne later.2, if_pos expected]
  have outcome := onPacket_unplaced later.1 sound place
  rw [exact] at outcome
  obtain ⟨same, open', silent, sent⟩ := outcome
  have next := handshake.hear_later later (q := .reset c.key.channel ctx.timestamp) rfl
  refine ⟨⟨?_, ?_⟩, silent⟩
  · simpa using same.trans expected
  · rw [Conversation.sender_hear_self, Conversation.receiver_hear_other,
      Conversation.air_hear_self, Conversation.air_hear_other, back_append, first, sent, open']
    have asks : back (if c.receiver.pendingReset.isSome then []
        else [Packet.reset c.key.channel ctx.timestamp]) =
          if c.receiver.pendingReset.isSome then []
          else [Packet.reset c.key.channel ctx.timestamp] := by
      split <;> rfl
    rw [asks]
    exact next

/-- The stream start aligns both ends. -/
theorem hear_start (known : (Channel.Op.packet p).Sound c.key)
    (exact : c.onPacket ctx p = ⟨c', log⟩) (kind : p.header.kind = .data)
    (id : p.header.id = .streamStart) :
    Aligned p.header.timestamp (v.hear e c' (packets log)) e ∧ payloads log ≠ [] := by
  have expected := awaits.expected
  have handshake := awaits.handshake
  rw [first, forth_cons (.inl kind)] at handshake
  rw [← stands.receiver] at expected handshake
  obtain ⟨opening, copies, quiet⟩ := handshake.hear_start kind id
  have place : c.placeOf ctx p = .start := by
    rw [placeOf, id, Receiver.place_streamStart, if_pos expected]
  have outcome := onPacket_start kind place
  have sent := packets_onPacket_start kind known place
  rw [exact] at outcome sent
  obtain ⟨receiver, delivers⟩ := outcome
  have receiver : c'.receiver = _ := receiver
  have delivers : payloads log = _ := delivers
  have sent : packets log = _ := sent
  constructor
  · refine aligned_hear first opening ?_ copies quiet ?_
    · rw [receiver]
      exact joined_start _ p
    · rw [sent]
      intro q mem
      rcases List.mem_singleton.mp mem with rfl
      exact Packet.Kind.noConfusion
  · rw [delivers]
    exact List.cons_ne_nil _ _

theorem hear_answer (exact : c.onPacket ctx p = ⟨c', log⟩) (kind : p.header.kind = .ackReset) :
    Awaits lost (v.hear e c' (packets log)) e ∧ payloads log = [] := by
  have handshake := awaits.handshake
  rw [first, forth_cons (.inr kind)] at handshake
  rw [← stands.receiver] at handshake
  obtain ⟨open', next⟩ := handshake.hear_answer kind
  have outcome := onPacket_ackReset ctx c kind
  rw [exact, if_pos open'] at outcome
  obtain ⟨_, receiver, sent, silent⟩ := outcome
  have receiver : c'.receiver = {} := receiver
  have sent : packets log = [] := sent
  refine ⟨⟨?_, ?_⟩, silent⟩
  · simp [receiver]
  · simpa [sent, receiver, first] using next

/-- Whatever the receiver hears, it goes on waiting and delivers nothing, or it is aligned. -/
theorem receive (sound : c.Sound) (known : (Channel.Op.packet p).Sound c.key)
    (exact : c.onPacket ctx p = ⟨c', log⟩) :
    Awaits lost (v.hear e c' (packets log)) e ∧ payloads log = [] ∨
      (∃ t, Aligned t (v.hear e c' (packets log)) e) ∧ payloads log ≠ [] := by
  by_cases about : p.header.kind = .data ∨ p.header.kind = .ackReset
  · rcases about with kind | kind
    · by_cases id : p.header.id = .streamStart
      · obtain ⟨aligned, delivers⟩ := awaits.hear_start first stands known exact kind id
        exact .inr ⟨⟨_, aligned⟩, delivers⟩
      · exact .inl (awaits.hear_later first stands sound exact ⟨kind, id⟩)
    · exact .inl (awaits.hear_answer first stands exact kind)
  · obtain ⟨same, sent, silent⟩ := onPacket_overheard exact sound known about
    exact .inl ⟨awaits.overhear first stands about same sent, silent⟩

end Receive

section Attend

variable (awaits : Awaits lost v e) (first : v.air e.other = p :: rest) (stands : v.Stands e c)
include awaits first stands

/-- A packet that is not about the stream does not bother the sender. -/
theorem overlook (other : ¬(p.header.kind = .ack ∨ p.header.kind = .reset))
    (same : c'.sender = c.sender) (silent : forth (packets log) = []) :
    Awaits lost (v.hear e.other c' (packets log)) e := by
  have handshake := awaits.handshake
  rw [first, back_cons_of_not other] at handshake
  constructor
  · simpa using awaits.expected
  · simpa [same, silent, first] using handshake.of_same stands.nextId stands.contents

/-- The request to start over is answered. -/
theorem answer (sound : c.Sound) (known : (Channel.Op.packet p).Sound c.key)
    (exact : c.onPacket ctx p = ⟨c', log⟩) (kind : p.header.kind = .reset) :
    Awaits lost (v.hear e.other c' (packets log)) e := by
  have handshake := awaits.handshake.of_same stands.nextId stands.contents
  rw [first, back_cons (.inr kind)] at handshake
  obtain ⟨sent, answer, proceeds, data⟩ := onPacket_reset ctx sound known kind
  rw [exact] at answer proceeds
  have answer : packets log = p.ackReset :: sent := answer
  have next := handshake.answer proceeds (p := p.ackReset) rfl data
  constructor
  · simpa using awaits.expected
  · simpa [answer, forth_cons (p := p.ackReset) (.inr rfl), forth_of_data data, first] using next

/-- Whatever the sender hears, the receiver goes on waiting. -/
theorem attend (stays : Stays (.packet p) (v.receiver e)) (sound : c.Sound)
    (known : (Channel.Op.packet p).Sound c.key) (exact : c.onPacket ctx p = ⟨c', log⟩) :
    Awaits lost (v.hear e.other c' (packets log)) e := by
  by_cases about : p.header.kind = .ack ∨ p.header.kind = .reset
  · have handshake := awaits.handshake
    rw [first, back_cons about] at handshake
    exact awaits.answer first stands sound known exact handshake.reset.1
  · rw [← stands.receiver] at stays
    obtain ⟨same, silent⟩ := onPacket_overlooked exact sound known stays about
    exact awaits.overlook first stands about same silent

end Attend

section Own

variable (awaits : Awaits lost v e) (quiet : ∀ x, v.air x = []) (own : ∀ q, op ≠ .packet q)
variable (sound : c.Sound) (known : op.Sound c.key) (moves : Moves ctx op c log ws c')
include awaits quiet own sound known moves

theorem speak (stands : v.Stands e c) : Awaits lost (v.turn e (some c') (packets log)) e := by
  have handshake := awaits.handshake.of_same stands.nextId stands.contents
  rw [quiet e, quiet e.other] at handshake
  have steady : Steady c.sender := by
    rcases (handshake.quiet rfl).1 with begins | running
    · exact begins.steady
    · exact .running running
  have proceeds := moves.proceeds own sound known steady
  have unasked := moves.unasked own sound known
  have next := handshake.own proceeds.forth unasked.forth
  constructor
  · simpa using awaits.expected
  · simpa [quiet] using next

theorem insist (stands : v.Stands e.other c) (exact : c.apply ctx op = ⟨c', log⟩) :
    Awaits lost (v.turn e.other (some c') (packets log)) e ∧ payloads log = [] := by
  have unasked := moves.unasked own sound known
  have handshake := awaits.handshake
  have expected := awaits.expected
  rw [quiet e, quiet e.other, ← stands.receiver] at handshake
  rw [← stands.receiver] at expected
  refine ⟨⟨?_, ?_⟩, unasked.silent⟩
  · simpa using unasked.expected.trans expected
  · rw [Conversation.sender_turn_back, Conversation.receiver_turn_self,
      Conversation.turn_air_back, Conversation.turn_air_self, quiet e, quiet e.other,
      List.nil_append, unasked.pending]
    rcases back_unasked exact unasked sound with silent | ⟨open', q, asks, kind⟩
    · rw [silent]
      exact handshake
    · rw [asks]
      exact handshake.ask open' kind

end Own

section Miss

variable (awaits : Awaits lost v e)
include awaits

/-- A packet is lost on an end without a channel. -/
theorem miss_receive (first : v.air e = p :: rest) (missing : v.channel? e.other = none)
    (closed : p.header.kind.opensChannel = false) : Awaits lost (v.land e) e := by
  have handshake := awaits.handshake
  have receiver : v.receiver e.other = {} := by simp only [Conversation.receiver, missing]
  rw [first] at handshake
  have other : ¬(p.header.kind = .data ∨ p.header.kind = .ackReset) := by
    rintro (kind | kind)
    · rw [kind] at closed
      cases closed
    · rw [forth_cons (.inr kind), receiver] at handshake
      cases (handshake.hear_answer kind).1
  rw [forth_cons_of_not other] at handshake
  exact ⟨awaits.expected, by simpa [first] using handshake⟩

theorem miss_attend (first : v.air e.other = p :: rest) (missing : v.channel? e = none) :
    Awaits lost (v.land e.other) e := by
  have handshake := awaits.handshake
  have sender : v.sender e = { unacked := { limit := 0 } } := by
    simp only [Conversation.sender, missing]
  have blank : Blank (v.sender e) := by
    rw [sender]
    exact ⟨rfl, rfl⟩
  rw [first] at handshake
  refine ⟨awaits.expected, ?_⟩
  rw [Conversation.sender_land, Conversation.receiver_land, Conversation.air_land_back,
    Conversation.air_land_self, first]
  by_cases about : p.header.kind = .ack ∨ p.header.kind = .reset
  · rw [back_cons about] at handshake
    exact handshake.miss blank
  · rw [back_cons_of_not about] at handshake
    exact handshake

end Miss

end Awaits

end ReliableDatagram
