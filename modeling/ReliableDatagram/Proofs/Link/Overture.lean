import ReliableDatagram.Proofs.Link.Settling

/-!
# The overture of a restarted end

After one end's table was restarted, the other end may still be in an old stream from there. Until
it hears the start of a new one, and unless it is heard first itself, nothing but that stream start
can be in the air, and then both directions settle.
-/

namespace ReliableDatagram

open Link Channel PacketId

variable {v : Conversation} {x : End}
variable {ctx : Context} {op : Channel.Op} {c c' : Channel} {log : List Effect}
variable {ws : List ParkedWrite} {p : Packet} {rest : List Packet}

/-- The end `x` has started over, and the other end is still in an old stream from there. -/
structure Overture (v : Conversation) (x : End) : Prop where
  expected : (v.receiver x.other).expected ≠ .streamStart
  idle : (v.receiver x.other).pendingReset.isSome = false
  calm : back (v.air x.other) = []
  awaits : Awaits False v x.other
  begins : Begins (v.sender x) (forth (v.air x))
  alone : (v.sender x).nextId ≠ .streamStart →
    forth (v.air x) ≠ [] ∧ forth (v.air x.other) = [] ∧ back (v.air x) = []

namespace Overture

variable (overture : Overture v x)
include overture

/-- The end `x` has no stream from the other end. -/
theorem expected_self : (v.receiver x).expected = .streamStart := by
  have expected := overture.awaits.expected
  rwa [End.other_other] at expected

theorem blank_of_quiet (quiet : v.air x = []) : Blank (v.sender x) := by
  have begins := overture.begins
  have alone := overture.alone
  rw [quiet, forth_nil] at begins alone
  cases begins with
  | blank blank => exact blank
  | opening opening => exact absurd rfl (alone opening.nextId).1

section Peer

variable (first : v.air x = p :: rest) (stands : v.Stands x.other c) (sound : c.Sound)
variable (known : (Channel.Op.packet p).Sound c.key) (exact : c.onPacket ctx p = ⟨c', log⟩)
include first stands sound known exact

/-- The start of the new stream aligns the other end, which starts over as well if it leaves an old
stream for it. -/
theorem hear_start (opening : Opening p (v.sender x)) (copies : ∀ q ∈ forth rest, q = p) :
    Aligned p.header.timestamp (v.hear x c' (packets log)) x ∧
      Awaits True (v.hear x c' (packets log)) x.other := by
  have kind := opening.kind
  obtain ⟨_, silent, quiet⟩ := overture.alone opening.nextId
  have started : c.receiver.expected ≠ .streamStart := by
    rw [stands.receiver]
    exact overture.expected
  have place := Receiver.place_streamStart c.receiver ctx.config.receiveWindow p.header.timestamp
  rw [if_neg started, ← opening.id] at place
  by_cases same : c.receiver.startedAt = some p.header.timestamp
  · rw [if_pos same] at place
    obtain ⟨receiver, sent⟩ := onPacket_repeatedStart kind known place
    rw [exact] at receiver sent
    have receiver : c'.receiver = c.receiver := receiver
    have sent : packets log = [p.ack] := sent
    constructor
    · refine aligned_hear first opening ?_ copies overture.calm ?_
      · rw [receiver]
        refine ⟨started, same, ?_⟩
        rw [stands.receiver]
        exact overture.idle
      · rw [sent]
        intro q mem
        rcases List.mem_singleton.mp mem with rfl
        nofun
    · have stays : Stays (.packet p) (v.receiver x.other) := by
        intro q asked _ _
        obtain rfl := Channel.Op.packet.inj asked
        rw [← stands.receiver]
        exact .inr same
      have next := overture.awaits.attend (by rwa [End.other_other]) stands stays sound known exact
      rw [End.other_other] at next
      exact next.mono False.elim
  · rw [if_neg same] at place
    have receiver := (onPacket_restart kind place).1
    obtain ⟨sent, answer, proceeds, data⟩ := onPacket_restart_sender sound known kind place
    rw [exact] at receiver answer proceeds
    have receiver : c'.receiver = _ := receiver
    have answer : packets log = sent ++ [p.ack] := answer
    constructor
    · refine aligned_hear first opening ?_ copies overture.calm ?_
      · rw [receiver]
        exact joined_start _ p
      · rw [answer]
        intro q mem
        rcases List.mem_append.mp mem with new | last
        · rw [data q new]
          nofun
        · rcases List.mem_singleton.mp last with rfl
          nofun
    · rw [first] at quiet
      have quiet := (of_back_nil quiet).2
      have begins := proceeds.begins (blank_startOver _) data
      have acks : forth [p.ack] = [] := rfl
      constructor
      · simpa using overture.expected_self
      · rw [End.other_other, Conversation.sender_hear_other, Conversation.receiver_hear_self,
          Conversation.air_hear_other, Conversation.air_hear_self, forth_append, silent, answer,
          forth_append, forth_of_data data, first, List.tail_cons, quiet, acks, List.append_nil]
        exact .starting begins fun _ => trivial

/-- What the other end hears leaves everything as it is or aligns it. -/
theorem hear_peer : Overture (v.hear x c' (packets log)) x ∧ payloads log = [] ∨
    (∃ t, Aligned t (v.hear x c' (packets log)) x) ∧
      Awaits True (v.hear x c' (packets log)) x.other := by
  have begins := overture.begins
  rw [first] at begins
  by_cases about : p.header.kind = .data ∨ p.header.kind = .ackReset
  · rw [forth_cons about] at begins
    generalize all : p :: forth rest = heard at begins
    cases begins with
    | blank => cases all
    | opening opening only =>
      subst all
      obtain rfl := only p List.mem_cons_self
      obtain ⟨aligned, awaits⟩ := overture.hear_start first stands sound known exact opening
        fun q mem => only q (List.mem_cons_of_mem _ mem)
      exact .inr ⟨⟨_, aligned⟩, awaits⟩
  · rw [forth_cons_of_not about] at begins
    obtain ⟨same, sent, silent⟩ := onPacket_overheard exact sound known about
    have stays (r : Receiver) : Stays (.packet p) r := by
      intro q asked kind
      obtain rfl := Channel.Op.packet.inj asked
      exact absurd (.inl kind) about
    have next := overture.awaits.attend (by rwa [End.other_other]) stands (stays _) sound known
      exact
    rw [End.other_other] at next
    refine .inl ⟨⟨?_, ?_, ?_, next, ?_, fun begun => ?_⟩, silent⟩
    · simpa [same, stands.receiver] using overture.expected
    · simpa [same, stands.receiver] using overture.idle
    · simp [sent, overture.calm]
    · simpa [first] using begins
    · rw [Conversation.sender_hear_self] at begun
      obtain ⟨heard, silent, quiet⟩ := overture.alone begun
      rw [first, forth_cons_of_not about] at heard
      rw [first] at quiet
      obtain ⟨other, quiet⟩ := of_back_nil quiet
      have nothing := (onPacket_overlooked exact sound known (stays _) other).2
      refine ⟨?_, ?_, ?_⟩
      · simpa [first] using heard
      · simp [silent, nothing]
      · simpa [first] using quiet

end Peer

/-- What the end `x` hears leaves everything as it is, unless it delivers something. -/
theorem hear_self (first : v.air x.other = p :: rest) (stands : v.Stands x c) (sound : c.Sound)
    (known : (Channel.Op.packet p).Sound c.key) (exact : c.onPacket ctx p = ⟨c', log⟩) :
    Overture (v.hear x.other c' (packets log)) x ∧ payloads log = [] ∨ payloads log ≠ [] := by
  have stands' : v.Stands x.other.other c := by rwa [End.other_other]
  rcases overture.awaits.receive first stands' sound known exact with ⟨next, silent⟩ | ⟨_, delivers⟩
  · have calm := overture.calm
    rw [first] at calm
    obtain ⟨other, calm⟩ := of_back_nil calm
    have stays : Stays (.packet p) c.receiver := by
      intro q _ _ _
      rw [stands.receiver]
      exact .inl overture.expected_self
    obtain ⟨same, nothing⟩ := onPacket_overlooked exact sound known stays other
    refine .inl ⟨⟨?_, ?_, ?_, next, ?_, fun begun => ?_⟩, silent⟩
    · simpa using overture.expected
    · simpa using overture.idle
    · simpa [first] using calm
    · simpa [same, nothing] using overture.begins.of_same stands.nextId stands.contents
    · rw [Conversation.sender_hear_back, same, stands.nextId] at begun
      obtain ⟨heard, silent, quiet⟩ := overture.alone begun
      rw [first] at silent
      obtain ⟨about, silent⟩ := of_forth_nil silent
      have unsaid := (onPacket_overheard exact sound known about).2.1
      refine ⟨?_, ?_, ?_⟩
      · simpa [nothing] using heard
      · simpa [first] using silent
      · simp [quiet, unsaid]
  · exact .inr delivers

section Own

variable (quiet : ∀ e, v.air e = []) (own : ∀ q, op ≠ .packet q)
variable (sound : c.Sound) (known : op.Sound c.key) (moves : Moves ctx op c log ws c')
variable (exact : c.apply ctx op = ⟨c', log⟩)
include overture quiet own sound known moves exact

theorem act_self (stands : v.Stands x c) :
    Overture (v.turn x (some c') (packets log)) x ∧ payloads log = [] := by
  have unasked := moves.unasked own sound known
  have stands' : v.Stands x.other.other c := by rwa [End.other_other]
  obtain ⟨next, silent⟩ := overture.awaits.insist quiet own sound known moves stands' exact
  rw [End.other_other] at next
  have blank := (overture.blank_of_quiet (quiet x)).of_same stands.nextId stands.contents
  have proceeds := (moves.proceeds own sound known (.blank blank)).forth
  have unsaid : back (packets log) = [] := by
    rcases back_unasked exact unasked sound with unsaid | ⟨open', _⟩
    · exact unsaid
    · have handshake := overture.awaits.handshake
      rw [quiet, quiet, End.other_other, ← stands.receiver] at handshake
      exact ((handshake.quiet rfl).2 open').elim
  refine ⟨⟨?_, ?_, ?_, next, ?_, fun begun => ?_⟩, silent⟩
  · simpa using overture.expected
  · simpa using overture.idle
  · simp [quiet]
  · simpa [quiet] using proceeds.begins blank unasked.forth
  · rw [Conversation.sender_turn_self] at begun
    refine ⟨?_, ?_, ?_⟩
    · simpa [quiet] using proceeds.ne_nil blank begun
    · simp [quiet]
    · simpa [quiet] using unsaid

theorem act_peer (stands : v.Stands x.other c) :
    Overture (v.turn x.other (some c') (packets log)) x ∧ payloads log = [] := by
  have unasked := moves.unasked own sound known
  have next := overture.awaits.speak quiet own sound known moves stands
  have unsaid : back (packets log) = [] := by
    rcases back_unasked exact unasked sound with unsaid | ⟨open', _⟩
    · exact unsaid
    · rw [stands.receiver, overture.idle] at open'
      cases open'
  refine ⟨⟨?_, ?_, ?_, next, ?_, fun begun => ?_⟩, unasked.silent⟩
  · simpa [unasked.expected, stands.receiver] using overture.expected
  · rw [Conversation.receiver_turn_self, unasked.pending, stands.receiver]
    exact overture.idle
  · simpa [quiet] using unsaid
  · simpa using overture.begins
  · rw [Conversation.sender_turn_back] at begun
    exact absurd (overture.blank_of_quiet (quiet x)).nextId begun

end Own

theorem miss_self (first : v.air x.other = p :: rest) (missing : v.channel? x = none)
    (closed : p.header.kind.opensChannel = false) : Overture (v.land x.other) x := by
  have next := overture.awaits.miss_receive first (by rwa [End.other_other]) closed
  have calm := overture.calm
  rw [first] at calm
  refine ⟨overture.expected, overture.idle, ?_, next, ?_, fun begun => ?_⟩
  · simpa [first] using (of_back_nil calm).2
  · simpa using overture.begins
  · obtain ⟨heard, silent, quiet⟩ := overture.alone begun
    rw [first] at silent
    refine ⟨?_, ?_, ?_⟩
    · simpa using heard
    · simpa [first] using (of_forth_nil silent).2
    · simpa using quiet

end Overture

end ReliableDatagram
