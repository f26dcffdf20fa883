import ReliableDatagram.Proofs.Channel.Acknowledgement

/-!
# Samples of the round trip time

Which packets give a channel a sample, and what its estimator makes of the samples. Pings and answers
are packets of the moment: a ping is stamped when it is sent, and an answer repeats the stamp of the
packet that it answers.
-/

namespace ReliableDatagram

namespace Packet

/-- The first packet is the answer to the second one: it acknowledges data or returns a ping. -/
def Answers (a q : Packet) : Prop :=
  q.header.kind = .data ∧ a = q.ack ∨ q.header.kind = .ping ∧ a = q.ackPing

instance (a q : Packet) : Decidable (a.Answers q) := inferInstanceAs (Decidable (_ ∨ _))

variable {a q : Packet}

theorem Answers.timestamp (answers : a.Answers q) : a.header.timestamp = q.header.timestamp := by
  rcases answers with ⟨_, rfl⟩ | ⟨_, rfl⟩ <;> rfl

theorem Answers.kind (answers : a.Answers q) :
    a.header.kind = .ack ∨ a.header.kind = .ackPing := by
  rcases answers with ⟨_, rfl⟩ | ⟨_, rfl⟩
  · exact .inl rfl
  · exact .inr rfl

theorem Answers.of_ack (answers : a.Answers q) (kind : a.header.kind = .ack) :
    q.header.kind = .data ∧ q.header.id = a.header.id := by
  rcases answers with ⟨data, rfl⟩ | ⟨_, rfl⟩
  · exact ⟨data, rfl⟩
  · cases kind

theorem Answers.of_ackPing (answers : a.Answers q) (kind : a.header.kind = .ackPing) :
    q.header.kind = .ping := by
  rcases answers with ⟨_, rfl⟩ | ⟨ping, _⟩
  · cases kind
  · exact ping

end Packet

namespace Channel

variable {ctx : Context} {op : Op} {c c' : Channel} {log : List Effect} {ws : List ParkedWrite}
variable {p : Packet} {entry : SendQueue.Entry} {unacked : SendQueue} {v : Nat}

/-- The sample that a packet gives, if it gives one. -/
def sample? (c : Channel) (ctx : Context) (p : Packet) : Option Nat :=
  let elapsed := ctx.clock.elapsedSince p.header.timestamp ctx.now
  match p.header.kind with
  | .ack =>
    match c.sender.unacked.remove? p.header.id with
    | some (entry, _) => if entry.attempts = 0 then some elapsed else none
    | none => none
  | .ackPing => some elapsed
  | _ => none

theorem of_sample? (sampled : c.sample? ctx p = some v) :
    v = ctx.clock.elapsedSince p.header.timestamp ctx.now ∧
      (p.header.kind = .ackPing ∨
        p.header.kind = .ack ∧ ∃ entry unacked,
          c.sender.unacked.remove? p.header.id = some (entry, unacked) ∧ entry.attempts = 0) := by
  unfold sample? at sampled
  dsimp only at sampled
  split at sampled
  · next kind =>
    split at sampled
    · next entry unacked found =>
      split at sampled
      · next once => exact ⟨(Option.some.inj sampled).symm, .inr ⟨kind, entry, unacked, found, once⟩⟩
      · cases sampled
    · cases sampled
  · next kind => exact ⟨(Option.some.inj sampled).symm, .inl kind⟩
  · cases sampled

section Estimator

/-- No answer to data or to a ping. -/
def Op.Unanswering (op : Op) : Prop :=
  ∀ p, op = .packet p → p.header.kind ≠ .ack ∧ p.header.kind ≠ .ackPing

theorem Move.rtt (move : Move ctx op c log ws c') (other : op.Unanswering) : c'.rtt = c.rtt := by
  cases move with
  | settle kind => exact absurd kind (other _ rfl).1
  | measure kind => exact absurd kind (other _ rfl).2
  | accept => exact checkConnected_rtt _
  | acceptStart => exact checkConnected_rtt _
  | requestReset _ _ idle => rw [requestReset_idle idle]
  | resendData => exact resendData_rtt _ _
  | resendReset =>
    rcases resendReset_value ctx c (ctx.now + c.retransmitTimeout ctx.config) with
      same | ⟨r, _, _, same⟩ <;> rw [same]
  | tune =>
    obtain ⟨limit, same⟩ := c.tune_eq ctx.config c.meter.last
    rw [same]
  | _ => rfl

theorem Moves.rtt (moves : Moves ctx op c log ws c') (other : op.Unanswering) : c'.rtt = c.rtt := by
  induction moves with
  | none => rfl
  | snoc _ last ih => exact (last.rtt other).trans ih

theorem flush_rtt (ctx : Context) (c : Channel) : (c.flush ctx).value.rtt = c.rtt :=
  (moves_flush c .tick).rtt nofun

theorem onAck_rtt (ctx : Context) (c : Channel) (kind : p.header.kind = .ack) :
    (c.onAck ctx p.header).value.rtt = (c.sample? ctx p).elim c.rtt c.rtt.onSample := by
  unfold onAck
  simp only [sample?, kind]
  split
  · next lost =>
    rw [lost]
    rfl
  · next entry unacked found =>
    rw [flush_rtt, found]
    dsimp only
    split <;> rfl

/-- The estimator of a channel takes the samples that the packets give, and no others. -/
theorem onPacket_rtt (ctx : Context) (c : Channel) (p : Packet) :
    (c.onPacket ctx p).value.rtt = (c.sample? ctx p).elim c.rtt c.rtt.onSample := by
  have part : (c.onPacket ctx p).value.rtt = ((c.heard ctx).dispatch ctx p).value.rtt :=
    checkConnected_rtt _
  cases kind : p.header.kind with
  | ack =>
    rw [part]
    simp only [dispatch, kind]
    exact onAck_rtt ctx (c.heard ctx) kind
  | ackPing =>
    rw [part]
    simp only [dispatch, kind, sample?]
    rfl
  | data | reset | ackReset | ping =>
    have other : (Op.packet p).Unanswering := by
      rintro q same
      obtain rfl := Op.packet.inj same
      rw [kind]
      decide
    rw [(moves_onPacket ctx c p).rtt other]
    simp only [sample?, kind]
    rfl

end Estimator

/-- After an acknowledgement of what is in the send queue, the channel does as if that had not been
there. -/
theorem moves_onPacket_ack (ctx : Context) (kind : p.header.kind = .ack)
    (found : c.sender.unacked.remove? p.header.id = some (entry, unacked)) :
    ∃ d : Channel, d.key = c.key ∧ d.receiver = c.receiver ∧
      d.sender = { c.sender with unacked := unacked } ∧
      Moves ctx (.packet p) d (c.onPacket ctx p).log [] (c.onPacket ctx p).value := by
  have heard : (c.heard ctx).sender.unacked.remove? p.header.id = some (entry, unacked) := found
  let d : Channel := { c.heard ctx with
    counters.acksReceived := c.counters.acksReceived + 1
    sender.unacked := unacked
    rtt := if entry.attempts = 0 then
      c.rtt.onSample (ctx.clock.elapsedSince p.header.timestamp ctx.now) else c.rtt }
  have same : c.onPacket ctx p = d.flush ctx >>= checkConnected := by
    show (c.heard ctx).dispatch ctx p >>= checkConnected = _
    simp only [dispatch, kind, onAck, heard]
    rfl
  rw [same]
  exact ⟨d, rfl, rfl, rfl,
    (moves_flush d _).bind (m := id) (r := id) (moves_checkConnected _ _)⟩

section Provenance

/-- A packet of the moment: an answer is one to the packet that is heard, and a ping is stamped now. -/
structure Genuine (ctx : Context) (op : Op) (q : Packet) : Prop where
  answers : q.header.kind = .ack ∨ q.header.kind = .ackPing → ∃ p, op = .packet p ∧ q.Answers p
  stamp : q.header.kind = .ping → q.header.timestamp = ctx.timestamp

variable {q : Packet}

theorem Genuine.of_inert
    (inert : q.header.kind ≠ .ack ∧ q.header.kind ≠ .ackPing ∧ q.header.kind ≠ .ping) :
    Genuine ctx op q :=
  ⟨fun kind => absurd kind (not_or.mpr ⟨inert.1, inert.2.1⟩), fun kind => absurd kind inert.2.2⟩

theorem Says.genuine (speech : Says c ctx op q) : Genuine ctx op q := by
  cases speech with
  | ackReset => exact .of_inert ⟨nofun, nofun, nofun⟩
  | ackPing kind => exact ⟨fun _ => ⟨_, rfl, .inr ⟨kind, rfl⟩⟩, nofun⟩
  | ping => exact ⟨nofun, fun _ => rfl⟩

theorem genuine_ack (kind : p.header.kind = .data) : Genuine ctx (.packet p) p.ack :=
  ⟨fun _ => ⟨p, rfl, .inl ⟨kind, rfl⟩⟩, nofun⟩

theorem Move.genuine (move : Move ctx op c log ws c') (sound : c.Sound) (asked : op.Sound c.key) :
    ∀ q ∈ packets log, Genuine ctx op q := by
  intro q sent
  have only {r : Packet} (all : packets log = [r]) (genuine : Genuine ctx op r) : Genuine ctx op q := by
    rw [all] at sent
    rwa [List.mem_singleton.mp sent]
  cases move with
  | say speech => exact only (packets_transmit (speech.speaks sound asked).1) speech.genuine
  | send first => exact only (packets_sendWrite sound first) (.of_inert ⟨nofun, nofun, nofun⟩)
  | accept kind => exact only (packets_accept asked.1) (genuine_ack kind)
  | acceptStart kind => exact only (packets_accept asked.1) (genuine_ack kind)
  | confirm kind => exact only (packets_transmit asked.1.ack) (genuine_ack kind)
  | keep kind => exact only (packets_transmit asked.1.ack) (genuine_ack kind)
  | requestReset _ _ idle =>
    have request : packets (c.requestReset ctx).log = [.reset c.key.channel ctx.timestamp] := by
      rw [packets_requestReset sound, idle]
      rfl
    exact only request (.of_inert ⟨nofun, nofun, nofun⟩)
  | resendData =>
    obtain ⟨e, logged, packet⟩ := List.mem_filterMap.mp sent
    obtain ⟨_, _, id, r, _, kind, packet'⟩ := packet_of_mem_resendData sound logged
    obtain rfl : r = q := Option.some.inj (packet'.symm.trans packet)
    exact .of_inert (by rw [kind]; exact ⟨nofun, nofun, nofun⟩)
  | resendReset =>
    obtain ⟨e, logged, packet⟩ := List.mem_filterMap.mp sent
    obtain ⟨_, _, r, kind, packet'⟩ := packet_of_mem_resendReset sound logged
    obtain rfl : r = q := Option.some.inj (packet'.symm.trans packet)
    exact .of_inert (by rw [kind]; exact ⟨nofun, nofun, nofun⟩)
  | measure =>
    rw [packets_eq_nil fun e logged => ?_] at sent
    · cases sent
    · obtain ⟨rtt, rfl⟩ := mem_onAckPing_log logged
      rfl
  | _ => cases sent

theorem Moves.genuine (moves : Moves ctx op c log ws c') (sound : c.Sound)
    (asked : op.Sound c.key) : ∀ q ∈ packets log, Genuine ctx op q := by
  induction moves with
  | none => exact List.forall_mem_nil _
  | snoc before last ih =>
    rw [packets_append]
    exact List.forall_mem_append.mpr
      ⟨ih, last.genuine (before.sound sound asked) (by rwa [before.key])⟩

end Provenance

end Channel

end ReliableDatagram
