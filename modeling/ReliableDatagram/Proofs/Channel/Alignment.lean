import ReliableDatagram.Proofs.Channel.Opening

/-!
# Agreement on a stream

A sender goes on with a stream that started at some time, and the receiver at the other end has
joined it. As long as neither of them hears of another stream, both stay as they are, and no reset
happens.
-/

namespace ReliableDatagram.Channel

open PacketId

variable {t : UInt32} {r : Receiver} {s : Sender} {p : Packet}
variable {ctx : Context} {op : Op} {c c' : Channel} {log : List Effect} {ws : List ParkedWrite}

/-- The receiver is in the stream whose start has this timestamp. -/
structure Joined (t : UInt32) (r : Receiver) : Prop where
  expected : r.expected ≠ .streamStart
  startedAt : r.startedAt = some t
  idle : r.pendingReset.isSome = false

/-- A stream start can only be that of the stream with this timestamp. -/
def StartsAt (t : UInt32) (p : Packet) : Prop :=
  p.header.kind = .data → p.header.id = .streamStart → p.header.timestamp = t

/-- The sender has begun the stream whose start has this timestamp. -/
structure GoesOn (t : UInt32) (s : Sender) : Prop where
  nextId : s.nextId ≠ .streamStart
  unacked : ∀ id p, Packet.WellFormed p → (id, p.encode) ∈ s.unacked.contents → StartsAt t p

/-- What is heard does not make the receiver leave its stream. -/
def Stays (op : Op) (r : Receiver) : Prop :=
  ∀ p, op = .packet p → p.header.kind = .data → p.header.id = .streamStart →
    r.expected = .streamStart ∨ r.startedAt = some p.header.timestamp

theorem joined_start (r : Receiver) (p : Packet) :
    Joined p.header.timestamp ((r.start p.header.timestamp).accept p.header.id p.payload).2 :=
  ⟨expected_accept_ne _ _ _, rfl, rfl⟩

theorem Opening.goesOn (opening : Opening p s) : GoesOn p.header.timestamp s := by
  refine ⟨opening.nextId, fun id q wellFormed held _ _ => ?_⟩
  rw [opening.unacked] at held
  have same := (Prod.mk.inj (List.mem_singleton.mp held)).2
  rw [Packet.encode_inj wellFormed opening.wellFormed same]

theorem Joined.place (joined : Joined t c.receiver) (ctx : Context) (starts : StartsAt t p)
    (kind : p.header.kind = .data) :
    c.placeOf ctx p ≠ .start ∧ c.placeOf ctx p ≠ .restart ∧ c.placeOf ctx p ≠ .unplaced := by
  refine ⟨fun place => ?_, fun place => ?_, fun place => ?_⟩
  · exact joined.expected (Receiver.place_eq_start place).2
  · obtain ⟨id, _, other⟩ := Receiver.place_eq_restart place
    rw [starts kind id] at other
    exact other joined.startedAt
  · exact joined.expected (Receiver.place_eq_unplaced place).2

theorem Inward.joined (inward : Inward ctx op c log c') (joined : Joined t c.receiver)
    (heard : ∀ q, op = .packet q → StartsAt t q) : Joined t c'.receiver := by
  cases inward with
  | rest expected startedAt early pending =>
    refine ⟨?_, startedAt.trans joined.startedAt, pending.trans joined.idle⟩
    rw [expected]
    exact joined.expected
  | accept asked kind place receiver =>
    rw [receiver]
    exact ⟨expected_accept_ne _ _ _, joined.startedAt, joined.idle⟩
  | acceptStart asked kind place => exact absurd place (joined.place ctx (heard _ asked) kind).1
  | restart asked kind place => exact absurd place (joined.place ctx (heard _ asked) kind).2.1
  | confirm asked kind place receiver =>
    rw [receiver]
    exact joined
  | keep asked kind place receiver =>
    rw [receiver]
    exact ⟨joined.expected, joined.startedAt, joined.idle⟩
  | requestReset asked kind place =>
    exact absurd place (joined.place ctx (heard _ asked) kind).2.2
  | resetAnswered asked kind pending =>
    rw [joined.idle] at pending
    cases pending

/-- A receiver in a stream has no reason to ask for a reset. -/
theorem Joined.asks_nothing (joined : Joined t c.receiver)
    (heard : ∀ q, op = .packet q → StartsAt t q) (move : Move ctx op c log ws c') (sound : c.Sound)
    (known : op.Sound c.key) : ∀ q ∈ packets log, q.header.kind ≠ .reset := by
  intro q sent kind
  have cause := move.handshakes sound known sent
  rw [kind] at cause
  rcases cause with ⟨_, pending⟩ | ⟨x, asked, data, place⟩
  · rw [joined.idle] at pending
    cases pending
  · exact (joined.place ctx (heard x asked) data).2.2 place

/-- Unless the peer asks for it, nothing resets a channel whose receiver stays in its stream. -/
theorem Joined.undisturbed (joined : Joined t c.receiver)
    (heard : ∀ q, op = .packet q → StartsAt t q)
    (calm : ∀ q, op = .packet q → q.header.kind ≠ .reset)
    (move : Move ctx op c log ws c') : ∀ y ∈ log, y.isReset = false := by
  intro y logged
  cases reset : y.isReset with
  | false => rfl
  | true =>
    obtain ⟨q, asked, cause⟩ := move.reset_cause logged reset
    rcases cause with kind | ⟨_, pending⟩ | ⟨kind, place⟩
    · exact absurd kind (calm q asked)
    · rw [joined.idle] at pending
      cases pending
    · rcases place with place | place
      · exact absurd place (joined.place ctx (heard q asked) kind).2.1
      · exact absurd place (joined.place ctx (heard q asked) kind).2.2

theorem Moves.joined (moves : Moves ctx op c log ws c') (sound : c.Sound) (known : op.Sound c.key)
    (joined : Joined t c.receiver) (heard : ∀ q, op = .packet q → StartsAt t q) :
    Joined t c'.receiver ∧ ∀ q ∈ packets log, q.header.kind ≠ .reset := by
  induction moves with
  | none => exact ⟨joined, nofun⟩
  | snoc before last ih =>
    obtain ⟨joined', silent⟩ := ih
    have sound' := before.sound sound known
    have known' := known
    rw [← before.key] at known'
    refine ⟨(last.inward sound' known').joined joined' heard, fun q sent => ?_⟩
    rw [packets_append] at sent
    rcases List.mem_append.mp sent with old | new
    · exact silent q old
    · exact joined'.asks_nothing heard last sound' known' q new

theorem Moves.undisturbed (moves : Moves ctx op c log ws c') (sound : c.Sound)
    (known : op.Sound c.key) (joined : Joined t c.receiver)
    (heard : ∀ q, op = .packet q → StartsAt t q)
    (calm : ∀ q, op = .packet q → q.header.kind ≠ .reset) : ∀ y ∈ log, y.isReset = false := by
  induction moves with
  | none => nofun
  | snoc before last ih =>
    intro y logged
    rcases List.mem_append.mp logged with old | new
    · exact ih y old
    · exact (before.joined sound known joined heard).1.undisturbed heard calm last y new

theorem Stays.place (stays : Stays (.packet p) c.receiver) (ctx : Context)
    (kind : p.header.kind = .data) : c.placeOf ctx p ≠ .restart := by
  intro place
  obtain ⟨id, started, other⟩ := Receiver.place_eq_restart place
  rcases stays p rfl kind id with waiting | same
  · exact started waiting
  · exact other same

theorem Inward.stays (inward : Inward ctx op c log c') (stays : Stays op c.receiver) :
    Stays op c'.receiver := by
  intro q asked kind id
  cases inward with
  | rest expected startedAt =>
    rw [expected, startedAt]
    exact stays q asked kind id
  | @accept x heard data place =>
    obtain rfl : x = q := Op.packet.inj (heard.symm.trans asked)
    rw [placeOf, id, Receiver.place_streamStart] at place
    repeat' split at place
    all_goals cases place
  | @acceptStart x heard data place receiver =>
    obtain rfl : x = q := Op.packet.inj (heard.symm.trans asked)
    rw [receiver]
    exact .inr rfl
  | restart heard data place receiver =>
    rw [receiver]
    exact .inl rfl
  | confirm heard data place receiver =>
    rw [receiver]
    exact stays q asked kind id
  | keep heard data place receiver =>
    rw [receiver]
    exact stays q asked kind id
  | requestReset heard data place expected =>
    rw [expected]
    exact .inl (Receiver.place_eq_unplaced place).2
  | resetAnswered heard data pending receiver =>
    rw [receiver]
    exact .inl rfl

theorem GoesOn.of_same (goesOn : GoesOn t s) {s' : Sender} (nextId : s'.nextId = s.nextId)
    (contents : ∀ x ∈ s'.unacked.contents, x ∈ s.unacked.contents) : GoesOn t s' := by
  refine ⟨?_, fun id p wellFormed held => goesOn.unacked id p wellFormed (contents _ held)⟩
  rw [nextId]
  exact goesOn.nextId

theorem Outward.goesOn (outward : Outward ctx op c log c' ws) (goesOn : GoesOn t c.sender)
    (calm : ∀ q, op = .packet q → q.header.kind ≠ .reset) (stays : Stays op c.receiver) :
    GoesOn t c'.sender ∧ ∀ q ∈ packets log, StartsAt t q := by
  cases outward with
  | rest nextId contents parked first again =>
    refine ⟨goesOn.of_same nextId (by simp [contents]), fun q sent kind => ?_⟩
    obtain ⟨id, held⟩ := again q sent kind
    exact goesOn.unacked id q (wellFormed_of_mem_packets sent) held kind
  | park nextId contents parked silent =>
    subst silent
    exact ⟨goesOn.of_same nextId (by simp [contents]), nofun⟩
  | settle asked kind nextId contents parked silent =>
    subst silent
    refine ⟨goesOn.of_same nextId fun x held => ?_, nofun⟩
    rw [contents] at held
    exact List.mem_of_mem_eraseP held
  | @startOver x asked cause =>
    subst asked
    rcases cause with kind | ⟨kind, place⟩
    · exact absurd kind (calm x rfl)
    · exact absurd place (stays.place ctx kind)
  | @send w x first room packet wellFormed nextId contents sent new =>
    have id : x.header.id ≠ .streamStart := by
      rw [packet]
      exact goesOn.nextId
    constructor
    · refine ⟨?_, fun i q wellFormed' held kind => ?_⟩
      · rw [nextId]
        exact next_ne_streamStart _
      · rw [contents] at held
        rcases List.mem_append.mp held with old | latest
        · exact goesOn.unacked i q wellFormed' old kind
        · have bytes := (Prod.mk.inj (List.mem_singleton.mp latest)).2
          rw [Packet.encode_inj wellFormed' wellFormed bytes]
          exact fun start => absurd start id
    · intro q mem _ start
      rw [sent] at mem
      rcases List.mem_singleton.mp mem with rfl
      exact absurd start id

theorem Moves.goesOn (moves : Moves ctx op c log ws c') (sound : c.Sound) (known : op.Sound c.key)
    (goesOn : GoesOn t c.sender) (calm : ∀ q, op = .packet q → q.header.kind ≠ .reset)
    (stays : Stays op c.receiver) :
    GoesOn t c'.sender ∧ ∀ q ∈ packets log, StartsAt t q := by
  have both : (GoesOn t c'.sender ∧ ∀ q ∈ packets log, StartsAt t q) ∧ Stays op c'.receiver := by
    induction moves with
    | none => exact ⟨⟨goesOn, nofun⟩, stays⟩
    | snoc before last ih =>
      obtain ⟨⟨goesOn', starts⟩, stays'⟩ := ih
      have sound' := before.sound sound known
      have known' := known
      rw [← before.key] at known'
      obtain ⟨goesOn'', starts'⟩ := (last.outward sound' known').goesOn goesOn' calm stays'
      refine ⟨⟨goesOn'', fun q sent => ?_⟩, (last.inward sound' known').stays stays'⟩
      rw [packets_append] at sent
      rcases List.mem_append.mp sent with old | new
      · exact starts q old
      · exact starts' q new
  exact both.1

end ReliableDatagram.Channel
