import ReliableDatagram.Proofs.Channel.StreamMoves
import ReliableDatagram.Proofs.Clock
import ReliableDatagram.Proofs.Link.Episode

/-!
# The flow in one direction of a conversation

A flow relates the sender at one end, the receiver at the other and the packets in the air between
them to the stream that was sent and the number of packets delivered of it. Acknowledgements in the
air only name packets that the receiver has, and whatever it does not have is unacknowledged. Both
ends' moves carry the flow on, and so does a network that loses packets.
-/

namespace ReliableDatagram

open Link Channel PacketId

variable {n : UInt8} {clock : Clock} {start now : Nat} {v w : Conversation} {e : End}
variable {st : List Packet} {d : Nat}
variable {ctx : Context} {op : Channel.Op} {c c' : Channel} {log : List Effect}
variable {ws : List ParkedWrite}

structure Flow (n : UInt8) (clock : Clock) (start now : Nat) (v : Conversation) (e : End)
    (st : List Packet) (d : Nat) : Prop where
  stream : Stream n st
  stamps : ∀ p ∈ st, ∃ t, start ≤ t ∧ t ≤ now ∧ p.header.timestamp = clock.timestamp t
  inTime : ∀ p ∈ st, ∀ q, st[0]? = some q →
    stampedBefore p.header.timestamp q.header.timestamp = false
  sends : Sends st (v.sender e)
  follows : Follows st d (v.receiver e.other)
  data : ∀ p ∈ v.air e, p.header.kind = .data → p ∈ st
  calm : ∀ p ∈ v.air e, p.header.kind ≠ .reset ∧ p.header.kind ≠ .ackReset
  acks : ∀ p ∈ v.air e.other, p.header.kind = .ack →
    ∃ k q, st[k]? = some q ∧ p.header.id = nth k ∧ Has st d (v.receiver e.other) k
  held : ∀ k p, st[k]? = some p →
    (nth k, p.encode) ∈ (v.sender e).unacked.contents ∨ Has st d (v.receiver e.other) k
  /-- Nothing is sent after a stream start that is not delivered. -/
  waits : 2 ≤ st.length → d ≠ 0

namespace Flow

theorem silent (n : UInt8) (clock : Clock) (start now : Nat) {v : Conversation} {e : End}
    (sender : v.channel? e = none) (receiver : v.channel? e.other = none)
    (air : v.air e = []) (air' : v.air e.other = []) : Flow n clock start now v e [] 0 := by
  have sender : v.sender e = { unacked := { limit := 0 } } := by
    simp only [Conversation.sender, sender]
  have receiver : v.receiver e.other = {} := by simp only [Conversation.receiver, receiver]
  constructor
  · exact .nil n
  · exact fun _ mem => (List.not_mem_nil mem).elim
  · exact fun _ mem => (List.not_mem_nil mem).elim
  · rw [sender]
    exact ⟨rfl, fun _ held => (List.not_mem_nil held).elim⟩
  · rw [receiver]
    exact follows_fresh []
  · rw [air]
    exact fun _ mem => (List.not_mem_nil mem).elim
  · rw [air]
    exact fun _ mem => (List.not_mem_nil mem).elim
  · rw [air']
    exact fun _ mem => (List.not_mem_nil mem).elim
  · exact fun k p found => by cases found
  · exact fun long => absurd long (by decide)

theorem alike (flow : Flow n clock start now w e st d) (alike : v.Alike w) :
    Flow n clock start now v e st d := by
  obtain ⟨stream, stamps, inTime, sends, follows, data, calm, acks, held, waits⟩ := flow
  rw [← alike.receiver] at follows acks held
  rw [← alike.contents] at held
  exact ⟨stream, stamps, inTime, sends.of_same (alike.nextId e) (by simp [alike.contents]), follows,
    fun p mem => data p (alike.air e p mem), fun p mem => calm p (alike.air e p mem),
    fun p mem => acks p (alike.air _ p mem), held, waits⟩

theorem later (flow : Flow n clock start now v e st d) {now' : Nat} (order : now ≤ now') :
    Flow n clock start now' v e st d :=
  { flow with
    stamps := fun p mem => by
      obtain ⟨t, after, before, stamp⟩ := flow.stamps p mem
      exact ⟨t, after, Nat.le_trans before order, stamp⟩ }

/-- What the sender has to say continues the flow. -/
theorem send (flow : Flow n clock start now v e st d) (short : (st ++ launched log).length ≤ horizon)
    (near : now < start + stampRange * millisecond) (order : start ≤ now)
    (had : v.channel? e = some c) (moved : Continues n st ctx op c log ws c')
    (time : ctx.timestamp = clock.timestamp now)
    (heard : ∀ q, op = .packet q → q ∈ v.air e.other)
    (calm : ∀ p ∈ packets log, p.header.kind ≠ .reset ∧ p.header.kind ≠ .ackReset) :
    Flow n clock start now (v.turn e (some c') (packets log)) e (st ++ launched log) d := by
  have sender := Conversation.sender_of_some had
  constructor
  · exact moved.stream
  · intro p mem
    rcases List.mem_append.mp mem with old | new
    · exact flow.stamps p old
    · exact ⟨now, order, Nat.le_refl now, (moved.stamped p new).trans time⟩
  · intro p mem q first
    have early : ∃ t, start ≤ t ∧ t ≤ now ∧ q.header.timestamp = clock.timestamp t := by
      rcases List.mem_append.mp (List.mem_of_getElem? first) with old | new
      · exact flow.stamps q old
      · exact ⟨now, order, Nat.le_refl now, (moved.stamped q new).trans time⟩
    rcases List.mem_append.mp mem with old | new
    · refine flow.inTime p old q ?_
      rwa [List.getElem?_append_left (List.length_pos_of_mem old)] at first
    · obtain ⟨t, after, before, stamp⟩ := early
      rw [moved.stamped p new, time, stamp]
      exact clock.not_stampedBefore_timestamp before (by omega)
  · simpa using moved.sends
  · rw [Conversation.receiver_turn_other]
    exact flow.follows.append _
  · rw [Conversation.turn_air_self]
    intro p mem kind
    rcases List.mem_append.mp mem with old | new
    · exact List.mem_append_left _ (flow.data p old kind)
    · exact moved.own p new kind
  · rw [Conversation.turn_air_self]
    intro p mem
    rcases List.mem_append.mp mem with old | new
    · exact flow.calm p old
    · exact calm p new
  · rw [Conversation.turn_air_other, Conversation.receiver_turn_other]
    intro p mem kind
    obtain ⟨k, q, found, id, has⟩ := flow.acks p mem kind
    exact ⟨k, q, getElem?_append_some found _, id, has.append _⟩
  · rw [Conversation.receiver_turn_other, Conversation.sender_turn_self]
    intro k p found
    rcases moved.held k p found with ⟨old, gone⟩ | here | ⟨q, asked, kind, id⟩
    · rw [← sender] at gone
      exact .inr (((flow.held k p old).resolve_left gone).append _)
    · exact .inl here
    · obtain ⟨j, x, known, same, has⟩ := flow.acks q (heard q asked) kind
      have bound := (List.getElem?_eq_some_iff.mp found).1
      have bound' := (List.getElem?_eq_some_iff.mp (getElem?_append_some known (launched log))).1
      obtain rfl : k = j := (nth_inj (by omega) (by omega)).mp (id.symm.trans same)
      exact .inr (has.append _)
  · intro long
    rcases moved.waits with none | ⟨one, free⟩
    · rw [none, List.append_nil] at long
      exact flow.waits long
    · rw [List.length_append, one] at long
      obtain ⟨p, first⟩ : ∃ p, st[0]? = some p := ⟨st[0], List.getElem?_eq_getElem (by omega)⟩
      rcases flow.held 0 p first with here | has
      · rw [sender] at here
        have pending : c.sender.unacked.contains streamStart = true :=
          SendQueue.contains_iff.mpr ⟨_, here⟩
        rw [pending] at free
        cases free
      · rcases has with delivered | ⟨q, _, kept⟩
        · omega
        · obtain ⟨j, x, ahead, known, same, _⟩ := flow.follows.early _ _ kept
          have bound := (List.getElem?_eq_some_iff.mp (getElem?_append_some known (launched log))).1
          have := (nth_inj (by omega) (by omega)).mp same
          omega

theorem fits (flow : Flow n clock start now v e st d) {p : Packet} (mem : p ∈ v.air e)
    (kind : p.header.kind = .data) : Fits st d p := by
  have mem := flow.data p mem kind
  obtain ⟨k, found⟩ := List.getElem?_of_mem mem
  refine ⟨⟨k, found, fun pos => flow.waits ?_⟩, flow.inTime p mem⟩
  have := (List.getElem?_eq_some_iff.mp found).1
  omega

/-- Nothing that the receiver hears resets anything. -/
theorem undisturbed (flow : Flow n clock start now v e st d) (short : st.length ≤ horizon)
    (had : v.channel? e.other = some c) (heard : ∀ q, op = .packet q → q ∈ v.air e)
    (move : Move ctx op c log ws c') : ∀ y ∈ log, y.isReset = false := by
  have follows := flow.follows
  rw [Conversation.receiver_of_some had] at follows
  intro y logged
  cases reset : y.isReset with
  | false => rfl
  | true =>
    obtain ⟨p, asked, cause⟩ := move.reset_cause logged reset
    have mem := heard p asked
    rcases cause with kind | ⟨kind, _⟩ | ⟨kind, place⟩
    · exact absurd kind (flow.calm p mem).1
    · exact absurd kind (flow.calm p mem).2
    · obtain ⟨k, _, _, started, placed⟩ :=
        (flow.fits mem kind).placed ctx flow.stream short follows
      rcases place with place | place
      · rw [place] at placed
        exact placed.elim
      · rw [place] at placed
        exact absurd placed.2 (started placed.1)

/-- No packet that the receiver sends belongs to a reset. -/
theorem sends_calm (flow : Flow n clock start now v e st d) (short : st.length ≤ horizon)
    (had : v.channel? e.other = some c) (heard : ∀ q, op = .packet q → q ∈ v.air e)
    (move : Move ctx op c log ws c') (sound : c.Sound) (known : op.Sound c.key) :
    ∀ p ∈ packets log, p.header.kind ≠ .reset ∧ p.header.kind ≠ .ackReset := by
  have follows := flow.follows
  rw [Conversation.receiver_of_some had] at follows
  intro p sent
  have cause := move.handshakes sound known sent
  refine ⟨fun kind => ?_, fun kind => ?_⟩
  · rw [kind] at cause
    rcases cause with ⟨_, pending⟩ | ⟨q, asked, data, place⟩
    · rw [follows.idle] at pending
      cases pending
    · obtain ⟨k, _, _, started, placed⟩ :=
        (flow.fits (heard q asked) data).placed ctx flow.stream short follows
      rw [place] at placed
      exact absurd placed.2 (started placed.1)
  · rw [kind] at cause
    obtain ⟨q, asked, kind⟩ := cause
    exact (flow.calm q (heard q asked)).1 kind

/-- What the receiver hears advances the flow. -/
theorem receive (flow : Flow n clock start now v e st d) (short : st.length ≤ horizon)
    (had : v.channel? e.other = some c) (inward : Inward ctx op c log c')
    (heard : ∀ q, op = .packet q → q ∈ v.air e) :
    ∃ d', Delivers st d c log d' c' ∧
      Flow n clock start now (v.turn e.other (some c') (packets log)) e st d' := by
  have receiver := Conversation.receiver_of_some had
  have follows := flow.follows
  rw [receiver] at follows
  obtain ⟨d', delivers⟩ := inward.stream flow.stream short follows
    fun p asked kind => .inl (flow.fits (heard p asked) kind)
  refine ⟨d', delivers, flow.stream, flow.stamps, flow.inTime, ?_, ?_, ?_, ?_, ?_, ?_, ?_⟩
  · simpa using flow.sends
  · simpa using delivers.follows
  · simpa using flow.data
  · simpa using flow.calm
  · rw [Conversation.turn_air_self, Conversation.receiver_turn_self]
    intro p mem kind
    rcases List.mem_append.mp mem with old | new
    · obtain ⟨k, q, found, id, has⟩ := flow.acks p old kind
      rw [receiver] at has
      exact ⟨k, q, found, id, delivers.keeps k has⟩
    · exact delivers.acks p new kind
  · rw [Conversation.sender_turn_back, Conversation.receiver_turn_self]
    intro k p found
    rcases flow.held k p found with here | has
    · exact .inl here
    · rw [receiver] at has
      exact .inr (delivers.keeps k has)
  · intro long
    have := flow.waits long
    have := delivers.later
    omega

end Flow

end ReliableDatagram
