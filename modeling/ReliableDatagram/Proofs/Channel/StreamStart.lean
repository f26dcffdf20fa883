import ReliableDatagram.Proofs.Channel.Answers
import ReliableDatagram.Proofs.Channel.StreamMoves

/-!
# Stream starts at a receiver

A receiver without a stream waits for a stream start, and a receiver with one leaves it for every
stream start with another timestamp. Either way it delivers the start at once.
-/

namespace ReliableDatagram.Channel

open PacketId

variable {n : UInt8} {st : List Packet} {d : Nat}
variable {ctx : Context} {op : Op} {c c' : Channel} {log : List Effect} {ws : List ParkedWrite}

/-- There is no stream. -/
structure Waiting (r : Receiver) : Prop where
  expected : r.expected = .streamStart
  early : ∀ id, r.early.get? id = none

theorem waiting_fresh : Waiting {} := ⟨rfl, fun _ => rfl⟩

/-- The start of a stream gets a receiver going that waits for it or leaves another stream. -/
theorem follows_start (short : st.length ≤ horizon) {p : Packet} {r : Receiver}
    (first : st[0]? = some p) (id : p.header.id = .streamStart) (waiting : Waiting r) :
    ∃ d, d ≠ 0 ∧ Follows st d ((r.start p.header.timestamp).accept p.header.id p.payload).2 ∧
      contentsOf (st.take d) = ((r.start p.header.timestamp).accept p.header.id p.payload).1 ∧
      ∃ rest, ((r.start p.header.timestamp).accept p.header.id p.payload).1 = p.payload :: rest := by
  have ready : Follows st 0 (r.start p.header.timestamp) := by
    refine ⟨Nat.zero_le _, waiting.expected, fun pos => absurd pos (Nat.lt_irrefl 0), ?_, rfl⟩
    intro i payload kept
    have none : r.early.get? i = none := waiting.early i
    have kept : r.early.get? i = some payload := kept
    rw [none] at kept
    cases kept
  obtain ⟨d, later, follows, delivered, _⟩ := ready.accept short first fun _ => rfl
  rw [id]
  exact ⟨d, Nat.ne_of_gt later, follows, delivered, _, rfl⟩

theorem Waiting.place (waiting : Waiting c.receiver) {p : Packet}
    (other : p.header.id ≠ .streamStart) (ctx : Context) : c.placeOf ctx p = .unplaced := by
  rw [placeOf, Receiver.place_of_ne other, if_pos waiting.expected]

theorem Waiting.place_start (waiting : Waiting c.receiver) {p : Packet}
    (start : p.header.id = .streamStart) (ctx : Context) : c.placeOf ctx p = .start := by
  rw [placeOf, start, Receiver.place_streamStart, if_pos waiting.expected]

/-- Only a stream start ends the wait. -/
theorem Move.waiting (move : Move ctx op c log ws c') (waiting : Waiting c.receiver)
    (other : ∀ p, op = .packet p → p.header.kind = .data → p.header.id ≠ .streamStart) :
    Waiting c'.receiver ∧ payloads log = [] := by
  have unplaced {p : Packet} (asked : op = .packet p) (kind : p.header.kind = .data) :
      c.placeOf ctx p = .unplaced := waiting.place (other p asked kind) ctx
  cases move with
  | accept kind place | acceptStart kind place | restart kind place | keep kind place =>
    rw [unplaced rfl kind] at place
    cases place
  | confirm kind place =>
    rw [unplaced rfl kind] at place
    rcases place with place | place | place <;> cases place
  | requestReset _ _ idle =>
    rw [requestReset_idle idle]
    exact ⟨⟨waiting.expected, waiting.early⟩, rfl⟩
  | resetAnswered => exact ⟨waiting_fresh, rfl⟩
  | measure =>
    refine ⟨waiting, payloads_eq_nil fun e logged => ?_⟩
    obtain ⟨rtt, rfl⟩ := mem_onAckPing_log logged
    rfl
  | resendData =>
    refine ⟨by rwa [resendData_receiver], payloads_eq_nil fun e logged => ?_⟩
    obtain ⟨x, _, rfl⟩ := mem_resendData_log _ _ logged
    rfl
  | resendReset =>
    refine ⟨?_, payloads_eq_nil fun e logged => ?_⟩
    · rcases resendReset_value ctx c (ctx.now + c.retransmitTimeout ctx.config) with
        same | ⟨r, attempts, pending, same⟩
      · rwa [same]
      · rw [same]
        exact ⟨waiting.expected, waiting.early⟩
    · obtain ⟨r, _, rfl⟩ := mem_resendReset_log _ _ _ logged
      rfl
  | tune => exact ⟨by rwa [tune_receiver], rfl⟩
  | _ => exact ⟨waiting, rfl⟩

theorem Moves.waiting (moves : Moves ctx op c log ws c') (waiting : Waiting c.receiver)
    (other : ∀ p, op = .packet p → p.header.kind = .data → p.header.id ≠ .streamStart) :
    Waiting c'.receiver ∧ payloads log = [] := by
  induction moves with
  | none => exact ⟨waiting, rfl⟩
  | snoc _ last ih =>
    obtain ⟨waiting', silent⟩ := ih
    obtain ⟨waiting'', silent'⟩ := last.waiting waiting' other
    refine ⟨waiting'', ?_⟩
    rw [payloads_append, silent, silent']
    rfl

/-- A receiver goes on with its stream through all moves on packets of it and of earlier ones. -/
theorem Moves.stream (moves : Moves ctx op c log ws c') (sound : c.Sound) (known : op.Sound c.key)
    (stream : Stream n st) (short : st.length ≤ horizon) (follows : Follows st d c.receiver)
    (fits : ∀ d', d ≤ d' → ∀ p, op = .packet p → p.header.kind = .data →
      Fits st d' p ∨ Outdated st d' p) :
    ∃ d', d ≤ d' ∧ Follows st d' c'.receiver ∧
      contentsOf (st.take d') = contentsOf (st.take d) ++ payloads log := by
  induction moves with
  | none => exact ⟨d, Nat.le_refl d, follows, (List.append_nil _).symm⟩
  | snoc before last ih =>
    obtain ⟨d', later, follows', delivered⟩ := ih
    have key := before.key
    have inward := last.inward (before.sound sound known) (by rwa [key])
    obtain ⟨d'', delivers⟩ := inward.stream stream short follows' (fits d' later)
    refine ⟨d'', Nat.le_trans later delivers.later, delivers.follows, ?_⟩
    rw [delivers.payloads, delivered, payloads_append, List.append_assoc]

end ReliableDatagram.Channel
