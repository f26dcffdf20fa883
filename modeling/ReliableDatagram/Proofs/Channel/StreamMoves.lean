import ReliableDatagram.Proofs.Channel.Stream

/-!
# Streams under moves

A sender's moves only add packets to the end of its stream, or start another one. A receiver's moves
on packets of the stream that it follows deliver the next part of it and acknowledge only what the
receiver has.
-/

namespace ReliableDatagram.Channel

open PacketId

variable {n : UInt8} {st : List Packet} {d : Nat}
variable {ctx : Context} {op : Op} {c c' : Channel} {log : List Effect} {ws : List ParkedWrite}

/-- The sender's next packet continues the stream, and only packets of it are unacknowledged. -/
structure Sends (st : List Packet) (s : Sender) : Prop where
  nextId : s.nextId = nth st.length
  unacked : ∀ x ∈ s.unacked.contents, ∃ k p, st[k]? = some p ∧ x = (nth k, p.encode)

def parkedBytes (s : Sender) : List Bytes := s.parked.map (·.payload)

theorem getElem?_append_some {α : Type} {xs : List α} {k : Nat} {x : α} (found : xs[k]? = some x)
    (ys : List α) : (xs ++ ys)[k]? = some x := by
  rw [List.getElem?_append_left (List.getElem?_eq_some_iff.mp found).1]
  exact found

/-- The only packet of an append that is not in the first part is the new one. -/
theorem getElem?_snoc {α : Type} {xs : List α} {k : Nat} {x y : α}
    (found : (xs ++ [y])[k]? = some x) : xs[k]? = some x ∨ k = xs.length ∧ x = y := by
  rcases Nat.lt_or_ge k xs.length with old | new
  · rw [List.getElem?_append_left old] at found
    exact .inl found
  · have bound := (List.getElem?_eq_some_iff.mp found).1
    simp only [List.length_append, List.length_singleton] at bound
    obtain rfl : k = xs.length := by omega
    rw [List.getElem?_append_right (Nat.le_refl _), Nat.sub_self] at found
    exact .inr ⟨rfl, (Option.some.inj found).symm⟩

/-- A move of a sender that does not start over: its stream grows by what is launched. -/
structure Continues (n : UInt8) (st : List Packet) (ctx : Context) (op : Op) (c : Channel)
    (log : List Effect) (ws : List ParkedWrite) (c' : Channel) : Prop where
  stream : Stream n (st ++ launched log)
  sends : Sends (st ++ launched log) c'.sender
  writes : contentsOf (launched log) ++ parkedBytes c'.sender =
    parkedBytes c.sender ++ ws.map (·.payload)
  stamped : ∀ p ∈ launched log, p.header.timestamp = ctx.timestamp
  own : ∀ p ∈ packets log, p.header.kind = .data → p ∈ st ++ launched log
  held : ∀ k p, (st ++ launched log)[k]? = some p →
    st[k]? = some p ∧ (nth k, p.encode) ∉ c.sender.unacked.contents ∨
      (nth k, p.encode) ∈ c'.sender.unacked.contents ∨
      ∃ q, op = .packet q ∧ q.header.kind = .ack ∧ q.header.id = nth k
  waits : launched log = [] ∨
    (launched log).length = 1 ∧ c.sender.unacked.contains .streamStart = false

/-- A move of a sender that starts over: an empty stream takes the place of the old one. -/
structure StartsOver (op : Op) (c : Channel) (log : List Effect) (ws : List ParkedWrite)
    (c' : Channel) : Prop where
  cause : ∃ p, op = .packet p ∧ (p.header.kind = .reset ∨ p.header.kind = .data)
  sends : Sends [] c'.sender
  parked : c'.sender.parked = c.sender.parked
  tells : log = [.emit (.resetLocal c.key)]
  accepts : ws = []

theorem Sends.of_same {s s' : Sender} (sends : Sends st s) (nextId : s'.nextId = s.nextId)
    (unacked : ∀ x ∈ s'.unacked.contents, x ∈ s.unacked.contents) : Sends st s' :=
  ⟨nextId.trans sends.nextId, fun x held => sends.unacked x (unacked x held)⟩

theorem continues_of_silent (stream : Stream n st) (sends : Sends st c.sender)
    (first : launched log = []) (nextId : c'.sender.nextId = c.sender.nextId)
    (unacked : ∀ x ∈ c'.sender.unacked.contents, x ∈ c.sender.unacked.contents)
    (writes : parkedBytes c'.sender = parkedBytes c.sender ++ ws.map (·.payload))
    (own : ∀ p ∈ packets log, p.header.kind = .data → p ∈ st)
    (held : ∀ k p, st[k]? = some p → (nth k, p.encode) ∈ c.sender.unacked.contents →
      (nth k, p.encode) ∈ c'.sender.unacked.contents ∨
        ∃ q, op = .packet q ∧ q.header.kind = .ack ∧ q.header.id = nth k) :
    Continues n st ctx op c log ws c' := by
  have same : st ++ launched log = st := by rw [first, List.append_nil]
  refine ⟨by rwa [same], ?_, ?_, ?_, by rwa [same], ?_, .inl first⟩
  · rw [same]
    exact sends.of_same nextId unacked
  · rw [first]
    exact writes
  · rw [first]
    nofun
  · rw [same]
    intro k p found
    by_cases here : (nth k, p.encode) ∈ c.sender.unacked.contents
    · exact .inr (held k p found here)
    · exact .inl ⟨found, here⟩

theorem continues_send {w : ParkedWrite} {p : Packet} (stream : Stream n st)
    (sends : Sends st c.sender) (own : c.key.channel = n)
    (first : c.sender.parked = w :: c'.sender.parked) (room : c.sender.canSend = true)
    (packet : p = .data c.key.channel c.sender.nextId ctx.timestamp w.payload)
    (wellFormed : p.WellFormed) (nextId : c'.sender.nextId = c.sender.nextId.next)
    (contents : c'.sender.unacked.contents =
      c.sender.unacked.contents ++ [(c.sender.nextId, p.encode)])
    (sent : packets log = [p]) (new : launched log = [p]) :
    Continues n st ctx op c log [] c' := by
  have id : p.header.id = nth st.length := by rw [packet]; exact sends.nextId
  have last : (st ++ [p])[st.length]? = some p := by simp
  constructor
  · rw [new]
    exact stream.snoc wellFormed (by rw [packet]; exact own) (by rw [packet]; rfl) id
  · rw [new]
    refine ⟨?_, fun x held => ?_⟩
    · rw [nextId, sends.nextId, List.length_append]
      rfl
    · rw [contents] at held
      rcases List.mem_append.mp held with old | latest
      · obtain ⟨k, q, found, same⟩ := sends.unacked x old
        exact ⟨k, q, getElem?_append_some found _, same⟩
      · rcases List.mem_singleton.mp latest with rfl
        exact ⟨st.length, p, last, by rw [sends.nextId]⟩
  · rw [new, parkedBytes, parkedBytes, first, packet]
    simp [contentsOf, Packet.data, Packet.make]
  · rw [new]
    intro q mem
    rcases List.mem_singleton.mp mem with rfl
    rw [packet]
    rfl
  · rw [sent, new]
    exact fun q mem _ => List.mem_append_right _ mem
  · rw [new]
    intro k q found
    rcases getElem?_snoc found with old | ⟨rfl, rfl⟩
    · by_cases here : (nth k, q.encode) ∈ c.sender.unacked.contents
      · exact .inr (.inl (by rw [contents]; exact List.mem_append_left _ here))
      · exact .inl ⟨old, here⟩
    · refine .inr (.inl ?_)
      rw [contents, sends.nextId]
      exact List.mem_append_right _ List.mem_cons_self
  · refine .inr ⟨by rw [new]; rfl, ?_⟩
    obtain ⟨_, free⟩ := Bool.and_eq_true_iff.mp room
    simpa using free

/-- A sender's move continues its stream or starts over. -/
theorem Outward.stream (outward : Outward ctx op c log c' ws) (stream : Stream n st)
    (sends : Sends st c.sender) (own : c.key.channel = n) :
    Continues n st ctx op c log ws c' ∨ StartsOver op c log ws c' := by
  cases outward with
  | rest nextId contents parked first again =>
    refine .inl (continues_of_silent stream sends first nextId (by simp [contents]) ?_ ?_ ?_)
    · rw [parkedBytes, parkedBytes, parked]
      exact (List.append_nil _).symm
    · intro p sent data
      obtain ⟨id, held⟩ := again p sent data
      obtain ⟨k, q, found, same⟩ := sends.unacked _ held
      obtain ⟨e, _, seen⟩ := List.mem_filterMap.mp sent
      have same : p = q := Packet.encode_inj (Effect.wellFormed_of_packet? seen)
        (stream k q found).1 (Prod.mk.inj same).2
      rw [same]
      exact List.mem_of_getElem? found
    · intro k p _ held
      exact .inl (by rwa [contents])
  | park nextId contents parked silent =>
    subst silent
    refine .inl (continues_of_silent stream sends rfl nextId (by simp [contents]) ?_ nofun ?_)
    · rw [parkedBytes, parkedBytes, parked]
      exact List.map_append
    · intro k p _ held
      exact .inl (by rwa [contents])
  | send first room packet wellFormed nextId contents sent new =>
    exact .inl (continues_send stream sends own first room packet wellFormed nextId contents sent new)
  | @settle p asked kind nextId contents parked silent =>
    subst silent
    refine .inl (continues_of_silent stream sends rfl nextId ?_ ?_ nofun ?_)
    · intro x held
      rw [contents] at held
      exact List.mem_of_mem_eraseP held
    · rw [parkedBytes, parkedBytes, parked]
      exact (List.append_nil _).symm
    · intro k q found held
      by_cases settled : nth k = p.header.id
      · exact .inr ⟨p, asked, kind, settled.symm⟩
      · refine .inl ?_
        rw [contents]
        exact (List.mem_eraseP_of_neg (by simpa using settled)).mpr held
  | @startOver p asked cause nextId contents parked tells =>
    refine .inr ⟨⟨p, asked, cause.imp_right And.left⟩, ⟨nextId, ?_⟩, parked, tells, rfl⟩
    rw [contents]
    exact fun _ held => (List.not_mem_nil held).elim

/-- A move of a receiver that follows a stream. -/
structure Delivers (st : List Packet) (d : Nat) (c : Channel) (log : List Effect) (d' : Nat)
    (c' : Channel) : Prop where
  later : d ≤ d'
  follows : Follows st d' c'.receiver
  payloads : contentsOf (st.take d') = contentsOf (st.take d) ++ payloads log
  keeps : ∀ k, Has st d c.receiver k → Has st d' c'.receiver k
  acks : ∀ q ∈ packets log, q.header.kind = .ack →
    ∃ k p, st[k]? = some p ∧ q.header.id = nth k ∧ Has st d' c'.receiver k

/-- A packet of the stream that a receiver can place in it. -/
def Fits (st : List Packet) (d : Nat) (p : Packet) : Prop :=
  (∃ k, st[k]? = some p ∧ (k ≠ 0 → d ≠ 0)) ∧
    ∀ q, st[0]? = some q → stampedBefore p.header.timestamp q.header.timestamp = false

/-- A packet of an earlier stream that is no stream start. -/
def Outdated (st : List Packet) (d : Nat) (p : Packet) : Prop :=
  p.header.id ≠ .streamStart ∧ d ≠ 0 ∧
    ∀ q, st[0]? = some q → stampedBefore p.header.timestamp q.header.timestamp = true

theorem Delivers.of_same (follows : Follows st d c'.receiver)
    (same : c'.receiver.early = c.receiver.early) (silent : Channel.payloads log = [])
    (acks : ∀ q ∈ packets log, q.header.kind = .ack →
      ∃ k p, st[k]? = some p ∧ q.header.id = nth k ∧ Has st d c.receiver k) :
    Delivers st d c log d c' := by
  have keeps (k : Nat) (has : Has st d c.receiver k) : Has st d c'.receiver k := by
    unfold Has
    rw [same]
    exact has
  refine ⟨Nat.le_refl d, follows, by rw [silent, List.append_nil], keeps, fun q sent kind => ?_⟩
  obtain ⟨k, p, found, id, has⟩ := acks q sent kind
  exact ⟨k, p, found, id, keeps k has⟩

theorem Outdated.place {p : Packet} (outdated : Outdated st d p)
    (follows : Follows st d c.receiver) (ctx : Context) : c.placeOf ctx p = .stale := by
  obtain ⟨other, pos, before⟩ := outdated
  obtain ⟨q, first, started⟩ := follows.startedAt (Nat.pos_of_ne_zero pos)
  have going : c.receiver.expected ≠ .streamStart := by
    rw [follows.expected]
    exact fun start => pos (nth_eq_streamStart.mp start)
  have stale : c.receiver.isStale p.header.timestamp = true := by
    simp only [Receiver.isStale, started]
    exact before q first
  rw [placeOf, Receiver.place_of_ne other, if_neg going, if_pos stale]

theorem Fits.placed {p : Packet} (fits : Fits st d p) (ctx : Context) (stream : Stream n st)
    (short : st.length ≤ horizon) (follows : Follows st d c.receiver) :
    ∃ k, st[k]? = some p ∧ p.header.id = nth k ∧ (k ≠ 0 → d ≠ 0) ∧
      Placed k d c.receiver (c.placeOf ctx p) := by
  obtain ⟨⟨k, found, started⟩, inTime⟩ := fits
  exact ⟨k, found, stream.id found, started,
    follows.placed short found (stream.id found) inTime ctx.config.receiveWindow⟩

/-- The expected packet advances the stream, whether it is the stream start or not. -/
theorem delivers_accept {p : Packet} {r : Receiver} (short : st.length ≤ horizon)
    (follows : Follows st d r) (found : st[d]? = some p) (id : p.header.id = nth d)
    (started : d = 0 → r.startedAt = some p.header.timestamp) (early : r.early = c.receiver.early)
    (receiver : c'.receiver = (r.accept p.header.id p.payload).2)
    (delivers : payloads log = (r.accept p.header.id p.payload).1)
    (answer : packets log = [p.ack]) : ∃ d', Delivers st d c log d' c' := by
  obtain ⟨d', later, follows', advance, keeps⟩ := follows.accept short found started
  rw [← id, ← receiver] at follows' keeps
  rw [← id, ← delivers] at advance
  refine ⟨d', Nat.le_of_lt later, follows', advance, fun k has => keeps k ?_, fun q sent _ => ?_⟩
  · unfold Has
    rw [early]
    exact has
  · rw [answer] at sent
    rcases List.mem_singleton.mp sent with rfl
    exact ⟨d, p, found, id, .inl later⟩

/-- A receiver's moves on packets of its stream deliver the stream, and earlier streams do not
disturb it. -/
theorem Inward.stream (inward : Inward ctx op c log c') (stream : Stream n st)
    (short : st.length ≤ horizon) (follows : Follows st d c.receiver)
    (fits : ∀ p, op = .packet p → p.header.kind = .data → Fits st d p ∨ Outdated st d p) :
    ∃ d', Delivers st d c log d' c' := by
  have placed {p : Packet} (asked : op = .packet p) (kind : p.header.kind = .data)
      (known : c.placeOf ctx p ≠ .stale) : ∃ k, st[k]? = some p ∧ p.header.id = nth k ∧
        (k ≠ 0 → d ≠ 0) ∧ Placed k d c.receiver (c.placeOf ctx p) := by
    rcases fits p asked kind with fits | outdated
    · exact fits.placed ctx stream short follows
    · exact absurd (outdated.place follows ctx) known
  cases inward with
  | rest expected startedAt early pending silent noAck =>
    refine ⟨d, .of_same ⟨follows.within, ?_, ?_, ?_, ?_⟩ early silent
      fun q sent kind => absurd kind (noAck q sent)⟩
    · rw [expected]
      exact follows.expected
    · rw [startedAt]
      exact follows.startedAt
    · rw [early]
      exact follows.early
    · rw [follows.idle] at pending
      simpa using pending
  | @accept p asked kind place receiver delivers answer =>
    obtain ⟨k, found, id, started, placed⟩ := placed asked kind (by rw [place]; nofun)
    rw [place] at placed
    obtain ⟨rfl, pos⟩ := placed
    exact delivers_accept short follows found id (fun zero => absurd zero pos) rfl receiver delivers
      answer
  | @acceptStart p asked kind place receiver delivers answer =>
    obtain ⟨k, found, id, started, placed⟩ := placed asked kind (by rw [place]; nofun)
    rw [place] at placed
    obtain ⟨rfl, rfl⟩ := placed
    have ready : Follows st 0 (c.receiver.start p.header.timestamp) :=
      ⟨follows.within, follows.expected, fun pos => absurd pos (Nat.lt_irrefl 0), follows.early, rfl⟩
    exact delivers_accept short ready found id (fun _ => rfl) rfl receiver delivers answer
  | @restart p asked kind place =>
    obtain ⟨k, found, id, started, placed⟩ := placed asked kind (by rw [place]; nofun)
    rw [place] at placed
    exact placed.elim
  | @confirm p asked kind place receiver silent answer =>
    obtain ⟨k, found, id, started, placed⟩ := placed asked kind
      (by rcases place with place | place | place <;> rw [place] <;> nofun)
    have has : Has st d c.receiver k := by
      rcases place with place | place | place
      · rw [place] at placed
        exact .inl placed
      · rw [place] at placed
        obtain ⟨payload, held⟩ := Option.isSome_iff_exists.mp placed.2
        obtain ⟨j, q, _, known, same, rfl⟩ := follows.early _ _ held
        obtain rfl : k = j := (nth_inj (Nat.le_of_lt (lt_horizon short found))
          (Nat.le_of_lt (lt_horizon short known))).mp same
        exact .inr ⟨q, known, held⟩
      · rw [place] at placed
        exact .inl placed
    refine ⟨d, .of_same (by rwa [receiver]) (by rw [receiver]) silent fun q sent _ => ?_⟩
    rw [answer] at sent
    rcases List.mem_singleton.mp sent with rfl
    exact ⟨k, p, found, id, has⟩
  | @keep p asked kind place receiver silent answer =>
    obtain ⟨k, found, id, started, placed⟩ := placed asked kind (by rw [place]; nofun)
    rw [place] at placed
    obtain ⟨follows', keeps, has⟩ := follows.keep short found placed
    rw [← id, ← receiver] at follows' keeps has
    refine ⟨d, Nat.le_refl d, follows', by rw [silent, List.append_nil], keeps, fun q sent _ => ?_⟩
    rw [answer] at sent
    rcases List.mem_singleton.mp sent with rfl
    exact ⟨k, p, found, id, has⟩
  | @requestReset p asked kind place =>
    obtain ⟨k, found, id, started, placed⟩ := placed asked kind (by rw [place]; nofun)
    rw [place] at placed
    exact absurd placed.2 (started placed.1)
  | resetAnswered _ _ pending =>
    rw [follows.idle] at pending
    cases pending

end ReliableDatagram.Channel
