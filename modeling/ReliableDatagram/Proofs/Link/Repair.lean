import ReliableDatagram.Proofs.Link.Calm
import ReliableDatagram.Proofs.Link.InOrder
import ReliableDatagram.Proofs.Link.Ledger

/-!
# Repairing a direction

After an end has sent all its unacknowledged packets again, a direction of a conversation is being
repaired: behind the packets that flew before, data flies in the order of the stream, and whatever
is unacknowledged is among it or its acknowledgement flies back. Delivery in order keeps it so. The
point is that a packet which arrives finds everything before it already there, so that it cannot lie
beyond the window of the receiver.
-/

namespace ReliableDatagram

open Link Channel PacketId

variable {n : UInt8} {clock : Clock} {start now : Nat} {v : Conversation} {e : End}
variable {st : List Packet} {d : Nat} {ctx : Context} {c c' : Channel} {log : List Effect}
variable {p : Packet} {rest : List Packet}

/-- The packets that fly from `e` are old ones and then new ones. The data among the new ones and the
unacknowledged packets stand at the places `js` and `ks` of the stream. -/
inductive Repairing (v : Conversation) (e : End) : Prop
  | intro {total m : Nat} {ks js : List Nat} (old new : List Packet) (few : total ≤ horizon)
      (numbered : Numbered total m ks (v.sender e)) (air : v.air e = old ++ new)
      (flying : Ranked m js (dataIds new))
      (covered : ∀ k ∈ ks, k ∈ js ∨
        ∃ a ∈ v.air e.other, a.header.kind = .ack ∧ a.header.id = nth k)

namespace Channel

/-- The expected packet is neither delivered nor kept. -/
theorem Follows.not_has {r : Receiver} (follows : Follows st d r) (short : st.length ≤ horizon)
    (has : Has st d r d) : False := by
  rcases has with delivered | ⟨q, found, kept⟩
  · exact Nat.lt_irrefl d delivered
  · obtain ⟨j, x, ahead, known, same, _⟩ := follows.early _ _ kept
    have bound := (List.getElem?_eq_some_iff.mp known).1
    have := (nth_inj (by omega) (by omega)).mp same
    omega

/-- With nothing unacknowledged there is nothing at any place. -/
theorem Ranked.eq_nil {m : Nat} {ks : List Nat} (ranked : Ranked m ks []) : ks = [] :=
  List.map_eq_nil_iff.mp ranked.ids.symm

end Channel

/-- An unacknowledged packet that the receiver does not have flies, so nothing behind it arrives
before it. -/
theorem Flow.reached {total m j : Nat} {ks js : List Nat} (flow : Flow n clock start now v e st d)
    (short : st.length ≤ horizon) (few : total ≤ horizon)
    (numbered : Numbered total m ks (v.sender e)) (flying : (j :: js).Pairwise (· < ·))
    (covered : ∀ k ∈ ks, k ∈ j :: js ∨
      ∃ a ∈ v.air e.other, a.header.kind = .ack ∧ a.header.id = nth k)
    {q : Packet} (found : st[j]? = some q) : j ≤ d := by
  refine Nat.le_of_not_lt fun behind => ?_
  have bound := (List.getElem?_eq_some_iff.mp found).1
  have missing : ∃ x, st[d]? = some x := ⟨st[d], List.getElem?_eq_getElem (by omega)⟩
  obtain ⟨x, here⟩ := missing
  rcases flow.held d x here with unacked | has
  · have id : nth d ∈ (v.sender e).unackedIds := List.mem_map.mpr ⟨_, unacked, rfl⟩
    rw [numbered.unacked.ids] at id
    obtain ⟨k, held, same⟩ := List.mem_map.mp id
    have sent := numbered.unacked.bound k held
    have sum := numbered.total
    obtain rfl : k = d := (nth_inj (by omega) (by omega)).mp same
    rcases covered k held with flies | ⟨a, mem, kind, named⟩
    · rcases List.mem_cons.mp flies with same | later
      · omega
      · have := (List.pairwise_cons.mp flying).1 k later
        omega
    · obtain ⟨i, y, known, id, has⟩ := flow.acks a mem kind
      have bound' := (List.getElem?_eq_some_iff.mp known).1
      obtain rfl : k = i := (nth_inj (by omega) (by omega)).mp (named.symm.trans id)
      exact flow.follows.not_has short has
  · exact flow.follows.not_has short has

/-- A packet of the stream at or before the expected place is acknowledged. -/
theorem Flow.acknowledged {k : Nat} (flow : Flow n clock start now v e st d)
    (short : st.length ≤ horizon) (heard : p ∈ v.air e) (kind : p.header.kind = .data)
    (stands : v.Stands e.other c) (known : (Channel.Op.packet p).Sound c.key)
    (found : st[k]? = some p) (reached : k ≤ d) : packets (c.onPacket ctx p).log = [p.ack] := by
  have follows := flow.follows
  rw [← stands.receiver] at follows
  obtain ⟨j, there, id, started, placed⟩ :=
    (flow.fits heard kind).placed ctx flow.stream short follows
  have bound := (List.getElem?_eq_some_iff.mp there).1
  have bound' := (List.getElem?_eq_some_iff.mp found).1
  obtain rfl : j = k :=
    (nth_inj (by omega) (by omega)).mp (id.symm.trans (flow.stream.id found))
  refine packets_onPacket_placed kind known ⟨fun place => ?restart, fun place => ?unplaced⟩
    ⟨fun place => ?stale, fun place => ?beyondWindow⟩
  all_goals rw [place] at placed
  case restart => exact placed
  case unplaced => exact started placed.1 placed.2
  case stale => exact placed
  case beyondWindow => exact absurd placed (Nat.not_lt_of_le reached)

namespace Repairing

/-- What the other end does adds to the packets that fly back. -/
theorem turn_other (repairing : Repairing v e) (c? : Option Channel) (sent : List Packet) :
    Repairing (v.turn e.other c? sent) e := by
  obtain ⟨old, new, few, numbered, air, flying, covered⟩ := repairing
  refine .intro old new few (by simpa using numbered) (by simpa using air) flying fun k held => ?_
  rcases covered k held with flies | ⟨a, mem, acked⟩
  · exact .inl flies
  · rw [Conversation.turn_air_self]
    exact .inr ⟨a, List.mem_append_left _ mem, acked⟩

/-- A packet from before the repair lands. -/
theorem land_old {total m : Nat} {ks js : List Nat} {old new : List Packet}
    (few : total ≤ horizon) (numbered : Numbered total m ks (v.sender e))
    (air : v.air e = p :: old ++ new) (flying : Ranked m js (dataIds new))
    (covered : ∀ k ∈ ks, k ∈ js ∨
      ∃ a ∈ v.air e.other, a.header.kind = .ack ∧ a.header.id = nth k) :
    Repairing (v.land e) e := by
  refine .intro old new few numbered ?_ flying (by simpa using covered)
  rw [Conversation.air_land_self, air]
  rfl

/-- A packet that is no data lands. -/
theorem land (repairing : Repairing v e) (first : v.air e = p :: rest)
    (inert : p.header.kind ≠ .data) : Repairing (v.land e) e := by
  obtain @⟨total, m, ks, js, old, new, few, numbered, air, flying, covered⟩ := repairing
  cases old with
  | cons o old => exact land_old few numbered air flying covered
  | nil =>
    rw [List.nil_append, first] at air
    subst air
    have less : dataIds (p :: rest) = dataIds rest := by simp [dataIds, inert]
    rw [less] at flying
    refine .intro [] (p :: rest).tail few numbered ?_ flying (by simpa using covered)
    rw [Conversation.air_land_self, first]
    rfl

/-- Data lands and is heard. Among the new packets it is the first one that may be missing. -/
theorem land_data (repairing : Repairing v e) (flow : Flow n clock start now v e st d)
    (short : st.length ≤ horizon) (first : v.air e = p :: rest) (kind : p.header.kind = .data)
    (stands : v.Stands e.other c) (known : (Channel.Op.packet p).Sound c.key)
    (answer : c.onPacket ctx p = ⟨c', log⟩) :
    Repairing ((v.land e).turn e.other (some c') (packets log)) e := by
  obtain @⟨total, m, ks, js, old, new, few, numbered, air, flying, covered⟩ := repairing
  cases old with
  | cons o old => exact (land_old few numbered air flying covered).turn_other _ _
  | nil =>
    rw [List.nil_append, first] at air
    subst air
    have heard : p ∈ v.air e := by
      rw [first]
      exact List.mem_cons_self
    have ids : dataIds (p :: rest) = p.header.id :: dataIds rest := by simp [dataIds, kind]
    rw [ids] at flying
    cases js with
    | nil => cases flying.ids
    | cons j js =>
      have id : p.header.id = nth j := (List.cons_eq_cons.mp flying.ids).1
      have sum := numbered.total
      have ahead := flying.bound j List.mem_cons_self
      obtain ⟨i, found⟩ := List.getElem?_of_mem (flow.data p heard kind)
      have bound := (List.getElem?_eq_some_iff.mp found).1
      obtain rfl : i = j :=
        (nth_inj (by omega) (by omega)).mp ((flow.stream.id found).symm.trans id)
      have reached := flow.reached short few numbered flying.order covered found
      have acked : packets log = [p.ack] := by
        have log' : (c.onPacket ctx p).log = log := congrArg Logged.log answer
        rw [← log', flow.acknowledged short heard kind stands known found reached]
      refine .intro [] rest few (by simpa using numbered) ?_ flying.tail
        fun k held => ?_
      · rw [Conversation.turn_air_back, Conversation.air_land_self, first]
        rfl
      · rw [Conversation.turn_air_self, Conversation.air_land_other, acked]
        rcases covered k held with flies | ⟨a, mem, ack⟩
        · rcases List.mem_cons.mp flies with rfl | later
          · exact .inr ⟨p.ack, List.mem_append_right _ List.mem_cons_self, rfl, id⟩
          · exact .inl later
        · exact .inr ⟨a, List.mem_append_left _ mem, ack⟩

/-- The other end hears the oldest packet. -/
theorem receive (repairing : Repairing v e) (flow : Flow n clock start now v e st d)
    (short : st.length ≤ horizon) (first : v.air e = p :: rest) (stands : v.Stands e.other c)
    (known : (Channel.Op.packet p).Sound c.key) (answer : c.onPacket ctx p = ⟨c', log⟩) :
    Repairing ((v.land e).turn e.other (some c') (packets log)) e := by
  by_cases kind : p.header.kind = .data
  · exact repairing.land_data flow short first kind stands known answer
  · exact (repairing.land first kind).turn_other _ _

section Attend

variable {s : Sender} {total m : Nat} {ks js : List Nat} {old new sent : List Packet}

/-- The end goes on to send what was parked, behind the new packets. -/
theorem advance (few : total ≤ horizon) (numbered : Numbered total m ks s)
    (air : v.air e = old ++ new) (flying : Ranked m js (dataIds new))
    (first : v.air e.other = p :: rest)
    (covered : ∀ k ∈ ks, k ∈ js ∨ ∃ a ∈ rest, a.header.kind = .ack ∧ a.header.id = nth k)
    (advances : Advances s sent c'.sender)
    (ids : dataIds (packets log) = sent.map (·.header.id)) :
    Repairing ((v.land e.other).turn e (some c') (packets log)) e := by
  obtain ⟨_, places⟩ := advances.places m numbered.nextId
  have flying' : Ranked (m + sent.length) (js ++ List.range' m sent.length)
      (dataIds (new ++ packets log)) := by
    rw [dataIds_append, ids, places]
    exact flying.append_range sent.length
  refine .intro old (new ++ packets log) few (by simpa using numbered.advance advances) ?_ flying'
    fun k held => ?_
  · rw [Conversation.turn_air_self, Conversation.air_land_back, air, List.append_assoc]
  · rw [Conversation.turn_air_other, Conversation.air_land_self, first]
    rcases List.mem_append.mp held with held | fresh
    · rcases covered k held with flies | acked
      · exact .inl (List.mem_append_left _ flies)
      · exact .inr acked
    · exact .inl (List.mem_append_right _ fresh)

/-- Nothing but an acknowledgement changes what is to be sent. -/
theorem attend_inert (repairing : Repairing v e) (first : v.air e.other = p :: rest)
    (other : p.header.kind ≠ .ack) (stands : v.Stands e c) (same : c'.sender = c.sender)
    (inert : ∀ q ∈ packets log, q.header.kind ≠ .data) :
    Repairing ((v.land e.other).turn e (some c') (packets log)) e := by
  obtain @⟨total, m, ks, js, old, new, few, numbered, air, flying, covered⟩ := repairing
  have rests : Advances (v.sender e) [] c'.sender :=
    .rest (by rw [same, stands.nextId]) (by rw [same, stands.contents])
      (by rw [same, stands.parked])
  refine advance few numbered air flying first (fun k held => ?_) rests (dataIds_of_inert inert)
  · rcases covered k held with flies | ⟨a, mem, kind, id⟩
    · exact .inl flies
    · rw [first] at mem
      rcases List.mem_cons.mp mem with rfl | later
      · exact absurd kind other
      · exact .inr ⟨a, later, kind, id⟩

/-- An acknowledgement makes room. The packet that it names is not waited for any more. -/
theorem attend_ack (repairing : Repairing v e) (first : v.air e.other = p :: rest)
    (kind : p.header.kind = .ack) (stands : v.Stands e c) (sound : c.Sound)
    (answer : c.onPacket ctx p = ⟨c', log⟩) :
    Repairing ((v.land e.other).turn e (some c') (packets log)) e := by
  obtain @⟨total, m, ks, js, old, new, few, numbered, air, flying, covered⟩ := repairing
  have sum := numbered.total
  obtain ⟨s, nextId, parked, erased, advances⟩ := onPacket_ack ctx sound kind
  rw [answer] at advances
  have settled : Numbered total m (ks.eraseP fun k => nth k == p.header.id) s := by
    refine ⟨nextId.trans (stands.nextId.trans numbered.nextId), ?_, ?_⟩
    · rw [parked, stands.parked]
      exact sum
    · rw [erased, Sender.unackedIds, stands.contents]
      exact numbered.unacked.eraseP p.header.id
  refine advance few settled air flying first (fun k held => ?_) advances
    (dataIds_of_data advances.data)
  rcases covered k (List.mem_of_mem_eraseP held) with flies | ⟨a, mem, acked⟩
  · exact .inl flies
  · rw [first] at mem
    rcases List.mem_cons.mp mem with rfl | later
    · exact absurd acked.2.symm (numbered.unacked.gone (by omega) held)
    · exact .inr ⟨a, later, acked⟩

/-- The end hears the oldest packet from the other end. -/
theorem attend (repairing : Repairing v e) (flow : Flow n clock start now v e.other st d)
    (short : st.length ≤ horizon) (first : v.air e.other = p :: rest) (stands : v.Stands e c)
    (sound : c.Sound) (known : (Channel.Op.packet p).Sound c.key)
    (answer : c.onPacket ctx p = ⟨c', log⟩) :
    Repairing ((v.land e.other).turn e (some c') (packets log)) e := by
  have heard : p ∈ v.air e.other := by
    rw [first]
    exact List.mem_cons_self
  have value : (c.onPacket ctx p).value = c' := congrArg Logged.value answer
  have log' : (c.onPacket ctx p).log = log := congrArg Logged.log answer
  have calm := flow.calm p heard
  cases kind : p.header.kind with
  | data =>
    have follows := flow.follows
    rw [End.other_other, ← stands.receiver] at follows
    obtain ⟨k, _, _, _, placed⟩ :=
      (flow.fits heard kind).placed ctx flow.stream short follows
    have continues : c.placeOf ctx p ≠ .restart := fun place => by
      rw [place] at placed
      exact placed
    obtain ⟨sender, answers⟩ := onPacket_data kind known sound continues
    rw [value] at sender
    rw [log'] at answers
    refine repairing.attend_inert first (by rw [kind]; nofun) stands sender fun q mem => ?_
    rcases answers with none | ack | reset
    · rw [none] at mem
      cases mem
    · rw [ack] at mem
      rcases List.mem_singleton.mp mem with rfl
      nofun
    · rw [reset] at mem
      rcases List.mem_singleton.mp mem with rfl
      nofun
  | ack => exact repairing.attend_ack first kind stands sound answer
  | reset => exact absurd kind calm.1
  | ackReset => exact absurd kind calm.2
  | ping =>
    obtain ⟨sender, _, answers, _⟩ := onPacket_ping ctx known kind
    rw [value] at sender
    rw [log'] at answers
    refine repairing.attend_inert first (by rw [kind]; nofun) stands sender fun q mem => ?_
    rw [answers] at mem
    rcases List.mem_singleton.mp mem with rfl
    nofun
  | ackPing =>
    obtain ⟨sender, _, answers, _⟩ := onPacket_ackPing ctx c kind
    rw [value] at sender
    rw [log'] at answers
    refine repairing.attend_inert first (by rw [kind]; nofun) stands sender fun q mem => ?_
    rw [answers] at mem
    cases mem

/-- An end without a channel waits for nothing. -/
theorem miss (repairing : Repairing v e) (missing : v.channel? e = none) :
    Repairing (v.land e.other) e := by
  obtain @⟨total, m, ks, js, old, new, few, numbered, air, flying, covered⟩ := repairing
  have none : (v.sender e).unackedIds = [] := by simp [Conversation.sender, missing]; rfl
  have ranked := numbered.unacked
  rw [none] at ranked
  obtain rfl := ranked.eq_nil
  exact .intro old new few numbered (by simpa using air) flying (List.forall_mem_nil _)

end Attend

end Repairing

end ReliableDatagram
