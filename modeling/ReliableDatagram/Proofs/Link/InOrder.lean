import ReliableDatagram.Proofs.Link.Flow
import ReliableDatagram.Proofs.Link.History

/-!
# Delivery in order, exactly once

Two fresh tables over a network that loses, copies, delays and reorders datagrams: both directions
of every conversation are flows until one of the two channels is destroyed. So nothing is reset, what
one end delivers is the beginning of what the other end accepted, and whatever was sent is still
unacknowledged or held by the peer.
-/

namespace ReliableDatagram.Link

open Channel PacketId

/-- What one end of a conversation did so far. -/
structure Account where
  accepted : List Bytes := []
  delivered : List Bytes := []
  sent : List Packet := []

def Account.add (a : Account) (accepted : List Bytes) (said : List Effect) : Account where
  accepted := a.accepted ++ accepted
  delivered := a.delivered ++ payloads said
  sent := a.sent ++ packets said

/-- The accounts after the end `x` accepted and said something more. -/
def credit (a : End → Account) (x : End) (accepted : List Bytes) (said : List Effect) (e : End) :
    Account :=
  if e = x then (a e).add accepted said else a e

theorem credit_self (a : End → Account) (x : End) (accepted : List Bytes) (said : List Effect) :
    credit a x accepted said x = (a x).add accepted said := if_pos rfl

theorem credit_other (a : End → Account) (x : End) (accepted : List Bytes) (said : List Effect) :
    credit a x accepted said x.other = a x.other := if_neg x.other_ne

variable {n : UInt8} {clock : End → Clock} {start now : Nat} {v w : Conversation}
variable {a : End → Account} {e x : End}
variable {ctx : Context} {op : Channel.Op} {c c' : Channel} {log : List Effect}
variable {ws : List ParkedWrite}

/-- Both directions flow, and the accounts of both ends agree with the flows. -/
def Flows (n : UInt8) (clock : End → Clock) (start now : Nat) (v : Conversation)
    (a : End → Account) : Prop :=
  ∀ e, ∃ st d, Flow n (clock e) start now v e st d ∧
    (a e).accepted = contentsOf st ++ parkedBytes (v.sender e) ∧
    (a e.other).delivered = contentsOf (st.take d) ∧
    ∀ p ∈ (a e).sent, p.header.kind = .data → p ∈ st

namespace Flows

theorem alike (flows : Flows n clock start now w a) (alike : v.Alike w) :
    Flows n clock start now v a := by
  intro e
  obtain ⟨st, d, flow, accepted, rest⟩ := flows e
  refine ⟨st, d, flow.alike alike, ?_, rest⟩
  rw [accepted, parkedBytes, parkedBytes, alike.parked]

theorem later (flows : Flows n clock start now v a) {now' : Nat} (order : now ≤ now') :
    Flows n clock start now' v a := by
  intro e
  obtain ⟨st, d, flow, accounts⟩ := flows e
  exact ⟨st, d, flow.later order, accounts⟩

end Flows

/-- One move at one end. -/
theorem Flows.move (flows : Flows n clock start now v a) (order : start ≤ now)
    (near : now < start + stampRange * millisecond) (had : v.channel? x = some c) (sound : c.Sound)
    (known : op.Sound c.key) (own : c.key.channel = n) (move : Move ctx op c log ws c')
    (time : ctx.timestamp = (clock x).timestamp now)
    (heard : ∀ q, op = .packet q → q ∈ v.air x.other)
    (few : ∀ e, (a e).accepted.length ≤ horizon)
    (few' : ((a x).accepted ++ ws.map (·.payload)).length ≤ horizon) :
    (∀ y ∈ log, y.isReset = false) ∧
      Flows n clock start now (v.turn x (some c') (packets log))
        (credit a x (ws.map (·.payload)) log) := by
  have bound (e : End) {st : List Packet} (accepted : (a e).accepted =
      contentsOf st ++ parkedBytes (v.sender e)) : st.length ≤ horizon := by
    have few := few e
    rw [accepted] at few
    simp only [List.length_append, contentsOf, List.length_map] at few
    omega
  obtain ⟨st, d, flow, accepted, delivered, sent⟩ := flows x
  obtain ⟨st', d', flow', accepted', delivered', sent'⟩ := flows x.other
  rw [End.other_other] at delivered'
  have receives : v.channel? x.other.other = some c := by rwa [End.other_other]
  have short' := bound _ accepted'
  have quiet := flow'.undisturbed short' receives heard move
  have calm := flow'.sends_calm short' receives heard move sound known
  have sends := flow.sends
  rw [Conversation.sender_of_some had] at sends accepted
  obtain moved | again := (move.outward sound known).stream flow.stream sends own
  · refine ⟨quiet, fun e => ?_⟩
    have short : (st ++ launched log).length ≤ horizon := by
      rw [accepted, List.append_assoc, ← moved.writes, ← List.append_assoc,
        ← contentsOf_append] at few'
      simp only [List.length_append, contentsOf, List.length_map] at few' ⊢
      omega
    have after := flow.send short near order had moved time heard calm
    obtain ⟨d'', delivers, after'⟩ :=
      flow'.receive short' receives (move.inward sound known) heard
    rw [End.other_other] at after'
    by_cases here : e = x
    · subst here
      refine ⟨_, _, after, ?_, ?_, ?_⟩
      · rw [credit_self, Conversation.sender_turn_self, Account.add, accepted, contentsOf_append,
          List.append_assoc, List.append_assoc, moved.writes]
      · rw [credit_other, delivered]
        exact congrArg _ (List.take_append_of_le_length flow.follows.within).symm
      · rw [credit_self]
        intro p mem kind
        rcases List.mem_append.mp mem with old | new
        · exact List.mem_append_left _ (sent p old kind)
        · exact moved.own p new kind
    · obtain rfl : e = x.other := End.eq_other here
      refine ⟨_, _, after', ?_, ?_, ?_⟩
      · rw [credit_other, Conversation.sender_turn_other]
        exact accepted'
      · rw [End.other_other, credit_self, Account.add, delivered', delivers.payloads]
      · rw [credit_other]
        exact sent'
  · have told : Effect.emit (.resetLocal c.key) ∈ log := by
      rw [again.tells]
      exact List.mem_cons_self
    cases quiet _ told

theorem credit_credit (a : End → Account) (x : End) (accepted accepted' : List Bytes)
    (said said' : List Effect) :
    credit (credit a x accepted said) x accepted' said' =
      credit a x (accepted ++ accepted') (said ++ said') := by
  funext e
  unfold credit
  split
  · simp [Account.add]
  · rfl

theorem credit_nothing (a : End → Account) (x : End) : credit a x [] [] = a := by
  funext e
  unfold credit
  split
  · simp [Account.add]
  · rfl

/-- A chain of moves at one end, which may begin with a new channel. -/
theorem Flows.moves (flows : Flows n clock start now v a) (order : start ≤ now)
    (near : now < start + stampRange * millisecond) (had : v.channel? x = some c) (sound : c.Sound)
    (known : op.Sound c.key) (own : c.key.channel = n) (moves : Moves ctx op c log ws c')
    (time : ctx.timestamp = (clock x).timestamp now)
    (heard : ∀ q, op = .packet q → q ∈ v.air x.other)
    (few : ∀ e, (credit a x (ws.map (·.payload)) [] e).accepted.length ≤ horizon) :
    (∀ y ∈ log, y.isReset = false) ∧
      Flows n clock start now (v.turn x (some c') (packets log))
        (credit a x (ws.map (·.payload)) log) := by
  induction moves with
  | none =>
    refine ⟨fun y logged => (List.not_mem_nil logged).elim, ?_⟩
    have same := v.turn_self x
    rw [had] at same
    rw [List.map_nil, credit_nothing, packets_nil, same]
    exact flows
  | @snoc log log' ws ws' d d' before last ih =>
    rw [List.map_append] at few ⊢
    have fewer : ∀ e, (credit a x (ws.map (·.payload)) [] e).accepted.length ≤ horizon := by
      intro e
      refine Nat.le_trans ?_ (few e)
      unfold credit
      split
      · simp only [Account.add, List.length_append]
        omega
      · exact Nat.le_refl _
    obtain ⟨quiet, flows'⟩ := ih fewer
    have key := before.key
    have accepts : ∀ e, (credit a x (ws.map (·.payload)) log e).accepted =
        (credit a x (ws.map (·.payload)) [] e).accepted := by
      intro e
      unfold credit
      split <;> rfl
    obtain ⟨quiet', flows''⟩ := flows'.move order near (Conversation.turn_channel?_self v x _ _)
      (before.sound sound known) (by rwa [key]) (by rw [key]; exact own) last time
      (by rwa [Conversation.turn_air_other]) (fun e => by rw [accepts]; exact fewer e) (by
        rw [accepts, credit_self]
        have few := few x
        rw [credit_self, Account.add, ← List.append_assoc] at few
        exact few)
    rw [credit_credit, Conversation.turn_turn] at flows''
    rw [packets_append]
    refine ⟨fun y logged => ?_, flows''⟩
    rcases List.mem_append.mp logged with old | new
    · exact quiet y old
    · exact quiet' y new

theorem add_nothing (a : Account) : a.add [] [] = a := by simp [Account.add]

variable {l : Link} {operation : Op}

/-- The accounts after an operation of the link. -/
def settle (a : End → Account) (l : Link) (n : UInt8) (operation : Op) (e : End) : Account :=
  (a e).add (l.accepts e n operation) (said e n (l.apply operation).log)

theorem settle_of_act {accepted : List Bytes} {log : List Effect} {key : Key}
    (speech : ∀ e, said e n (l.apply operation).log = if e = x then voice n log else [])
    (accepts : ∀ e, l.accepts e n operation = if e = x then accepted else [])
    (speaks : ∀ y ∈ log, y.Speaks key) (own : key.channel = n) :
    settle a l n operation = credit a x accepted log := by
  have heard : payloads (voice n log) = payloads log :=
    filterMap_voice (fun _ _ => rfl) speaks own
  have sent : packets (voice n log) = packets log :=
    filterMap_voice (fun _ _ => rfl) speaks own
  funext e
  unfold settle credit
  rw [speech, accepts]
  split
  · rw [Account.add, heard, sent]
    rfl
  · exact add_nothing _

theorem Flows.apply (flows : Flows n l.clock start l.now (l.conversation n) a) (sound : l.Sound)
    (known : operation.Sound) (regular : operation.isRestart = false)
    (keeps : ∀ e, (l.channel? e n).isSome → ((l.apply operation).value.channel? e n).isSome)
    (order : start ≤ l.now)
    (near : (l.apply operation).value.now < start + stampRange * millisecond)
    (few : ∀ e, (settle a l n operation e).accepted.length ≤ horizon) :
    (∀ e, ∀ y ∈ said e n (l.apply operation).log, y.isReset = false) ∧
      Flows n (l.apply operation).value.clock start (l.apply operation).value.now
        ((l.apply operation).value.conversation n) (settle a l n operation) := by
  have passes := now_apply_le l operation
  have clocks : (l.apply operation).value.clock = l.clock := funext fun e => clock_apply regular e
  rw [clocks]
  have still (view : ((l.apply operation).value.conversation n).Within (l.conversation n))
      (silent : ∀ e, said e n (l.apply operation).log = [])
      (accepts : ∀ e, l.accepts e n operation = []) :
      (∀ e, ∀ y ∈ said e n (l.apply operation).log, y.isReset = false) ∧
        Flows n l.clock start (l.apply operation).value.now
          ((l.apply operation).value.conversation n) (settle a l n operation) := by
    have same : settle a l n operation = a := by
      funext e
      rw [settle, silent, accepts, add_nothing]
    rw [same]
    refine ⟨fun e y logged => ?_, (flows.alike view.alike).later passes⟩
    rw [silent] at logged
    cases logged
  cases episode sound known n with
  | still view silent accepts => exact still view silent accepts
  | @act x asked c c' log ws offered heard own knownOp _ moves view speech accepts =>
    have key := offered.key_eq
    have speaks := moves.speaks own (by rwa [key])
    have same : settle a l n operation = credit a x (ws.map (·.payload)) log :=
      settle_of_act speech accepts speaks (by rw [key]; rfl)
    rw [same] at few ⊢
    have begun := flows.alike (Conversation.alike_offer rfl offered)
    have counts : ∀ e, (credit a x (ws.map (·.payload)) [] e).accepted =
        (credit a x (ws.map (·.payload)) log e).accepted := by
      intro e
      unfold credit
      split <;> rfl
    obtain ⟨quiet, flows'⟩ := begun.moves order (Nat.lt_of_le_of_lt passes near)
      (Conversation.turn_channel?_self _ x _ _) own (by rwa [key]) (by rw [key]; rfl) moves rfl
      (by rwa [Conversation.turn_air_other]) (fun e => by rw [counts]; exact few e)
    rw [Conversation.turn_turn] at flows'
    refine ⟨fun e y logged => ?_, (flows'.alike view.alike).later passes⟩
    rw [speech] at logged
    split at logged
    · exact quiet y (List.mem_filter.mp logged).1
    · cases logged
  | @leave x c c' log reason found _ _ view =>
    exact (not_kept view (keeps x (by rw [found]; rfl))).elim
  | forget restart =>
    rw [restart] at regular
    cases regular

/-- The accounts after a run. -/
def settleAll (a : End → Account) (l : Link) (n : UInt8) (ops : List Op) (e : End) : Account :=
  (a e).add (accepted e n ops l) (said e n (run ops l).log)

theorem settleAll_cons (a : End → Account) (l : Link) (n : UInt8) (op : Op) (ops : List Op) :
    settleAll a l n (op :: ops) = settleAll (settle a l n op) (l.apply op).value n ops := by
  funext e
  simp [settleAll, settle, Account.add, accepted]

theorem Flows.run (flows : Flows n l.clock start l.now (l.conversation n) a) (sound : l.Sound)
    {ops : List Op} (regular : ∀ op ∈ ops, op.Regular) (keeps : ∀ e, Keeps e n ops l)
    (order : start ≤ l.now)
    (near : (Link.run ops l).value.now < start + stampRange * millisecond)
    (few : ∀ e, (settleAll a l n ops e).accepted.length ≤ horizon) :
    (∀ e, ∀ y ∈ said e n (Link.run ops l).log, y.isReset = false) ∧
      Flows n (Link.run ops l).value.clock start (Link.run ops l).value.now
        ((Link.run ops l).value.conversation n) (settleAll a l n ops) := by
  induction ops generalizing l a with
  | nil =>
    have same : settleAll a l n [] = a := funext fun e => add_nothing _
    rw [same]
    exact ⟨fun e y logged => (List.not_mem_nil logged).elim, flows⟩
  | cons op ops ih =>
    obtain ⟨known, runs⟩ := regular op List.mem_cons_self
    rw [value_run_cons] at near ⊢
    rw [settleAll_cons] at few ⊢
    have fewer : ∀ e, (settle a l n op e).accepted.length ≤ horizon := by
      intro e
      refine Nat.le_trans ?_ (few e)
      simp only [settleAll, Account.add, List.length_append]
      omega
    obtain ⟨quiet, flows'⟩ := flows.apply sound known runs (fun e => (keeps e).1) order
      (Nat.lt_of_le_of_lt (now_run_le ops _) near) fewer
    obtain ⟨quiet', flows''⟩ := ih flows' (sound.apply known)
      (fun op mem => regular op (List.mem_cons_of_mem _ mem)) (fun e => (keeps e).2)
      (Nat.le_trans order (now_apply_le l op)) near few
    refine ⟨fun e y logged => ?_, flows''⟩
    rw [log_run_cons, said_append] at logged
    rcases List.mem_append.mp logged with here | there
    · exact quiet e y here
    · exact quiet' e y there

theorem Fresh.flows (fresh : l.Fresh) (n : UInt8) :
    Flows n l.clock l.now l.now (l.conversation n) fun _ => {} := by
  intro e
  refine ⟨[], 0, .silent n _ _ _ (fresh.channel? e n) (fresh.channel? _ n) (fresh.air e n)
    (fresh.air _ n), ?_, rfl, nofun⟩
  simp only [Conversation.sender, conversation, fresh.channel?]
  rfl

theorem flows_of_fresh {ops : List Op} (fresh : l.Fresh) (regular : ∀ op ∈ ops, op.Regular)
    (keeps : ∀ e, Keeps e n ops l)
    (near : (run ops l).value.now < l.now + stampRange * millisecond)
    (few : ∀ e, (accepted e n ops l).length < horizon) :
    (∀ e, ∀ y ∈ said e n (run ops l).log, y.isReset = false) ∧
      Flows n (run ops l).value.clock l.now (run ops l).value.now
        ((run ops l).value.conversation n) (settleAll (fun _ => {}) l n ops) :=
  (fresh.flows n).run fresh.sound regular keeps (Nat.le_refl _) near
    fun e => Nat.le_of_lt (few e)

/-- Until a channel is destroyed, nothing is reset, and what one end delivers is the beginning of
what the other end accepted. -/
theorem delivered_in_order {l : Link} {ops : List Op} (n : UInt8) (fresh : l.Fresh)
    (regular : ∀ op ∈ ops, op.Regular) (keeps : ∀ e, Keeps e n ops l)
    (near : (run ops l).value.now < l.now + stampRange * millisecond)
    (few : ∀ e, (accepted e n ops l).length < horizon) :
    (∀ e, ∀ y ∈ said e n (run ops l).log, y.isReset = false) ∧
      ∀ e, delivered e.other n (run ops l).log <+: accepted e n ops l := by
  obtain ⟨quiet, flows⟩ := flows_of_fresh fresh regular keeps near few
  refine ⟨quiet, fun e => ?_⟩
  obtain ⟨st, d, _, accepts, delivers, _⟩ := flows e
  generalize ((run ops l).value.conversation n).sender e = s at accepts
  have accepts : accepted e n ops l = contentsOf st ++ parkedBytes s := accepts
  have delivers : delivered e.other n (run ops l).log = contentsOf (st.take d) := delivers
  have whole : contentsOf (st.take d) ++ contentsOf (st.drop d) = contentsOf st := by
    rw [← contentsOf_append, List.take_append_drop]
  rw [accepts, delivers, ← whole, List.append_assoc]
  exact List.prefix_append _ _

/-- The end `a` writes twice, and its first packet is copied. -/
def exchange : List Op :=
  [.connect .a 1, .write .a 1 1 ⟨0, [1]⟩, .copy .a 1, .pass millisecond, .deliver .b 0,
    .write .a 1 1 ⟨1, [2]⟩, .deliver .a 2, .deliver .a 1]

theorem exchange_regular : ∀ op ∈ exchange, op.Regular := by decide

theorem exchange_keeps (e : End) : Keeps e 1 exchange pair := by cases e <;> decide +kernel

theorem exchange_near :
    (run exchange pair).value.now < pair.now + stampRange * millisecond := by decide +kernel

theorem exchange_few (e : End) : (accepted e 1 exchange pair).length < horizon := by
  cases e <;> decide +kernel

theorem delivered_in_order_of_exchange :
    (∀ e, ∀ y ∈ said e 1 (run exchange pair).log, y.isReset = false) ∧
      (∀ e, delivered e.other 1 (run exchange pair).log <+: accepted e 1 exchange pair) ∧
      delivered .b 1 (run exchange pair).log = [[1], [2]] := by
  obtain ⟨quiet, ordered⟩ := delivered_in_order 1 fresh_pair exchange_regular exchange_keeps
    exchange_near exchange_few
  exact ⟨quiet, ordered, by decide +kernel⟩

/-- Until a channel is destroyed, every data packet that an end ever sent waits in its send queue
for an acknowledgement, with the bytes that were sent, or the peer delivered its payload or keeps it
under its id. -/
theorem sent_unacked_or_held {l : Link} {ops : List Op} (n : UInt8) (fresh : l.Fresh)
    (regular : ∀ op ∈ ops, op.Regular) (keeps : ∀ e, Keeps e n ops l)
    (near : (run ops l).value.now < l.now + stampRange * millisecond)
    (few : ∀ e, (accepted e n ops l).length < horizon) (e : End) {y : Effect} {target : SocketAddr}
    {bytes : Bytes} {p : Packet} (logged : y ∈ said e n (run ops l).log)
    (sent : y.datagram? = some (target, bytes)) (parsed : Packet.parse bytes = .ok p)
    (data : p.header.kind = .data) :
    (∃ c, (run ops l).value.channel? e n = some c ∧
        ∃ entry ∈ c.sender.unacked.entries, entry.id = p.header.id ∧ entry.packet = bytes) ∨
      (delivered e.other n (run ops l).log)[p.header.id.raw.toNat]? = some p.payload ∨
      ∃ c, (run ops l).value.channel? e.other n = some c ∧
        c.receiver.early.get? p.header.id = some p.payload := by
  obtain ⟨_, flows⟩ := flows_of_fresh fresh regular keeps near few
  obtain ⟨st, d, flow, accepts, delivers, sends⟩ := flows e
  have accepts : accepted e n ops l = contentsOf st ++ _ := accepts
  have delivers : delivered e.other n (run ops l).log = contentsOf (st.take d) := delivers
  have packet : y.packet? = some p := by
    simp only [Effect.packet?, sent, Option.bind_some, parsed]
    rfl
  have spoken : p ∈ [] ++ packets (said e n (run ops l).log) :=
    List.mem_append_right _ (List.mem_filterMap.mpr ⟨y, logged, packet⟩)
  obtain ⟨k, found⟩ := List.getElem?_of_mem (sends p spoken data)
  have id := flow.stream.id found
  have bound := (List.getElem?_eq_some_iff.mp found).1
  have few := few e
  rw [accepts, List.length_append, contentsOf, List.length_map] at few
  have place : p.header.id.raw.toNat = k := by rw [id, toNat_nth (by omega)]
  rcases flow.held k p found with unacked | delivered | ⟨q, known, kept⟩
  · cases channel : ((run ops l).value.conversation n).channel? e with
    | none =>
      simp only [Conversation.sender, channel] at unacked
      exact (List.not_mem_nil unacked).elim
    | some c =>
      rw [Conversation.sender_of_some channel] at unacked
      obtain ⟨entry, held, same⟩ := List.mem_map.mp unacked
      obtain ⟨sameId, sameBytes⟩ := Prod.mk.inj same
      refine .inl ⟨c, channel, entry, held, sameId.trans id.symm, ?_⟩
      rw [sameBytes, Packet.encode_of_parse parsed]
  · refine .inr (.inl ?_)
    rw [delivers, place, contentsOf, List.getElem?_map, List.getElem?_take_of_lt delivered, found]
    rfl
  · obtain rfl : p = q := Option.some.inj (found.symm.trans known)
    cases channel : ((run ops l).value.conversation n).channel? e.other with
    | none =>
      simp only [Conversation.receiver, channel] at kept
      cases kept
    | some c =>
      rw [Conversation.receiver_of_some channel, ← id] at kept
      exact .inr (.inr ⟨c, channel, kept⟩)

/-- The first packet of the exchange, whose copy was delivered at once. -/
theorem sent_unacked_or_held_of_exchange :
    (∃ c, (run exchange pair).value.channel? .a 1 = some c ∧
        ∃ entry ∈ c.sender.unacked.entries, entry.id = .streamStart ∧
          entry.packet = (Packet.data 1 .streamStart 0 [1]).encode) ∨
      (delivered .b 1 (run exchange pair).log)[0]? = some [1] ∨
      ∃ c, (run exchange pair).value.channel? .b 1 = some c ∧
        c.receiver.early.get? .streamStart = some [1] := by
  have first : (said .a 1 (run exchange pair).log).any (fun y => y.datagram? ==
      some (⟨.v4 2, 2⟩, (Packet.data 1 .streamStart 0 [1]).encode)) = true := by decide +kernel
  obtain ⟨y, logged, sent⟩ := List.any_eq_true.mp first
  exact sent_unacked_or_held 1 fresh_pair exchange_regular exchange_keeps exchange_near
    exchange_few .a logged (beq_iff_eq.mp sent)
    (Packet.parse_encode (Packet.wellFormed_data (by decide) (by decide))) rfl

end ReliableDatagram.Link
