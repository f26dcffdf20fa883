import ReliableDatagram.Proofs.Channel.Directions
import ReliableDatagram.Proofs.Channel.Tickets

/-!
# Posting writes

Whatever happens to a channel, first it may forget packets that it sent, and then it posts writes:
the first of those that are parked or come in go into the send queue and out as data packets, in
order, and each is answered at that moment. `Posting` says so of one operation, and of any chain of
moves in this order.
-/

namespace ReliableDatagram.Channel

/-- The answers in a log, with the tickets of the writes. -/
def answers (log : List Effect) : List (Nat × Except TransportError Nat) :=
  log.filterMap Effect.reply?

@[simp] theorem answers_nil : answers [] = [] := rfl

@[simp] theorem answers_append (log log' : List Effect) :
    answers (log ++ log') = answers log ++ answers log' := List.filterMap_append

theorem mem_answers {log : List Effect} {ticket : Nat} {result : Except TransportError Nat} :
    (ticket, result) ∈ answers log ↔ .reply ticket result ∈ log := by
  constructor
  · intro mem
    obtain ⟨e, logged, seen⟩ := List.mem_filterMap.mp mem
    cases e with
    | reply =>
      cases seen
      exact logged
    | _ => cases seen
  · intro mem
    exact List.mem_filterMap.mpr ⟨_, mem, rfl⟩

theorem answers_eq_nil {log : List Effect} (silent : ∀ ticket result, .reply ticket result ∉ log) :
    answers log = [] :=
  List.eq_nil_iff_forall_not_mem.mpr fun reply mem =>
    silent reply.1 reply.2 (mem_answers.mp mem)

/-- The answer to a write whose packet is in the send queue. -/
def ParkedWrite.sentReply (w : ParkedWrite) : Nat × Except TransportError Nat :=
  (w.ticket, .ok w.payload.length)

/-- What the send queue holds of data packets. -/
def queued (sent : List Packet) : List (PacketId × Bytes) :=
  sent.map fun p => (p.header.id, p.encode)

/-- A channel takes writes in behind the parked ones and posts the first of them all, in order. Of
the packets that it sent before it still holds those that are kept. -/
structure Posting (c : Channel) (log : List Effect) (taken posted : List ParkedWrite)
    (kept : List (PacketId × Bytes)) (c' : Channel) : Prop where
  parked : c.sender.parked ++ taken = posted ++ c'.sender.parked
  payloads : (launched log).map (·.payload) = posted.map (·.payload)
  answered : answers log = posted.map ParkedWrite.sentReply
  old : kept.Sublist c.sender.unacked.contents
  contents : c'.sender.unacked.contents = kept ++ queued (launched log)
  again : ∀ p ∈ packets log, p.header.kind = .data →
    p ∈ launched log ∨ ∃ id, (id, p.encode) ∈ c.sender.unacked.contents

variable {ctx : Context} {op : Op} {c c' c'' : Channel} {log log' : List Effect}
  {ws taken taken' posted posted' : List ParkedWrite} {kept kept' : List (PacketId × Bytes)}

theorem wellFormed_of_mem_launched {p : Packet} (new : p ∈ launched log) : p.WellFormed := by
  obtain ⟨e, _, seen⟩ := List.mem_filterMap.mp (List.mem_filter.mp new).1
  cases e with
  | send target bytes =>
    have seen : (Effect.send target bytes).packet? = some p := seen
    exact Effect.wellFormed_of_packet? seen
  | _ => cases seen

namespace Posting

theorem launched_eq_nil (posting : Posting c log taken [] kept c') : launched log = [] :=
  List.map_eq_nil_iff.mp posting.payloads

theorem refl (c : Channel) : Posting c [] [] [] c.sender.unacked.contents c :=
  ⟨List.append_nil _, rfl, rfl, .refl _, (List.append_nil _).symm, nofun⟩

/-- Packets are forgotten, or nothing is done to the send direction. -/
theorem of_quiet (parked : c'.sender.parked = c.sender.parked)
    (contents : c'.sender.unacked.contents.Sublist c.sender.unacked.contents)
    (first : launched log = []) (silent : answers log = [])
    (again : ∀ p ∈ packets log, p.header.kind = .data →
      ∃ id, (id, p.encode) ∈ c.sender.unacked.contents) :
    Posting c log [] [] c'.sender.unacked.contents c' := by
  refine ⟨?_, ?_, silent, contents, ?_, fun p sent data => .inr (again p sent data)⟩
  · rw [parked, List.append_nil, List.nil_append]
  · rw [first]
    rfl
  · rw [first]
    exact (List.append_nil _).symm

/-- The send direction is left alone, and what is sent carries no data. -/
theorem of_same (same : c'.sender = c.sender) (first : launched log = [])
    (silent : answers log = []) (inert : ∀ p ∈ packets log, p.header.kind ≠ .data) :
    Posting c log [] [] c.sender.unacked.contents c' := by
  have quiet : Posting c log [] [] c'.sender.unacked.contents c' := by
    have contents : c'.sender.unacked.contents = c.sender.unacked.contents := by rw [same]
    exact .of_quiet (by rw [same]) (contents ▸ .refl _) first silent
      fun p sent data => absurd data (inert p sent)
  rwa [same] at quiet

/-- A write is parked behind the others. -/
theorem of_park {w : ParkedWrite} (parked : c'.sender.parked = c.sender.parked ++ [w])
    (contents : c'.sender.unacked.contents = c.sender.unacked.contents) :
    Posting c [] [w] [] c.sender.unacked.contents c' := by
  refine ⟨parked.symm, rfl, rfl, .refl _, ?_, nofun⟩
  rw [contents]
  exact (List.append_nil _).symm

/-- The first parked write is sent. -/
theorem of_send {w : ParkedWrite} {p : Packet} (first : c.sender.parked = w :: c'.sender.parked)
    (payload : p.payload = w.payload)
    (contents : c'.sender.unacked.contents =
      c.sender.unacked.contents ++ [(p.header.id, p.encode)])
    (sent : packets log = [p]) (new : launched log = [p]) (answered : answers log = [w.sentReply]) :
    Posting c log [] [w] c.sender.unacked.contents c' := by
  refine ⟨?_, ?_, answered, .refl _, ?_, fun q mem _ => ?_⟩
  · rw [List.append_nil, first]
    rfl
  · rw [new, List.map_singleton, payload]
    rfl
  · rw [contents, new]
    rfl
  · rw [sent] at mem
    exact .inl (new ▸ mem)

/-- Before anything is posted, packets may be forgotten. -/
theorem after (first : Posting c log taken [] kept c')
    (second : Posting c' log' taken' posted kept' c'') :
    Posting c (log ++ log') (taken ++ taken') posted kept' c'' := by
  have nothing := first.launched_eq_nil
  have contents : c'.sender.unacked.contents = kept := by
    rw [first.contents, nothing]
    exact List.append_nil _
  have silent := first.answered
  refine ⟨?_, ?_, ?_, ?_, ?_, ?_⟩
  · rw [← List.append_assoc, first.parked]
    exact second.parked
  · rw [launched_append, nothing]
    exact second.payloads
  · rw [answers_append, silent]
    exact second.answered
  · exact (contents ▸ second.old).trans first.old
  · rw [launched_append, nothing]
    exact second.contents
  · intro p sent data
    rw [launched_append, nothing]
    rw [packets_append] at sent
    rcases List.mem_append.mp sent with early | late
    · have again := first.again p early data
      rw [nothing] at again
      exact again.imp_left nofun
    · refine (second.again p late data).imp_right fun ⟨id, held⟩ => ⟨id, ?_⟩
      rw [contents] at held
      exact first.old.subset held

/-- When something has been posted, more may be posted, but nothing is forgotten. -/
theorem andThen (first : Posting c log taken posted kept c')
    (second : Posting c' log' taken' posted' c'.sender.unacked.contents c'') :
    Posting c (log ++ log') (taken ++ taken') (posted ++ posted') kept c'' := by
  refine ⟨?_, ?_, ?_, first.old, ?_, ?_⟩
  · rw [← List.append_assoc, first.parked, List.append_assoc, List.append_assoc, second.parked]
  · rw [launched_append, List.map_append, List.map_append, first.payloads, second.payloads]
  · rw [answers_append, List.map_append, first.answered, second.answered]
  · rw [second.contents, first.contents, launched_append, queued, queued, queued, List.map_append,
      List.append_assoc]
  · intro p sent data
    rw [launched_append]
    rw [packets_append] at sent
    rcases List.mem_append.mp sent with early | late
    · exact (first.again p early data).imp_left (List.mem_append_left _)
    · rcases second.again p late data with new | ⟨id, held⟩
      · exact .inl (List.mem_append_right _ new)
      · rw [first.contents] at held
        rcases List.mem_append.mp held with old | posted
        · exact .inr ⟨id, first.old.subset old⟩
        · -- A copy of what was just posted is the same packet.
          obtain ⟨q, new, same⟩ := List.mem_map.mp posted
          obtain ⟨e, _, seen⟩ := List.mem_filterMap.mp late
          have wellFormed := Effect.wellFormed_of_packet? seen
          obtain rfl : q = p := Packet.encode_inj (wellFormed_of_mem_launched new) wellFormed
            (Prod.mk.inj same).2
          exact .inl (List.mem_append_left _ new)

end Posting

section Moves

theorem answers_accept (c : Channel) (p : Packet) : answers (c.accept ctx p).log = [] :=
  answers_eq_nil fun _ _ => not_reply_mem_accept c p

theorem answers_checkConnected (c : Channel) : answers c.checkConnected.log = [] := by
  unfold checkConnected
  split <;> rfl

/-- A move leaves the answers alone and takes writes in at most, or it posts the first parked write,
or it turns a write away. -/
theorem Move.mail (move : Move ctx op c log ws c') :
    c'.sender.parked = c.sender.parked ++ ws ∧ answers log = [] ∨
      (∃ w, ws = [] ∧ c.sender.parked = w :: c'.sender.parked ∧ answers log = [w.sentReply]) ∨
      ∃ w error, op = .write w ∧ ws = [] ∧ c' = c ∧ log = [.reply w.ticket (.error error)] := by
  have still {c' : Channel} {log : List Effect} (parked : c'.sender.parked = c.sender.parked)
      (silent : answers log = []) :
      c'.sender.parked = c.sender.parked ++ [] ∧ answers log = [] :=
    ⟨parked.trans (List.append_nil _).symm, silent⟩
  cases move with
  | @refuse w _ error => exact .inr (.inr ⟨w, error, rfl, rfl, rfl, rfl⟩)
  | @send _ _ w rest first => exact .inr (.inl ⟨w, rfl, first, rfl⟩)
  | park => exact .inl ⟨rfl, rfl⟩
  | accept => exact .inl (still (by rw [accept_sender]) (answers_accept _ _))
  | acceptStart => exact .inl (still (by rw [acceptStart_sender]) (answers_accept _ _))
  | measure =>
    exact .inl (still rfl (answers_eq_nil fun _ _ => not_reply_mem_onAckPing c _))
  | requestReset _ _ idle =>
    rw [requestReset_idle idle]
    exact .inl (still rfl rfl)
  | resendData =>
    refine .inl (still (resendData_parked _ _) (answers_eq_nil fun _ _ mem => ?_))
    obtain ⟨_, _, same⟩ := mem_resendData_log _ _ mem
    cases same
  | resendReset =>
    refine .inl (still (by rw [resendReset_sender]) (answers_eq_nil fun _ _ mem => ?_))
    obtain ⟨_, _, same⟩ := mem_resendReset_log _ _ _ mem
    cases same
  | tune => exact .inl (still (tune_parked _ _ _) rfl)
  | _ => exact .inl (still rfl rfl)

theorem ne_parked_self {w : ParkedWrite} (shrunk : c.sender.parked = w :: c'.sender.parked)
    (same : c'.sender.parked = c.sender.parked ++ ws) : False := by
  have lengths := congrArg List.length shrunk
  rw [same, List.length_cons, List.length_append] at lengths
  omega

/-- A move that turns nothing away posts at most. Only on the occasion of a packet it may forget
others. -/
theorem Move.posting (move : Move ctx op c log ws c') (sound : c.Sound) (asked : op.Sound c.key)
    (willing : ∀ w, op = .write w → ∀ error, .reply w.ticket (.error error) ∉ log) :
    ∃ posted kept, Posting c log ws posted kept c' ∧
      (kept = c.sender.unacked.contents ∨ ∃ p, op = .packet p) := by
  have mail := move.mail
  cases move.outward sound asked with
  | rest nextId contents parked first again =>
    rcases mail with ⟨_, silent⟩ | ⟨w, _, shrunk, _⟩ | ⟨w, error, own, _, _, refused⟩
    · exact ⟨[], _, .of_quiet parked (contents ▸ .refl _) first silent again, .inl contents⟩
    · exact (ne_parked_self shrunk (parked.trans (List.append_nil _).symm)).elim
    · exact (willing w own error (refused ▸ List.mem_singleton.mpr rfl)).elim
  | @park w nextId contents parked silent =>
    subst silent
    exact ⟨[], _, .of_park parked contents, .inl rfl⟩
  | @send w p shrunk room packet wellFormed nextId contents sent new =>
    have answered : answers log = [w.sentReply] := by
      rcases mail with ⟨parked, _⟩ | ⟨w', _, shrunk', answered⟩ | ⟨_, _, _, _, same, _⟩
      · exact (ne_parked_self shrunk parked).elim
      · rw [shrunk] at shrunk'
        rw [answered, (List.cons.inj shrunk').1]
      · rw [same] at shrunk
        exact (ne_parked_self shrunk (List.append_nil _).symm).elim
    have payload : p.payload = w.payload := by rw [packet]; rfl
    have id : c.sender.nextId = p.header.id := by rw [packet]; rfl
    rw [id] at contents
    exact ⟨[w], _, .of_send shrunk payload contents sent new answered, .inl rfl⟩
  | settle asked kind nextId contents parked silent =>
    subst silent
    refine ⟨[], _, .of_quiet parked ?_ rfl rfl nofun, .inr ⟨_, asked⟩⟩
    rw [contents]
    exact List.eraseP_sublist
  | startOver asked cause nextId contents parked tells =>
    subst tells
    refine ⟨[], _, .of_quiet parked ?_ rfl rfl nofun, .inr ⟨_, asked⟩⟩
    rw [contents]
    exact List.nil_sublist _

/-- An operation that is not about a packet posts and forgets nothing. -/
theorem Moves.posting (moves : Moves ctx op c log ws c') (sound : c.Sound) (asked : op.Sound c.key)
    (own : ∀ p, op ≠ .packet p)
    (willing : ∀ w, op = .write w → ∀ error, .reply w.ticket (.error error) ∉ log) :
    ∃ posted, Posting c log ws posted c.sender.unacked.contents c' := by
  induction moves with
  | none => exact ⟨[], .refl c⟩
  | @snoc log log' ws ws' c' c'' before last ih =>
    obtain ⟨posted, first⟩ := ih fun w asks error mem =>
      willing w asks error (List.mem_append_left _ mem)
    obtain ⟨posted', kept, second, all | ⟨p, packet⟩⟩ := last.posting (before.sound sound asked)
      (by rwa [before.key]) fun w asks error mem => willing w asks error (List.mem_append_right _ mem)
    · rw [all] at second
      exact ⟨posted ++ posted', first.andThen second⟩
    · exact absurd packet (own p)

theorem posting_flush (ctx : Context) (sound : c.Sound) :
    ∃ posted, Posting c (c.flush ctx).log [] posted c.sender.unacked.contents (c.flush ctx).value :=
  (moves_flush c .tick).posting sound trivial (by nofun) (by nofun)

end Moves

/-- Who parks the same writes as before has posted what came in. -/
theorem Posting.posted_length (posting : Posting c log taken posted kept c')
    (same : c'.sender.parked = c.sender.parked) : posted.length = taken.length := by
  have lengths := congrArg List.length posting.parked
  rw [same, List.length_append, List.length_append] at lengths
  omega

section Packet

variable {p : Packet} {d : Channel}

/-- A packet makes a channel forget packets and then post parked writes, if it does any of it. -/
def Posts (c : Channel) (log : List Effect) (c' : Channel) : Prop :=
  ∃ posted kept, Posting c log [] posted kept c'

theorem Posts.of_move (move : Move ctx (.packet p) c log [] d) (sound : c.Sound)
    (asked : (Op.packet p).Sound c.key) : Posts c log d := by
  obtain ⟨posted, kept, posting, _⟩ := move.posting sound asked nofun
  exact ⟨posted, kept, posting⟩

/-- A move that posts nothing comes first. -/
theorem Posts.after (move : Move ctx (.packet p) c log [] d) (sound : c.Sound)
    (asked : (Op.packet p).Sound c.key) (same : d.sender.parked = c.sender.parked)
    (rest : Posts d log' c') : Posts c (log ++ log') c' := by
  obtain ⟨none, kept, first, _⟩ := move.posting sound asked nofun
  obtain rfl : none = [] := List.eq_nil_of_length_eq_zero (first.posted_length same)
  obtain ⟨posted, kept', second⟩ := rest
  exact ⟨posted, kept', first.after second⟩

theorem Posts.flush (sound : c.Sound) : Posts c (c.flush ctx).log (c.flush ctx).value := by
  obtain ⟨posted, posting⟩ := posting_flush ctx sound
  exact ⟨posted, _, posting⟩

/-- The last part of a computation neither posts nor forgets. -/
theorem Posts.andThen {x : Logged Effect Channel} {f : Channel → Logged Effect Channel}
    (first : Posts c x.log x.value)
    (last : Posting x.value (f x.value).log [] [] x.value.sender.unacked.contents
      (f x.value).value) : Posts c (x >>= f).log (x >>= f).value := by
  obtain ⟨posted, kept, posting⟩ := first
  exact ⟨posted ++ [], kept, posting.andThen last⟩

theorem posts_onAck (sound : c.Sound) (asked : (Op.packet p).Sound c.key)
    (kind : p.header.kind = .ack) :
    Posts c (c.onAck ctx p.header).log (c.onAck ctx p.header).value := by
  unfold onAck
  dsimp only
  split
  · next lost =>
    have stray : Move ctx (.packet p) c [] [] _ := .strayAck kind lost
    exact .of_move stray sound asked
  · next entry unacked found =>
    have settle : Move ctx (.packet p) c [] [] _ := .settle kind found rfl
    exact .after settle sound asked rfl (.flush (settle.sound sound asked))

theorem posts_onReset (sound : c.Sound) (asked : (Op.packet p).Sound c.key)
    (kind : p.header.kind = .reset) : Posts c (c.onReset ctx p).log (c.onReset ctx p).value := by
  have answer : Move ctx (.packet p) c _ [] _ := .say (.ackReset kind)
  have sound' := answer.sound sound asked
  have startOver : Move ctx (.packet p) (c.transmit ctx p.ackReset).value _ [] _ :=
    .startOver kind
  exact .after answer sound asked rfl
    (.after startOver sound' asked rfl (.flush (startOver.sound sound' asked)))

theorem posting_checkConnected (c : Channel) :
    Posting c c.checkConnected.log [] [] c.sender.unacked.contents c.checkConnected.value := by
  refine .of_same (checkConnected_sender c) (launched_checkConnected c) (answers_checkConnected c) ?_
  rw [packets_checkConnected]
  nofun

theorem posting_acceptStart (wellFormed : p.WellFormed) (c : Channel) :
    Posting c (c.acceptStart ctx p).log [] [] c.sender.unacked.contents
      (c.acceptStart ctx p).value := by
  refine .of_same (acceptStart_sender c p) (launched_accept wellFormed) (answers_accept _ p)
    fun q sent => ?_
  rw [acceptStart, packets_accept wellFormed] at sent
  rw [List.mem_singleton.mp sent]
  nofun

theorem posts_onData (sound : c.Sound) (asked : (Op.packet p).Sound c.key)
    (kind : p.header.kind = .data) : Posts c (c.onData ctx p).log (c.onData ctx p).value := by
  have single {log : List Effect} {d : Channel} (move : Move ctx (.packet p) c log [] d) :
      Posts c log d := .of_move move sound asked
  unfold onData
  split
  · next place => exact single (.acceptStart kind place)
  · next place =>
    have restart : Move ctx (.packet p) c _ [] _ := .restart kind place
    exact .andThen (.after restart sound asked rfl (.flush (restart.sound sound asked)))
      (posting_acceptStart asked.1 _)
  · next place =>
    cases idle : c.receiver.pendingReset with
    | none => exact single (.requestReset kind place idle)
    | some r =>
      rw [requestReset_pending idle]
      exact ⟨[], _, .refl c⟩
  · next place => exact single (.accept kind place)
  · next place => exact single (.keep kind place)
  · next place => exact single (.confirm kind (.inl place))
  · next place => exact single (.confirm kind (.inr (.inl place)))
  · next place => exact single (.confirm kind (.inr (.inr place)))
  · next place => exact single (.drop kind (.inl place))
  · next place => exact single (.drop kind (.inr place))

theorem posts_dispatch (ctx : Context) (sound : c.Sound) (asked : (Op.packet p).Sound c.key) :
    Posts c (c.dispatch ctx p).log (c.dispatch ctx p).value := by
  unfold dispatch
  split
  · next kind => exact posts_onData sound asked kind
  · next kind => exact posts_onAck sound asked kind
  · next kind => exact posts_onReset sound asked kind
  · next kind =>
    unfold onAckReset
    split
    · next pending =>
      have answered : Move ctx (.packet p) c _ [] _ := .resetAnswered kind pending
      exact .of_move answered sound asked
    · exact ⟨[], _, .refl c⟩
  · next kind => exact .of_move (.say (.ackPing kind)) sound asked
  · next kind => exact .of_move (.measure kind) sound asked

theorem posts_onPacket (ctx : Context) (sound : c.Sound) (asked : (Op.packet p).Sound c.key) :
    Posts c (c.onPacket ctx p).log (c.onPacket ctx p).value := by
  have hear : Move ctx (.packet p) c [] [] _ := .hear
  have dispatched := posts_dispatch ctx (hear.sound sound asked) asked
  have checked := Posts.andThen (f := checkConnected) dispatched (posting_checkConnected _)
  have heard := Posts.after hear sound asked rfl checked
  exact heard

end Packet

section Tick

theorem posting_tick (ctx : Context) (sound : c.Sound) :
    ∃ posted, Posting c (c.tick ctx).log [] posted c.sender.unacked.contents
      (c.tick ctx).value.1 :=
  (moves_tick ctx c).posting sound trivial nofun nofun

/-- A tick that gives up has done nothing but send packets again. -/
theorem tick_of_gone {reason : DisconnectReason} (gone : (c.tick ctx).value.2 = some reason) :
    let deadline := ctx.now + c.retransmitTimeout ctx.config
    let resent := (c.resendData ctx deadline).value.1
    (c.tick ctx).value.1 = c ∨ (c.tick ctx).value.1 = resent ∨
      (c.tick ctx).value.1 = (resent.resendReset ctx deadline).value.1 := by
  unfold tick at gone ⊢
  split at gone
  · next silent =>
    rw [if_pos silent]
    exact .inl rfl
  · next recent =>
    rw [if_neg recent]
    simp only [Logged.value_bind] at gone ⊢
    split at gone
    · next spent =>
      rw [if_pos spent]
      exact .inr (.inl rfl)
    · next live =>
      rw [if_neg live]
      simp only [Logged.value_bind] at gone ⊢
      split at gone
      · next spent =>
        rw [if_pos spent]
        exact .inr (.inr rfl)
      · cases gone

/-- A tick that gives up leaves the parked writes alone. -/
theorem parked_of_gone {reason : DisconnectReason} (gone : (c.tick ctx).value.2 = some reason) :
    (c.tick ctx).value.1.sender.parked = c.sender.parked := by
  rcases tick_of_gone gone with same | same | same <;> rw [same]
  · exact resendData_parked _ _
  · rw [resendReset_sender]
    exact resendData_parked _ _

theorem limit_of_gone {reason : DisconnectReason} (gone : (c.tick ctx).value.2 = some reason) :
    (c.tick ctx).value.1.sender.unacked.limit = c.sender.unacked.limit := by
  rcases tick_of_gone gone with same | same | same <;> rw [same]
  · exact resendData_limit _ _
  · rw [resendReset_sender]
    exact resendData_limit _ _

theorem posting_tick_of_gone (sound : c.Sound) {reason : DisconnectReason}
    (gone : (c.tick ctx).value.2 = some reason) :
    Posting c (c.tick ctx).log [] [] c.sender.unacked.contents (c.tick ctx).value.1 := by
  obtain ⟨posted, posting⟩ := posting_tick ctx sound
  have none : posted = [] :=
    List.eq_nil_of_length_eq_zero (posting.posted_length (parked_of_gone gone))
  rwa [none] at posting

end Tick

section Write

variable {w : ParkedWrite}

/-- Whether a channel takes another write in: it can be sent at once, or there is room to park it. -/
def HasRoom (c : Channel) (config : Config) : Prop :=
  c.sender.parked = [] ∧ c.sender.canSend = true ∨ c.sender.parked.length < config.maxWriteQueue

instance (c : Channel) (config : Config) : Decidable (c.HasRoom config) :=
  inferInstanceAs (Decidable (_ ∨ _))

theorem write_of_alive (alive : c.phase ≠ .closed) (w : ParkedWrite) :
    c.write ctx w = c.sendOrPark ctx w >>= checkConnected := if_neg alive

/-- A write for which there is room is sent or parked. -/
theorem sendOrPark_of_room (room : c.HasRoom ctx.config) (w : ParkedWrite) :
    c.sendOrPark ctx w = c.sendWrite ctx w ∨
      c.sendOrPark ctx w = pure { c with sender.parked := c.sender.parked ++ [w] } := by
  unfold sendOrPark
  split
  · exact .inl rfl
  · next later =>
    have below : c.sender.parked.length < ctx.config.maxWriteQueue := by
      rcases room with ⟨noneParked, sendable⟩ | below
      · simp [noneParked, sendable] at later
      · exact below
    exact .inr (if_pos below)

theorem not_refuses_write (alive : c.phase ≠ .closed) (room : c.HasRoom ctx.config)
    (w : ParkedWrite) : (c.write ctx w).log.any (Effect.refuses w.ticket) = false := by
  rw [write_of_alive alive, Logged.log_bind, List.any_append, checkConnected_refuses_nothing,
    Bool.or_false]
  rcases sendOrPark_of_room room w with same | same <;> rw [same] <;> rfl

theorem posting_write (ctx : Context) (sound : c.Sound) (alive : c.phase ≠ .closed)
    (room : c.HasRoom ctx.config) (short : w.payload.length ≤ 0xffff) :
    ∃ posted, Posting c (c.write ctx w).log [w] posted c.sender.unacked.contents
      (c.write ctx w).value := by
  have willing := not_refuses_write alive room w
  have moves := moves_write ctx c w
  rw [willing] at moves
  refine moves.posting sound short nofun fun v own error mem => ?_
  obtain rfl := Op.write.inj own
  have refused := List.any_eq_false.mp willing _ mem
  simp [Effect.refuses] at refused

theorem sendOrPark_of_full (full : ¬c.HasRoom ctx.config) (w : ParkedWrite) :
    c.sendOrPark ctx w = ⟨c, [.reply w.ticket (.error (.queueFull c.key))]⟩ := by
  have noRoom : ¬c.sender.parked.length < ctx.config.maxWriteQueue := fun room => full (.inr room)
  have later : (c.sender.parked.isEmpty && c.sender.canSend) = false := by
    refine Bool.eq_false_iff.mpr fun now => ?_
    obtain ⟨noneParked, room⟩ := Bool.and_eq_true_iff.mp now
    exact full (.inl ⟨List.isEmpty_iff.mp noneParked, room⟩)
  simp only [sendOrPark, later, Bool.false_eq_true, if_false, if_neg noRoom]

/-- A write that is not taken in is turned away at once, and nothing else is done with it. -/
theorem posting_write_of_full (ctx : Context) (alive : c.phase ≠ .closed)
    (full : ¬c.HasRoom ctx.config) (w : ParkedWrite) :
    ∃ log, (c.write ctx w).log = .reply w.ticket (.error (.queueFull c.key)) :: log ∧
      Posting c log [] [] c.sender.unacked.contents (c.write ctx w).value := by
  rw [write_of_alive alive, sendOrPark_of_full full]
  exact ⟨_, rfl, posting_checkConnected c⟩

end Write

section Destroy

/-- The answer to a write that is parked when its channel is destroyed. -/
def ParkedWrite.closedReply (key : Key) (w : ParkedWrite) : Nat × Except TransportError Nat :=
  (w.ticket, .error (.connectionClosed key))

theorem answers_destroy (c : Channel) (reason : DisconnectReason) :
    answers (c.destroy reason).log = c.sender.parked.map (ParkedWrite.closedReply c.key) := by
  have silent : answers (if c.phase = .connected then [.emit (.disconnected c.key reason)] else [])
      = [] := by
    split <;> rfl
  rw [destroy, answers_append, silent, List.append_nil]
  simp [answers, List.filterMap_map, Function.comp_def, Effect.reply?, ParkedWrite.closedReply]

end Destroy

theorem posting_ping (ctx : Context) (sound : c.Sound) :
    ∃ posted, Posting c (c.ping ctx).log [] posted c.sender.unacked.contents (c.ping ctx).value :=
  (moves_ping ctx c .ping (.inl rfl)).posting sound trivial nofun nofun

end ReliableDatagram.Channel
