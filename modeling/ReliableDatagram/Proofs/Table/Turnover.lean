import Mathlib.Data.List.Basic
import Mathlib.Tactic.Choose
import ReliableDatagram.Proofs.Channel.Posting
import ReliableDatagram.Proofs.Table.Lives
import ReliableDatagram.Proofs.Table.Separation

/-!
# What a step does with writes

The writes that wait in a channel, with the one that a step brings, are first posted in order, then
failed if the step destroys the channel, and wait on otherwise: `Turnover`. The answers of a step
are those to the writes that are posted, to those that fail, and to a write that is turned away.
-/

namespace ReliableDatagram

namespace Channel

/-- The writes that are parked in a channel, if there is one. -/
def parkedIn (c? : Option Channel) : List ParkedWrite :=
  (c?.map fun c => c.sender.parked).getD []

/-- The packets in the send queue of a channel, if there is one. -/
def heldIn (c? : Option Channel) : List (PacketId × Bytes) :=
  (c?.map fun c => c.sender.unacked.contents).getD []

/-- The writes that are parked in a channel when it is destroyed. -/
def failedIn (before after : Option Channel) : List ParkedWrite :=
  if after.isNone then parkedIn before else []

end Channel

namespace Table

open Channel

/-- The error with which a write to a channel, if there is one, is turned away at once. -/
def rejection? (config : Config) (key : Key) (c? : Option Channel) (w : ParkedWrite) :
    Option TransportError :=
  if config.maxPayloadLength < w.payload.length then
    some (.payloadTooLarge w.payload.length config.maxPayloadLength)
  else
    match c? with
    | none => some (.connectionClosed key)
    | some c => if c.HasRoom config then none else some (.queueFull key)

/-- The write that a step brings to the channel with a key and that is not turned away. -/
def taken (t : Table) (key : Key) : Op → List ParkedWrite
  | .request (.write k generation w) =>
    if k = key ∧ rejection? t.config key (t.live? key generation) w = none then [w] else []
  | _ => []

/-- The answer to a write that is turned away. -/
def rejections (t : Table) : Op → List (Nat × Except TransportError Nat)
  | .request (.write key generation w) =>
    (rejection? t.config key (t.live? key generation) w).toList.map fun error =>
      (w.ticket, .error error)
  | _ => []

/-- What becomes of the writes to a channel in a step: behind the parked ones comes the one that the
step brings, the first of them all are posted, and the others fail or wait. A packet with data is
sent just once as a new one. It goes into the send queue then, behind those that are kept, and all
other packets with data are copies from there. -/
structure Turnover (before after : Option Channel) (log : List Effect)
    (taken posted : List ParkedWrite) : Prop where
  mail : parkedIn before ++ taken = posted ++ failedIn before after ++ parkedIn after
  payloads : (launched log).map (·.payload) = posted.map (·.payload)
  sendQueue : ∃ kept, kept.Sublist (heldIn before) ∧ heldIn after = kept ++ queued (launched log)
  copies : ∀ p ∈ packets log, p.header.kind = .data →
    p ∈ launched log ∨ ∃ id, (id, p.encode) ∈ heldIn before

variable {t : Table} {key : Key} {now : Nat} {op : Op} {c c' : Channel} {log : List Effect}
  {taken' posted : List ParkedWrite} {kept : List (PacketId × Bytes)} {c? : Option Channel}
  {reason : DisconnectReason}

namespace Turnover

theorem still (c? : Option Channel) (silent : packets log = []) (first : launched log = []) :
    Turnover c? c? log [] [] := by
  refine ⟨?_, ?_, ⟨heldIn c?, .refl _, ?_⟩, ?_⟩
  · cases c? with
    | none => rfl
    | some c => exact List.append_nil _
  · rw [first]
    rfl
  · rw [first]
    exact (List.append_nil _).symm
  · rw [silent]
    nofun

theorem of_posting (posting : Posting c log taken' posted kept c') :
    Turnover (some c) (some c') log taken' posted := by
  refine ⟨?_, posting.payloads, ⟨kept, posting.old, posting.contents⟩, posting.again⟩
  have mail := posting.parked
  rwa [← List.append_nil posted] at mail

/-- A new channel has no parked writes and an empty send queue. -/
theorem of_new {generation : Nat} {config : Config}
    (posting : Posting (Channel.create key generation config now) log [] posted kept c') :
    Turnover none (some c') log [] posted := by
  obtain ⟨mail, payloads, sendQueue, copies⟩ := of_posting posting
  exact ⟨mail, payloads, sendQueue, copies⟩

theorem of_end (posting : Posting c log [] [] kept c') :
    Turnover (some c) none (log ++ (c'.destroy reason).log) [] [] := by
  have nothing := posting.launched_eq_nil
  refine ⟨?_, ?_, ⟨[], List.nil_sublist _, ?_⟩, ?_⟩
  · simp [failedIn, parkedIn]
  · rw [launched_append, nothing, launched_destroy]
    rfl
  · rw [launched_append, nothing, launched_destroy]
    rfl
  · rw [launched_append, packets_append, packets_destroy, nothing, launched_destroy,
      List.append_nil]
    intro p sent data
    have again := posting.again p sent data
    rw [nothing] at again
    exact again

end Turnover

/-- The answers of a channel in a step, to the writes that are posted and to those that fail. -/
def settlements (key : Key) (before after : Option Channel) (posted : List ParkedWrite) :
    List (Nat × Except TransportError Nat) :=
  posted.map ParkedWrite.sentReply ++
    (failedIn before after).map (ParkedWrite.closedReply key)

/-- What becomes of the writes to a channel, with the answers. -/
def Deals (key : Key) (before : Option Channel) (taken : List ParkedWrite)
    (rejected : List (Nat × Except TransportError Nat)) (x : Logged Effect (Option Channel))
    (posted : List ParkedWrite) : Prop :=
  Turnover before x.value x.log taken posted ∧
    answers x.log = settlements key before x.value posted ++ rejected

namespace Deals

variable {ctx : Context} {generation : Nat} {x : Logged Effect Channel}
  {rejected : List (Nat × Except TransportError Nat)}

theorem idle (key : Key) (c? : Option Channel) : Deals key c? [] [] (pure c?) [] := by
  refine ⟨.still c? rfl rfl, ?_⟩
  cases c? <;> rfl

theorem refuse (key : Key) (c? : Option Channel) (ticket : Nat) (error : TransportError) :
    Deals key c? [] [(ticket, .error error)] ⟨c?, [.reply ticket (.error error)]⟩ [] := by
  refine ⟨.still c? rfl rfl, ?_⟩
  cases c? <;> rfl

theorem of_posting (posting : Posting c x.log taken' posted kept x.value) :
    Deals key (some c) taken' [] (some <$> x) posted := by
  refine ⟨.of_posting posting, ?_⟩
  show answers x.log = posted.map ParkedWrite.sentReply ++ [] ++ []
  rw [posting.answered, List.append_nil, List.append_nil]

theorem of_new {config : Config}
    (posting : Posting (Channel.create key generation config now) x.log [] posted kept x.value) :
    Deals key none [] [] (some <$> x) posted := by
  have deals : Deals key _ [] [] (some <$> x) posted := of_posting posting
  exact ⟨.of_new posting, deals.2⟩

theorem of_end (own : c'.key = key) (same : c'.sender.parked = c.sender.parked)
    (posting : Posting c log [] [] kept c') :
    Deals key (some c) [] [] ⟨none, log ++ (c'.destroy reason).log⟩ [] := by
  refine ⟨.of_end posting, ?_⟩
  rw [answers_append, posting.answered, answers_destroy, own, same]
  exact (List.append_nil _).symm

end Deals

section Serve

variable {ctx : Context} {generation : Nat} {p : Packet} {w : ParkedWrite}

theorem deals_packet (own : ∀ c, c? = some c → c.Sound ∧ c.key = key) (wellFormed : p.WellFormed)
    (channel : p.header.channel = key.channel) :
    ∃ posted, Deals key c? [] [] (serve ctx key generation c? (.packet p)) posted := by
  cases c? with
  | some c =>
    obtain ⟨sound, rfl⟩ := own c rfl
    obtain ⟨posted, kept, posting⟩ := posts_onPacket ctx sound ⟨wellFormed, channel⟩
    exact ⟨posted, .of_posting posting⟩
  | none =>
    simp only [serve]
    split
    · have sound : (Channel.create key generation ctx.config ctx.now).Sound :=
        sound_create (channel ▸ wellFormed.channel_le)
      obtain ⟨posted, kept, posting⟩ := posts_onPacket ctx sound ⟨wellFormed, channel⟩
      exact ⟨posted, .of_new posting⟩
    · exact ⟨[], .idle key none⟩

theorem deals_connect (channel_le : key.channel ≤ Packet.maxChannel) (c? : Option Channel) :
    ∃ posted, Deals key c? [] [] (serve ctx key generation c? .connect) posted := by
  cases c? with
  | some c => exact ⟨[], .idle key (some c)⟩
  | none =>
    have sound : (Channel.create key generation ctx.config ctx.now).Sound :=
      sound_create channel_le
    obtain ⟨posted, posting⟩ := posting_ping ctx sound
    exact ⟨posted, .of_new posting⟩

theorem deals_end (c : Channel) (reason : DisconnectReason) :
    Deals c.key (some c) [] [] ⟨none, (c.destroy reason).log⟩ [] :=
  .of_end rfl rfl (.refl c)

theorem deals_tick (own : ∀ c, c? = some c → c.Sound ∧ c.key = key) :
    ∃ posted, Deals key c? [] [] (serve ctx key generation c? .tick) posted := by
  cases c? with
  | none => exact ⟨[], .idle key none⟩
  | some c =>
    obtain ⟨sound, rfl⟩ := own c rfl
    show ∃ posted, Deals c.key (some c) [] [] (tickOne ctx c) posted
    cases outcome : (c.tick ctx).value.2 with
    | none =>
      obtain ⟨posted, posting⟩ := posting_tick ctx sound
      rw [tickOne_kept outcome]
      exact ⟨posted, .of_posting (x := ⟨_, _⟩) posting⟩
    | some reason =>
      rw [tickOne_gone outcome]
      exact ⟨[], .of_end (key_tick ctx c) (parked_of_gone outcome)
        (posting_tick_of_gone sound outcome)⟩

end Serve

/-- What callers make sure of: connects name a channel number that packets can carry. -/
def Op.InRange : Op → Prop
  | .request (.connect key) => key.channel ≤ Packet.maxChannel
  | _ => True

/-- Between two steps. -/
structure Orderly (t : Table) : Prop where
  settled : t.Settled
  sound : ∀ key c, t.find? key = some c → c.Sound

theorem Op.InRange.minds (inRange : op.InRange) (key : Key) : op.Minds key fun _ => false := by
  cases op with
  | shutdown reason => trivial
  | request r =>
    cases r with
    | connect k => exact inRange
    | write k generation w => exact fun _ => rfl
    | _ => trivial

namespace Orderly

theorem empty (config : Config) (clock : Clock) : Orderly { config, clock } :=
  ⟨settled_empty config clock,
    fun key _ found => (nomatch (find?_empty config clock key).symm.trans found)⟩

theorem apart (orderly : t.Orderly) (key : Key) : t.Apart key fun _ => false :=
  ⟨orderly.settled.order, orderly.sound, fun _ _ _ _ _ _ => rfl⟩

theorem apply (orderly : t.Orderly) (inRange : op.InRange) (now : Nat) :
    (t.apply now op).value.Orderly := by
  refine ⟨settled_apply orderly.settled now op, fun key => ?_⟩
  exact ((orderly.apart key).apply (inRange.minds key) now).sound key

theorem run (ops : List (Nat × Op)) (orderly : t.Orderly)
    (inRange : ∀ step ∈ ops, step.2.InRange) : (Table.run ops t).value.Orderly := by
  induction ops generalizing t with
  | nil => exact orderly
  | cons step ops ih =>
    obtain ⟨first, later⟩ := List.forall_mem_cons.mp inRange
    exact ih (orderly.apply first step.1) later

theorem own (orderly : t.Orderly) (key : Key) :
    ∀ c, t.find? key = some c → c.Sound ∧ c.key = key :=
  fun c found => ⟨orderly.sound key c found, (mem_of_find? found).2⟩

end Orderly

theorem part_write (t : Table) (now : Nat) (key : Key) (generation : Nat) (w : ParkedWrite) :
    t.part now key (.request (.write key generation w)) =
      if t.config.maxPayloadLength < w.payload.length then
        ⟨t.find? key,
          [.reply w.ticket (.error (.payloadTooLarge w.payload.length t.config.maxPayloadLength))]⟩
      else
        match t.live? key generation with
        | some c => some <$> c.write (t.context now) w
        | none => ⟨t.find? key, [.reply w.ticket (.error (.connectionClosed key))]⟩ := by
  simp only [part, concern?, if_true, serve, filter_find?]
  rfl

theorem deals_write (orderly : t.Orderly) (now : Nat) (key : Key) (generation : Nat)
    (w : ParkedWrite) :
    ∃ posted, Deals key (t.find? key) (t.taken key (.request (.write key generation w)))
      (t.rejections (.request (.write key generation w)))
      (t.part now key (.request (.write key generation w))) posted := by
  rw [part_write]
  simp only [taken, rejections, rejection?, true_and]
  by_cases long : t.config.maxPayloadLength < w.payload.length
  · simp only [if_pos long]
    exact ⟨[], .refuse _ _ _ _⟩
  · simp only [if_neg long]
    cases live : t.live? key generation with
    | none => exact ⟨[], .refuse _ _ _ _⟩
    | some c =>
      have found := find?_of_live? live
      have alive := (orderly.settled.channels key c found).alive
      obtain ⟨sound, own⟩ := orderly.own key c found
      dsimp only
      rw [found]
      by_cases room : c.HasRoom t.config
      · have short : w.payload.length ≤ 0xffff :=
          Nat.le_trans (Nat.le_of_not_lt long) (maxPayloadLength_le t.config)
        obtain ⟨posted, posting⟩ := posting_write (t.context now) sound alive room short
        simp only [if_pos room]
        exact ⟨posted, .of_posting posting⟩
      · obtain ⟨log, logged, posting⟩ := posting_write_of_full (t.context now) alive room w
        simp only [if_neg room]
        refine ⟨[], ?_, ?_⟩
        · show Turnover (some c) (some (c.write _ w).value) (c.write (t.context now) w).log [] []
          obtain ⟨mail, payloads, sendQueue, copies⟩ := Turnover.of_posting posting
          rw [logged]
          exact ⟨mail, payloads, sendQueue, copies⟩
        · show answers (c.write (t.context now) w).log = [(w.ticket, .error (.queueFull key))]
          rw [logged, ← own]
          exact congrArg (_ :: ·) posting.answered

theorem nothing_of_other (other : ∀ generation w, op ≠ .request (.write key generation w)) :
    t.taken key op = [] ∧ (if op.target? = some key then t.rejections op else []) = [] := by
  cases op with
  | shutdown reason => exact ⟨rfl, ite_self []⟩
  | request r =>
    cases r with
    | write k generation w =>
      have apart : k ≠ key := fun same => other generation w (same ▸ rfl)
      exact ⟨if_neg fun both => apart both.1, if_neg fun target => apart (Option.some.inj target)⟩
    | _ => exact ⟨rfl, ite_self []⟩

theorem deals_of_concern {q : Concern} (orderly : t.Orderly) (inRange : op.InRange) (now : Nat)
    (concerned : t.concern? key op = some q) (other : ∀ generation w,
      op ≠ .request (.write key generation w)) :
    ∃ posted, Deals key (t.find? key) [] []
      (serve (t.context now) key t.nextGeneration (t.find? key) q) posted := by
  have own := orderly.own key
  cases q with
  | packet p =>
    obtain ⟨_, _, parsed, channel⟩ := concern?_eq_packet concerned
    exact deals_packet own (Packet.wellFormed_of_parse parsed) channel
  | connect =>
    rw [concern?_eq_connect concerned] at inRange
    exact deals_connect inRange _
  | write current w =>
    obtain ⟨generation, same⟩ := concern?_eq_write concerned
    exact absurd same (other generation w)
  | close current =>
    simp only [serve]
    cases live : (t.find? key).filter fun _ => current with
    | none => exact ⟨[], .idle key _⟩
    | some c =>
      have found := (Option.filter_eq_some_iff.mp live).1
      obtain rfl := (own c found).2
      rw [found]
      exact ⟨[], deals_end c .closed⟩
  | tick => exact deals_tick own
  | shutdown reason =>
    cases found : t.find? key with
    | none => exact ⟨[], .idle key none⟩
    | some c =>
      obtain rfl := (own c found).2
      exact ⟨[], deals_end c reason⟩

/-- What a step does with the writes to a key. -/
theorem deals_part (orderly : t.Orderly) (inRange : op.InRange) (now : Nat) (key : Key) :
    ∃ posted, Deals key (t.find? key) (t.taken key op)
      (if op.target? = some key then t.rejections op else []) (t.part now key op) posted := by
  by_cases asked : ∃ generation w, op = .request (.write key generation w)
  · obtain ⟨generation, w, rfl⟩ := asked
    have target : (Op.request (.write key generation w)).target? = some key := rfl
    rw [if_pos target]
    exact deals_write orderly now key generation w
  · have other : ∀ generation w, op ≠ .request (.write key generation w) :=
      fun generation w same => asked ⟨generation, w, same⟩
    obtain ⟨none, silent⟩ := nothing_of_other (t := t) other
    rw [none, silent]
    cases concerned : t.concern? key op with
    | none =>
      rw [part_of_unconcerned concerned]
      exact ⟨[], .idle key _⟩
    | some q =>
      rw [part_of_concerned concerned]
      exact deals_of_concern orderly inRange now concerned other

section Log

/-- What is sent to the peer of a key with its channel number. -/
def sentTo (key : Key) (log : List Effect) : List Effect := log.filter (Effect.isPacketTo key)

theorem filterMap_sentTo {α : Type} {f : Effect → Option α}
    (blind : ∀ e, e.datagram? = none → f e = none) (speaks : ∀ e ∈ log, e.Speaks key) :
    (sentTo key log).filterMap f = log.filterMap f := by
  rw [sentTo, List.filterMap_filter]
  refine List.filterMap_congr fun e logged => ?_
  split
  · rfl
  · next foreign =>
    refine (blind e ?_).symm
    refine Option.not_isSome_iff_eq_none.mp fun datagram => foreign ?_
    exact (speaks e logged).isPacketTo datagram

theorem packets_sentTo (speaks : ∀ e ∈ log, e.Speaks key) :
    packets (sentTo key log) = packets log :=
  filterMap_sentTo (fun _ => Effect.packet?_eq_none) speaks

theorem launched_sentTo (speaks : ∀ e ∈ log, e.Speaks key) :
    launched (sentTo key log) = launched log := by
  rw [launched, filterMap_sentTo (fun _ => Effect.launch?_eq_none) speaks, launched]

theorem sentTo_apply (orderly : t.Orderly) (inRange : op.InRange) (now : Nat) (key : Key) :
    sentTo key (t.apply now op).log = sentTo key (t.part now key op).log := by
  refine filter_apply orderly.settled.order fun k other e logged => ?_
  exact (((orderly.apart k).own (inRange.minds k) now k).speaks e logged).not_isPacketTo other

/-- A step that is not about one key has each channel do its part, in key order. -/
theorem log_of_untargeted (order : t.Ordered) (target : op.target? = none) :
    (t.apply now op).log = t.channels.flatMap fun c => (t.part now c.key op).log := by
  have found (c : Channel) (mem : c ∈ t.channels) : t.find? c.key = some c :=
    find?_of_mem order.keys mem
  cases op with
  | shutdown reason =>
    refine List.flatMap_congr fun c mem => ?_
    simp only [part, concern?, serve, found c mem]
    rfl
  | request r =>
    cases r with
    | datagram sender bytes =>
      cases parsed : Packet.parse bytes with
      | ok p => simp [Op.target?, parsed] at target
      | error _ => simp [apply, perform, onDatagram, part, concern?, parsed]
    | tick =>
      show (tickAll (t.context now) t.channels).log = _
      rw [log_tickAll]
      refine List.flatMap_congr fun c mem => ?_
      simp only [part, concern?, serve, found c mem]
    | stats | channelStats => simp [apply, perform, part, concern?]
    | _ => cases target

end Log

/-- Of the keys of a table only one counts. -/
theorem flatMap_of_key {α : Type} (order : t.Ordered) {F : Key → List α} {key : Key}
    (others : ∀ k ≠ key, F k = []) (missing : t.find? key = none → F key = []) :
    (t.channels.flatMap fun c => F c.key) = F key := by
  cases found : t.find? key with
  | none =>
    rw [missing found]
    refine List.flatMap_eq_nil_iff.mpr fun c _ => ?_
    by_cases same : c.key = key
    · rw [same, missing found]
    · exact others c.key same
  | some c =>
    obtain ⟨mem, rfl⟩ := mem_of_find? found
    obtain ⟨before, after, split⟩ := List.append_of_mem mem
    have keys := order.keys
    rw [split] at keys ⊢
    obtain ⟨_, tail, apart⟩ := List.pairwise_append.mp keys
    have early : (before.flatMap fun c => F c.key) = [] := List.flatMap_eq_nil_iff.mpr fun d mem =>
      others d.key (apart d mem c List.mem_cons_self)
    have late : (after.flatMap fun c => F c.key) = [] := List.flatMap_eq_nil_iff.mpr fun d mem =>
      others d.key ((List.pairwise_cons.mp tail).1 d mem).symm
    rw [List.flatMap_append, List.flatMap_cons, early, late, List.append_nil, List.nil_append]

theorem failedIn_self (c? : Option Channel) : failedIn c? c? = [] := by
  cases c? <;> rfl

theorem taken_of_missing (missing : t.find? key = none) (op : Op) : t.taken key op = [] := by
  cases op with
  | shutdown reason => rfl
  | request r =>
    cases r with
    | write k generation w =>
      refine if_neg fun ⟨_, accepted⟩ => ?_
      rw [live?_of_missing missing, rejection?] at accepted
      split at accepted <;> cases accepted
    | _ => rfl

/-- Where no channel is, nothing is posted and nothing fails. -/
theorem Turnover.settlements_of_missing {after : Option Channel}
    (turnover : Turnover none after log [] posted) : settlements key none after posted = [] := by
  have failed : failedIn none after = [] := by cases after <;> rfl
  have mail : [] = posted ++ failedIn none after ++ parkedIn after := turnover.mail
  rw [failed, List.append_nil] at mail
  rw [settlements, (List.append_eq_nil_iff.mp mail.symm).1, failed]
  rfl

theorem Turnover.settlements_of_still (turnover : Turnover c? c? [] taken' posted) :
    settlements key c? c? posted = [] := by
  have none : posted = [] := List.map_eq_nil_iff.mp turnover.payloads.symm
  rw [settlements, none, failedIn_self]
  rfl

theorem answers_flatMap (channels : List Channel) (log : Channel → List Effect) :
    answers (channels.flatMap log) = channels.flatMap fun c => answers (log c) :=
  List.filterMap_flatMap

/-- The answers of a step are those of the channels' parts in it, in key order, and the one to a
write that is turned away. -/
theorem answers_apply {posted : Key → List ParkedWrite} (order : t.Ordered)
    (deals : ∀ key, Deals key (t.find? key) (t.taken key op)
      (if op.target? = some key then t.rejections op else []) (t.part now key op) (posted key)) :
    answers (t.apply now op).log = (t.channels.flatMap fun c =>
      settlements c.key (t.find? c.key) (t.part now c.key op).value (posted c.key)) ++
        t.rejections op := by
  cases target : op.target? with
  | some key =>
    have others (k : Key) (other : k ≠ key) :
        settlements k (t.find? k) (t.part now k op).value (posted k) = [] := by
      obtain ⟨turnover, _⟩ := deals k
      rw [part_of_unconcerned (concern?_of_target target other.symm)] at turnover ⊢
      exact turnover.settlements_of_still
    have missing (missing : t.find? key = none) :
        settlements key (t.find? key) (t.part now key op).value (posted key) = [] := by
      obtain ⟨turnover, _⟩ := deals key
      rw [missing, taken_of_missing missing] at turnover
      rw [missing]
      exact turnover.settlements_of_missing
    rw [log_of_target target, (deals key).2, if_pos target, flatMap_of_key order others missing]
  | none =>
    have silent : t.rejections op = [] := by
      cases op with
      | shutdown reason => rfl
      | request r =>
        cases r with
        | write => cases target
        | _ => rfl
    rw [log_of_untargeted order target, answers_flatMap, silent, List.append_nil]
    refine List.flatMap_congr fun c _ => ?_
    rw [(deals c.key).2, if_neg (by simp [target]), List.append_nil]

/-- What a step does with the writes to all keys, with all its answers. -/
theorem deals_apply (orderly : t.Orderly) (inRange : op.InRange) (now : Nat) :
    let x := t.apply now op
    ∃ posted : Key → List ParkedWrite,
      (∀ key, Turnover (t.find? key) (x.value.find? key) (sentTo key x.log) (t.taken key op)
        (posted key)) ∧
      answers x.log = (t.channels.flatMap fun c =>
        settlements c.key (t.find? c.key) (x.value.find? c.key) (posted c.key)) ++
          t.rejections op := by
  intro x
  choose posted deals using deals_part orderly inRange now
  have value (key : Key) : x.value.find? key = (t.part now key op).value :=
    find?_apply orderly.settled.order now op key
  refine ⟨posted, fun key => ?_, ?_⟩
  · obtain ⟨⟨mail, payloads, sendQueue, copies⟩, _⟩ := deals key
    have speaks := ((orderly.apart key).own (inRange.minds key) now key).speaks
    rw [value, sentTo_apply orderly inRange]
    rw [← packets_sentTo speaks, ← launched_sentTo speaks] at copies
    rw [← launched_sentTo speaks] at payloads sendQueue
    exact ⟨mail, payloads, sendQueue, copies⟩
  · simp only [value]
    exact answers_apply orderly.settled.order deals

end Table

end ReliableDatagram
