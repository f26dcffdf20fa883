import ReliableDatagram.Proofs.Channel.Drafts
import ReliableDatagram.Proofs.Table.Turnover

/-!
# Everything a table sends is in order

In every run, whatever bytes come in, a datagram goes to the peer of the key that it is produced
for, and it carries a packet of the key's channel that every table can read.
-/

namespace ReliableDatagram.Table

open Channel

/-- The packet that a concern brings. -/
def Concern.heard? : Concern → Option Packet
  | .packet p => some p
  | _ => none

/-- The packet that a step brings to a key. -/
def heard? (t : Table) (key : Key) (op : Op) : Option Packet :=
  (t.concern? key op).bind Concern.heard?

/-- A packet that the peer of a key can be sent: it fits into the wire format, and no table that its
encoding reaches counts it as malformed. -/
structure Sendable (key : Key) (p : Packet) : Prop where
  channel : p.header.channel = key.channel
  channel_le : p.header.channel ≤ Packet.maxChannel
  payload_le : p.payload.length ≤ 0xffff
  id_eq : p.header.kind = .ping ∨ p.header.kind = .reset → p.header.id.raw = 0
  parses : Packet.parse p.encode = .ok p
  counted (t : Table) (now : Nat) (sender : SocketAddr) :
    (t.onDatagram now sender p.encode).value.malformedPackets = t.malformedPackets

/-- Between two steps. -/
structure Supplied (t : Table) : Prop where
  orderly : t.Orderly
  stocked : ∀ key c, t.find? key = some c → c.Stocked

/-- What a channel leaves behind and sends when it serves a concern. -/
structure Mails (key : Key) (timestamp : UInt32) (heard : Option Packet)
    (x : Logged Effect (Option Channel)) : Prop where
  stocked : ∀ c, x.value = some c → c.Stocked
  channel_le : ∀ e ∈ x.log, e.datagram?.isSome → key.channel ≤ Packet.maxChannel
  ships : ∀ e ∈ x.log, e.Ships key timestamp heard

variable {t : Table} {key : Key} {now : Nat} {op : Op} {ctx : Context} {p : Packet}

/-- Only datagrams that do not parse are counted. -/
theorem malformedPackets_of_parse {bytes : Bytes} (parsed : Packet.parse bytes = .ok p) (t : Table)
    (now : Nat) (sender : SocketAddr) :
    (t.onDatagram now sender bytes).value.malformedPackets = t.malformedPackets := by
  unfold onDatagram
  rw [parsed]
  dsimp only
  split
  · rfl
  · split <;> rfl

theorem sendable_of_draft {timestamp : UInt32} {heard : Option Packet}
    (draft : Draft key timestamp heard p) (channel_le : key.channel ≤ Packet.maxChannel)
    (known : ∀ q, heard = some q → q.WellFormed ∧ q.header.channel = key.channel) :
    Sendable key p := by
  have channel := draft.channel fun q same => (known q same).2
  have wellFormed := draft.wellFormed channel_le fun q same => (known q same).1
  have parses := Packet.parse_encode wellFormed
  refine ⟨channel, wellFormed.channel_le, wellFormed.length_le, fun request => ?_, parses,
    malformedPackets_of_parse parses⟩
  rw [draft.id_eq request]
  rfl

theorem Concern.Asks.heard?_eq {q : Concern} {cop : Channel.Op} (asks : q.Asks cop) :
    cop.heard? = q.heard? := by
  cases asks <;> rfl

theorem wellFormed_of_heard? (heard : t.heard? key op = some p) :
    p.WellFormed ∧ p.header.channel = key.channel := by
  obtain ⟨q, concerned, heard⟩ := Option.bind_eq_some_iff.mp heard
  cases q with
  | packet p' =>
    cases heard
    obtain ⟨_, _, parsed, channel⟩ := concern?_eq_packet concerned
    exact ⟨Packet.wellFormed_of_parse parsed, channel⟩
  | _ => cases heard

theorem mails_of_moves {c : Channel} {cop : Channel.Op} {x : Logged Effect Channel}
    {ws : List ParkedWrite} (moves : Moves ctx cop c x.log ws x.value) (sound : c.Sound)
    (asked : cop.Sound c.key) (stocked : c.Stocked) :
    Mails c.key ctx.timestamp cop.heard? (some <$> x) := by
  refine ⟨?_, fun _ _ _ => sound.channel_le, moves.ships sound asked stocked⟩
  rintro _ ⟨⟩
  exact moves.stocked sound asked stocked

theorem mails_of_leave {c c' : Channel} {log : List Effect} {reason : DisconnectReason}
    (moves : Moves ctx .tick c log [] c') (sound : c.Sound) (stocked : c.Stocked)
    (heard : Option Packet) :
    Mails c.key ctx.timestamp heard ⟨none, log ++ (c'.destroy reason).log⟩ := by
  refine ⟨nofun, fun _ _ _ => sound.channel_le, fun e logged => ?_⟩
  rcases List.mem_append.mp logged with said | gone
  · exact (moves.ships sound trivial stocked e said).of_none heard
  · exact .of_silent (datagram?_of_mem_destroy gone)

namespace Supplied

theorem empty (config : Config) (clock : Clock) : Supplied { config, clock } :=
  ⟨.empty config clock, fun key _ found => nomatch (find?_empty config clock key).symm.trans found⟩

theorem mails (supplied : t.Supplied) (inRange : op.InRange) (now : Nat) (key : Key) :
    Mails key (t.context now).timestamp (t.heard? key op) (t.part now key op) := by
  have still : Mails key (t.context now).timestamp (t.heard? key op) (pure (t.find? key)) :=
    ⟨supplied.stocked key, nofun, nofun⟩
  cases concerned : t.concern? key op with
  | none => rwa [part_of_unconcerned concerned]
  | some q =>
    have heard : t.heard? key op = q.heard? := by rw [heard?, concerned, Option.bind_some]
    rw [part_of_concerned concerned]
    rw [heard] at still ⊢
    have served := served_serve (t.context now) key t.nextGeneration (t.find? key) q
    generalize serve (t.context now) key t.nextGeneration (t.find? key) q = x at served ⊢
    cases served with
    | idle => exact still
    | refuse =>
      refine ⟨still.stocked, fun e logged datagram => ?_, fun e logged => ?_⟩
      · rcases List.mem_singleton.mp logged with rfl
        cases datagram
      · rcases List.mem_singleton.mp logged with rfl
        exact .of_silent rfl
    | act asks found moves =>
      obtain ⟨sound, rfl⟩ := supplied.orderly.own key _ found
      rw [← asks.heard?_eq]
      exact mails_of_moves moves sound (sound_of_asks concerned asks) (supplied.stocked _ _ found)
    | create asks opens missing moves =>
      have channel_le := channel_le_of_opens concerned (inRange.minds key) opens
      rw [← asks.heard?_eq]
      exact mails_of_moves moves (sound_create channel_le) (sound_of_asks concerned asks)
        (stocked_create _ _ _ _)
    | leave found moves =>
      obtain ⟨sound, rfl⟩ := supplied.orderly.own key _ found
      exact mails_of_leave moves sound (supplied.stocked _ _ found) _

theorem apply (supplied : t.Supplied) (inRange : op.InRange) (now : Nat) :
    (t.apply now op).value.Supplied := by
  refine ⟨supplied.orderly.apply inRange now, fun key c found => ?_⟩
  rw [find?_apply supplied.orderly.settled.order] at found
  exact (supplied.mails inRange now key).stocked c found

theorem run (ops : List (Nat × Op)) (supplied : t.Supplied)
    (inRange : ∀ step ∈ ops, step.2.InRange) : (Table.run ops t).value.Supplied := by
  induction ops generalizing t with
  | nil => exact supplied
  | cons step ops ih =>
    obtain ⟨first, later⟩ := List.forall_mem_cons.mp inRange
    exact ih (supplied.apply first step.1) later

end Supplied

/-- Over any run of a new table whose connects name channel numbers up to 15: what a step logs is what
it produces for the single keys. Each datagram that is produced for a key, a copy as well as a new one,
goes to the address of the key and carries a packet that is drafted for the key, and the packet is in
order. -/
theorem mail_in_order (config : Config) (clock : Clock) (ops : List (Nat × Op))
    (inRange : ∀ step ∈ ops, step.2.InRange) :
    ∀ before now op after, ops = before ++ (now, op) :: after →
      let t := (run before { config, clock }).value
      (∀ e, e ∈ (t.apply now op).log ↔ ∃ key, e ∈ (t.part now key op).log) ∧
        ∀ key, ∀ e ∈ (t.part now key op).log, e.datagram?.isSome →
          ∃ p, e.Carries key (t.context now).timestamp (t.heard? key op) p ∧
            e.datagram? = some (key.addr, p.encode) ∧ Sendable key p := by
  rintro before now op after rfl t
  obtain ⟨early, rest⟩ := List.forall_mem_append.mp inRange
  have supplied : t.Supplied := (Supplied.empty config clock).run before early
  have order := supplied.orderly.settled.order
  refine ⟨fun e => ⟨part_of_mem_log order, fun ⟨_, logged⟩ => mem_log_of_part logged⟩,
    fun key e logged datagram => ?_⟩
  have mails := supplied.mails (rest _ List.mem_cons_self) now key
  obtain ⟨p, carries⟩ := mails.ships e logged datagram
  obtain ⟨timestamp, draft⟩ := carries.draft
  exact ⟨p, carries, carries.datagram?,
    sendable_of_draft draft (mails.channel_le e logged datagram) fun q => wellFormed_of_heard?⟩

/-- A connect, a ping from the peer, a write, and data of a stream whose start was missed. Nothing is
acknowledged until the tick. -/
def unheard : List (Nat × Op) :=
  [(0, .request (.connect friend)),
    (0, .request (.datagram friend.addr (Packet.ping friend.channel 5 [1, 2]).encode)),
    (0, .request (.write friend 1 ⟨1, [9]⟩)),
    (0, .request (.datagram friend.addr (Packet.data friend.channel ⟨7⟩ 6 [3]).encode)),
    (second, .request .tick)]

/-- The tick sends the data and the request to start over again. -/
theorem mail_in_order_of_unheard :
    let t := (run (unheard.take 4) { config := {}, clock := ⟨0, 0⟩ }).value
    let log := (t.part second friend (.request .tick)).log
    (∀ step ∈ unheard, step.2.InRange) ∧
      log.map Effect.packet? =
        [some (.data friend.channel .streamStart 0 [9]), some (.reset friend.channel 0)] ∧
      ∀ e ∈ log, ∃ p, e.Carries friend (t.context second).timestamp none p ∧
        e.datagram? = some (friend.addr, p.encode) ∧ Sendable friend p := by
  intro t log
  have inRange : ∀ step ∈ unheard, step.2.InRange := by
    have channel_le : (3 : UInt8) ≤ Packet.maxChannel := by decide
    simp only [unheard, List.forall_mem_cons]
    exact ⟨channel_le, trivial, trivial, trivial, trivial, nofun⟩
  have sent : ∀ e ∈ log, e.datagram?.isSome := by
    have all : (log.all fun e => e.datagram?.isSome) = true := by decide +kernel
    simpa using all
  refine ⟨inRange, by decide +kernel, fun e logged => ?_⟩
  obtain ⟨_, mail⟩ := mail_in_order {} ⟨0, 0⟩ unheard inRange (unheard.take 4) second
    (.request .tick) [] rfl
  exact mail friend e logged (sent e logged)

end ReliableDatagram.Table
