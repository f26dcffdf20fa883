import ReliableDatagram.Proofs.Channel.Sizes
import ReliableDatagram.Proofs.Packet.Grammar
import ReliableDatagram.Proofs.Packet.Label
import ReliableDatagram.Proofs.Table.Deeds

/-!
# The configured size of datagrams

A table turns writes away that do not fit into datagrams of the configured size, and it answers a
packet with none that is longer. Hence it keeps to the size as long as its peers do, but for the
pings that its channels make up. There are configurations without room for these, and a peer with
the same configuration cannot read them: `size_respected_iff`.
-/

namespace ReliableDatagram

open Channel

/-- How many bytes a channel's own pings have, which is sixteen. -/
def Channel.pingSize : Nat := Packet.Header.size + pingPayload.length

/-- What an end point with this configuration gets of a datagram: its buffer holds no more. -/
def Config.received (config : Config) (bytes : Bytes) : Bytes := bytes.take config.maxDatagramSize

theorem Config.header_lt_of_valid {config : Config} (valid : config.validate = .ok ()) :
    Packet.Header.size < config.maxDatagramSize := by
  unfold Config.validate at valid
  split at valid
  · cases valid
  · next room => exact Nat.lt_of_not_le room

/-- With its header, an accepted payload is no longer than a datagram may be. -/
theorem Config.size_add_le {config : Config} (room : Packet.Header.size < config.maxDatagramSize)
    {payload : Bytes} (fits : payload.length ≤ config.maxPayloadLength) :
    Packet.Header.size + payload.length ≤ config.maxDatagramSize := by
  have bound : config.maxPayloadLength ≤ config.maxDatagramSize - Packet.Header.size := by
    rw [Config.maxPayloadLength, Config.payloadRoom?, if_neg (Nat.not_lt_of_lt room)]
    exact Nat.min_le_left _ _
  omega

section Ping

variable {key : Key} {d : SocketAddr × Bytes}

theorem grammatical_of_isOwnPing (own : IsOwnPing key d) : Packet.Grammatical d.2 := by
  obtain ⟨timestamp, rfl⟩ := own
  let ping := Packet.ping key.channel timestamp pingPayload
  have wellFormed : Packet.WellFormed ⟨ping.header.narrowed, ping.payload⟩ :=
    ⟨ping.header.narrowed_channel_le, rfl, nofun⟩
  have parsed := Packet.parse_encode wellFormed
  rw [Packet.encode, Packet.Header.encode_narrowed] at parsed
  exact Packet.grammatical_of_parse parsed

/-- A ping that is longer than a datagram may be does not reach a peer with the same configuration. -/
theorem not_parses_of_isOwnPing (own : IsOwnPing key d) {config : Config}
    (long : config.maxDatagramSize < pingSize) :
    ∃ error, Packet.parse (config.received d.2) = .error error := by
  have cut : config.maxDatagramSize < d.2.length := by rwa [length_of_isOwnPing own]
  cases parsed : Packet.parse (config.received d.2) with
  | error error => exact ⟨error, rfl⟩
  | ok p =>
    have grammatical := Packet.grammatical_of_parse parsed
    exact absurd grammatical ((grammatical_of_isOwnPing own).not_take cut)

end Ping

namespace Table

variable {t : Table} {key : Key} {generation limit : Nat} {c? : Option Channel} {q : Concern}
  {op : Op}

/-- A step brings no datagram that is longer. -/
def Op.Short (limit : Nat) : Op → Prop
  | .request (.datagram _ bytes) => bytes.length ≤ limit
  | _ => True

/-- A concern brings no packet that takes a longer datagram; writes are looked at by the table. -/
def Concern.Short (limit : Nat) : Concern → Prop
  | .packet p => p.encode.length ≤ limit
  | _ => True

/-- The channel with a key, if it is there after a part of a step, holds nothing longer, and nothing
longer is sent in this part. -/
structure ShortPart (limit : Nat) (key : Key) (x : Logged Effect (Option Channel)) : Prop where
  channel : ∀ c, x.value = some c → c.Short limit
  log : ∀ e ∈ x.log, e.Short limit key

theorem shortPart_refusal (fits : ∀ c, c? = some c → c.Short limit) (ticket : Nat)
    (error : TransportError) : ShortPart limit key ⟨c?, [.reply ticket (.error error)]⟩ := by
  refine ⟨fits, fun e logged => ?_⟩
  rcases List.mem_singleton.mp logged with rfl
  exact short_of_silent rfl

theorem shortPart_of_moves {c : Channel} {cop : Channel.Op} {x : Logged Effect Channel}
    {ws : List ParkedWrite} (moves : Moves ctx cop c x.log ws x.value)
    (room : Packet.Header.size ≤ limit) (asked : cop.Short limit) (fits : c.Short limit) :
    ShortPart limit c.key (some <$> x) := by
  refine ⟨?_, moves.short_log room asked fits⟩
  rintro _ ⟨⟩
  exact moves.short room asked fits

theorem shortPart_serve (ctx : Context) (room : Packet.Header.size < ctx.config.maxDatagramSize)
    (own : ∀ c, c? = some c → c.key = key ∧ c.Short ctx.config.maxDatagramSize)
    (brought : q.Short ctx.config.maxDatagramSize) :
    ShortPart ctx.config.maxDatagramSize key (serve ctx key generation c? q) := by
  have fits (c : Channel) (found : c? = some c) := (own c found).2
  by_cases long : ∃ current w, q = .write current w ∧ ctx.config.maxPayloadLength < w.payload.length
  · obtain ⟨current, w, rfl, long⟩ := long
    simp only [serve, if_pos long]
    exact shortPart_refusal fits _ _
  · have asked {cop : Channel.Op} (asks : q.Asks cop) : cop.Short ctx.config.maxDatagramSize := by
      cases asks with
      | packet => exact brought
      | @write current w =>
        exact Config.size_add_le room (Nat.le_of_not_lt fun big => long ⟨current, w, rfl, big⟩)
      | _ => trivial
    have served := served_serve ctx key generation c? q
    generalize serve ctx key generation c? q = x at served ⊢
    cases served with
    | idle => exact ⟨fits, List.forall_mem_nil _⟩
    | refuse => exact shortPart_refusal fits _ _
    | act asks found moves =>
      obtain ⟨rfl, fits⟩ := own _ found
      exact shortPart_of_moves moves (Nat.le_of_lt room) (asked asks) fits
    | create asks opens missing moves =>
      exact shortPart_of_moves moves (Nat.le_of_lt room) (asked asks) (short_create ..)
    | @leave _ c c' log reason found moves =>
      obtain ⟨rfl, fits⟩ := own _ found
      constructor
      · intro c kept
        cases kept
      · intro e logged
        rcases List.mem_append.mp logged with said | gone
        · exact moves.short_log (Nat.le_of_lt room) trivial fits e said
        · rcases mem_destroy_log gone with ⟨w, _, rfl⟩ | rfl <;> exact short_of_silent rfl

theorem shortPart_of_step (room : Packet.Header.size < t.config.maxDatagramSize)
    (fits : ∀ key c, t.find? key = some c → c.Short t.config.maxDatagramSize)
    (asked : op.Short t.config.maxDatagramSize) (now : Nat) (key : Key) :
    ShortPart t.config.maxDatagramSize key (t.part now key op) := by
  cases concerned : t.concern? key op with
  | none =>
    rw [part_of_unconcerned concerned]
    exact ⟨fits key, nofun⟩
  | some q =>
    rw [part_of_concerned concerned]
    refine shortPart_serve (t.context now) room (fun c found => ?_) ?_
    · exact ⟨(mem_of_find? found).2, fits key c found⟩
    · cases q with
      | packet p =>
        obtain ⟨bytes, rfl, parsed, _⟩ := concern?_eq_packet concerned
        show p.encode.length ≤ _
        rwa [Packet.encode_of_parse parsed]
      | _ => trivial

theorem short_apply (order : t.Ordered) (room : Packet.Header.size < t.config.maxDatagramSize)
    (fits : ∀ key c, t.find? key = some c → c.Short t.config.maxDatagramSize)
    (asked : op.Short t.config.maxDatagramSize) (now : Nat) :
    (∀ key c, (t.apply now op).value.find? key = some c → c.Short t.config.maxDatagramSize) ∧
      ∀ e ∈ (t.apply now op).log, ∃ key, e.Short t.config.maxDatagramSize key := by
  refine ⟨fun key c found => ?_, fun e logged => ?_⟩
  · rw [find?_apply order] at found
    exact (shortPart_of_step room fits asked now key).channel c found
  · obtain ⟨key, logged⟩ := part_of_mem_log order logged
    exact ⟨key, (shortPart_of_step room fits asked now key).log e logged⟩

theorem short_run (ops : List (Nat × Op)) (order : t.Ordered)
    (room : Packet.Header.size < t.config.maxDatagramSize)
    (fits : ∀ key c, t.find? key = some c → c.Short t.config.maxDatagramSize)
    (asked : ∀ step ∈ ops, step.2.Short t.config.maxDatagramSize) :
    ∀ e ∈ (run ops t).log, ∃ key, e.Short t.config.maxDatagramSize key := by
  induction ops generalizing t with
  | nil => nofun
  | cons step ops ih =>
    obtain ⟨now, op⟩ := step
    obtain ⟨first, later⟩ := List.forall_mem_cons.mp asked
    obtain ⟨held, sent⟩ := short_apply order room fits first now
    have config := (setup_apply t now op).1
    intro e logged
    rcases List.mem_append.mp logged with here | there
    · exact sent e here
    · rw [← config] at room held later ⊢
      exact ih (ordered_apply order now op) room held later e there

/-- The datagrams of a run, in order. -/
def sentIn (config : Config) (clock : Clock) (ops : List (Nat × Op)) : List (SocketAddr × Bytes) :=
  (run ops { config, clock }).log.filterMap Effect.datagram?

/-- The first thing that a table does to connect is to send a ping. -/
theorem isOwnPing_of_connect (config : Config) (clock : Clock) (now : Nat) (key : Key) :
    ∃ d ∈ sentIn config clock [(now, .request (.connect key))], IsOwnPing key d :=
  ⟨_, List.mem_cons_self, _, rfl⟩

variable {config : Config}

/-- In every run of a new table with a valid configuration that brings it no datagram longer than
configured, it sends longer ones just if sixteen bytes are too many, and these are pings that its
channels make up. A peer with the same configuration cannot read what it gets of them; everything
else reaches it whole. -/
theorem size_respected_iff (valid : config.validate = .ok ()) (clock : Clock) :
    (∀ ops, (∀ step ∈ ops, step.2.Short config.maxDatagramSize) →
      ∀ d ∈ sentIn config clock ops,
        d.2.length ≤ config.maxDatagramSize ∧ config.received d.2 = d.2 ∨
          config.maxDatagramSize < pingSize ∧ (∃ key, IsOwnPing key d) ∧
            ∃ error, Packet.parse (config.received d.2) = .error error) ∧
    ((∀ ops, (∀ step ∈ ops, step.2.Short config.maxDatagramSize) →
      ∀ d ∈ sentIn config clock ops, d.2.length ≤ config.maxDatagramSize) ↔
        pingSize ≤ config.maxDatagramSize) := by
  have room := Config.header_lt_of_valid valid
  have sizes (ops : List (Nat × Op)) (asked : ∀ step ∈ ops, step.2.Short config.maxDatagramSize)
      (d : SocketAddr × Bytes) (sent : d ∈ sentIn config clock ops) :
      d.2.length ≤ config.maxDatagramSize ∨ ∃ key, IsOwnPing key d := by
    obtain ⟨e, logged, datagram⟩ := List.mem_filterMap.mp sent
    obtain ⟨key, fits⟩ := short_run ops (ordered_empty config clock) room nofun asked e logged
    exact (fits d datagram).imp_right fun own => ⟨key, own⟩
  refine ⟨fun ops asked d sent => ?_, ⟨fun respected => ?_, fun enough ops asked d sent => ?_⟩⟩
  · by_cases short : d.2.length ≤ config.maxDatagramSize
    · exact .inl ⟨short, List.take_of_length_le short⟩
    · obtain long | ⟨key, own⟩ := sizes ops asked d sent
      · exact absurd long short
      · have few : config.maxDatagramSize < pingSize := by
          rw [length_of_isOwnPing own] at short
          exact Nat.lt_of_not_le short
        exact .inr ⟨few, ⟨key, own⟩, not_parses_of_isOwnPing own few⟩
  · obtain ⟨d, sent, own⟩ := isOwnPing_of_connect config clock 0 ⟨⟨.v4 1, 1⟩, 1⟩
    have short := respected [(0, .request (.connect ⟨⟨.v4 1, 1⟩, 1⟩))]
      (fun step mem => by rcases List.mem_singleton.mp mem with rfl; trivial) d sent
    rwa [length_of_isOwnPing own] at short
  · obtain short | ⟨key, own⟩ := sizes ops asked d sent
    · exact short
    · rw [length_of_isOwnPing own]
      exact enough

/-- Room for one byte of payload. -/
def tight : Config := { maxDatagramSize := 13 }

/-- A ping, a write of one byte and the acknowledgement of one that comes in. -/
def tightRun : List (Nat × Op) :=
  let key : Key := ⟨⟨.v4 1, 1⟩, 1⟩
  [(0, .request (.connect key)), (0, .request (.write key 1 ⟨0, [1]⟩)),
    (0, .request (.datagram key.addr (Packet.data 1 .streamStart 0 [7]).encode))]

theorem short_tightRun : ∀ step ∈ tightRun, step.2.Short tight.maxDatagramSize := by
  simp [tightRun, tight, Op.Short, Packet.Header.size, Packet.data, Packet.make]

theorem size_respected_iff_of_tight : tight.validate = .ok () ∧
    (sentIn tight ⟨0, 0⟩ tightRun).map (·.2.length) = [16, 13, 12] ∧
    ∀ d ∈ sentIn tight ⟨0, 0⟩ tightRun, d.2.length ≤ 13 ∧ tight.received d.2 = d.2 ∨
      13 < pingSize ∧ (∃ key, IsOwnPing key d) ∧
        ∃ error, Packet.parse (tight.received d.2) = .error error :=
  ⟨rfl, by decide +kernel, (size_respected_iff rfl ⟨0, 0⟩).1 tightRun short_tightRun⟩

/-- A valid configuration may be too tight for a ping. -/
theorem not_size_respected_of_ping : ¬∀ (config : Config) (clock : Clock) (ops : List (Nat × Op)),
    config.validate = .ok () → (∀ step ∈ ops, step.2.Short config.maxDatagramSize) →
      ∀ d ∈ sentIn config clock ops, d.2.length ≤ config.maxDatagramSize := by
  intro respected
  have long : ∃ d ∈ sentIn tight ⟨0, 0⟩ tightRun, tight.maxDatagramSize < d.2.length := by
    decide +kernel
  obtain ⟨d, sent, long⟩ := long
  exact Nat.not_le_of_lt long (respected tight ⟨0, 0⟩ tightRun rfl short_tightRun d sent)

end Table

end ReliableDatagram
