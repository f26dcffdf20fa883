import ReliableDatagram.Proofs.Table.Slot

/-!
# What a step of a table means for one key

A table talks to any number of peers. A step concerns the channel with a key through what it brings
to this key only, and what the channel does then, `serve`, is a function of the channel alone.
`find?_apply` and `filter_apply` say that the table does no more: the channels after a step, and
what its log tells of a key, are those of `part`.
-/

namespace ReliableDatagram

namespace Effect

variable {key k : Key} {e : Effect}

/-- Whether an effect is a datagram to the peer of a key, with its channel number. -/
def isPacketTo (key : Key) (e : Effect) : Bool :=
  e.datagram?.any fun d =>
    d.1 == key.addr && (Packet.parse d.2).toOption.any (·.header.channel == key.channel)

/-- Whether an effect is an event about a key. -/
def tellsOf (key : Key) (e : Effect) : Bool := e.event?.any (·.key? == some key)

theorem Speaks.isPacketTo (speaks : e.Speaks key)
    (datagram : e.datagram?.isSome) : e.isPacketTo key = true := by
  cases e with
  | send target bytes =>
    obtain ⟨rfl, p, rfl, sound, own⟩ := speaks
    simp [Effect.isPacketTo, datagram?, Packet.parse_encode sound, Except.toOption, own]
  | resend target bytes =>
    obtain ⟨rfl, p, rfl, sound, own⟩ := speaks
    simp [Effect.isPacketTo, datagram?, Packet.parse_encode sound, Except.toOption, own]
  | emit event => cases datagram
  | reply ticket result => cases datagram

theorem Speaks.not_isPacketTo (speaks : e.Speaks k) (other : k ≠ key) :
    e.isPacketTo key = false := by
  have apart (addr : k.addr = key.addr) : k.channel ≠ key.channel := fun channel => by
    cases k
    cases key
    exact other (congr (congrArg Key.mk addr) channel)
  cases e with
  | send target bytes =>
    obtain ⟨rfl, p, rfl, sound, own⟩ := speaks
    simpa [Effect.isPacketTo, datagram?, Packet.parse_encode sound, Except.toOption, own] using apart
  | resend target bytes =>
    obtain ⟨rfl, p, rfl, sound, own⟩ := speaks
    simpa [Effect.isPacketTo, datagram?, Packet.parse_encode sound, Except.toOption, own] using apart
  | emit event => rfl
  | reply ticket result => rfl

theorem Speaks.not_tellsOf (speaks : e.Speaks k) (other : k ≠ key) : e.tellsOf key = false := by
  cases e with
  | emit event =>
    have speaks : event.key? = some k := speaks
    simp [tellsOf, event?, speaks, other]
  | _ => rfl

end Effect

namespace Table

open Channel

/-- What a step brings to one key. -/
inductive Concern
  | packet (p : Packet)
  | connect
  /-- A write is current if it names the generation of the channel. -/
  | write (current : Bool) (w : ParkedWrite)
  | close (current : Bool)
  | tick
  | shutdown (reason : DisconnectReason)
deriving DecidableEq

def concern? (t : Table) (key : Key) : Op → Option Concern
  | .request (.datagram sender bytes) =>
    match Packet.parse bytes with
    | .ok p => if (⟨sender, p.header.channel⟩ : Key) = key then some (.packet p) else none
    | .error _ => none
  | .request (.connect k) => if k = key then some .connect else none
  | .request (.write k generation w) =>
    if k = key then some (.write (t.live? key generation).isSome w) else none
  | .request (.close k generation) =>
    if k = key then some (.close (t.live? key generation).isSome) else none
  | .request .tick => some .tick
  | .request .stats | .request (.channelStats _ _) => none
  | .shutdown reason => some (.shutdown reason)

/-- What becomes of the channel with a key, if there is one, and what it logs. A channel that has
to be created gets the given generation. -/
def serve (ctx : Context) (key : Key) (generation : Nat) (c? : Option Channel) :
    Concern → Logged Effect (Option Channel)
  | .packet p =>
    match c? with
    | some c => some <$> c.onPacket ctx p
    | none =>
      if p.header.kind.opensChannel then
        some <$> (Channel.create key generation ctx.config ctx.now).onPacket ctx p
      else pure none
  | .connect =>
    match c? with
    | some c => pure (some c)
    | none => some <$> (Channel.create key generation ctx.config ctx.now).ping ctx
  | .write current w =>
    let max := ctx.config.maxPayloadLength
    if max < w.payload.length then
      ⟨c?, [.reply w.ticket (.error (.payloadTooLarge w.payload.length max))]⟩
    else
      match c?.filter fun _ => current with
      | some c => some <$> c.write ctx w
      | none => ⟨c?, [.reply w.ticket (.error (.connectionClosed key))]⟩
  | .close current =>
    match c?.filter fun _ => current with
    | some c => ⟨none, (c.destroy .closed).log⟩
    | none => pure c?
  | .tick =>
    match c? with
    | some c => tickOne ctx c
    | none => pure none
  | .shutdown reason => ⟨none, (c?.map fun c => (c.destroy reason).log).getD []⟩

/-- What a step does to the channel with one key, which may have to be created for it. -/
def part (t : Table) (now : Nat) (key : Key) (op : Op) : Logged Effect (Option Channel) :=
  match t.concern? key op with
  | some q => serve (t.context now) key t.nextGeneration (t.find? key) q
  | none => pure (t.find? key)

/-- The channels are listed in strict key order. -/
def Ordered (t : Table) : Prop := t.channels.Pairwise fun c d => c.key.before d.key = true

variable {t : Table} {key : Key} {now : Nat} {op : Op}

theorem part_of_unconcerned (unconcerned : t.concern? key op = none) :
    t.part now key op = pure (t.find? key) := by
  simp only [part, unconcerned]

theorem part_of_concerned {q : Concern} (concerned : t.concern? key op = some q) :
    t.part now key op = serve (t.context now) key t.nextGeneration (t.find? key) q := by
  simp only [part, concerned]

theorem concern?_eq_packet {p : Packet} (concerned : t.concern? key op = some (.packet p)) :
    ∃ bytes, op = .request (.datagram key.addr bytes) ∧ Packet.parse bytes = .ok p ∧
      p.header.channel = key.channel := by
  cases op with
  | shutdown reason => cases concerned
  | request r =>
    cases r with
    | datagram sender bytes =>
      simp only [concern?] at concerned
      split at concerned
      · next q parsed =>
        split at concerned
        · next own =>
          cases concerned
          subst own
          exact ⟨bytes, rfl, parsed, rfl⟩
        · cases concerned
      · cases concerned
    | tick | stats | channelStats => cases concerned
    | _ =>
      simp only [concern?] at concerned
      split at concerned <;> cases concerned

theorem concern?_eq_connect (concerned : t.concern? key op = some .connect) :
    op = .request (.connect key) := by
  cases op with
  | shutdown reason => cases concerned
  | request r =>
    cases r with
    | datagram sender bytes =>
      simp only [concern?] at concerned
      split at concerned
      · split at concerned <;> cases concerned
      · cases concerned
    | connect k =>
      simp only [concern?] at concerned
      split at concerned
      · next own => rw [own]
      · cases concerned
    | tick | stats | channelStats => cases concerned
    | _ =>
      simp only [concern?] at concerned
      split at concerned <;> cases concerned

theorem concern?_eq_write {current : Bool} {w : ParkedWrite}
    (concerned : t.concern? key op = some (.write current w)) :
    ∃ generation, op = .request (.write key generation w) := by
  cases op with
  | shutdown reason => cases concerned
  | request r =>
    cases r with
    | datagram sender bytes =>
      simp only [concern?] at concerned
      split at concerned
      · split at concerned <;> cases concerned
      · cases concerned
    | write k generation v =>
      simp only [concern?] at concerned
      split at concerned
      · next own =>
        cases concerned
        exact ⟨generation, by rw [own]⟩
      · cases concerned
    | tick | stats | channelStats => cases concerned
    | _ =>
      simp only [concern?] at concerned
      split at concerned <;> cases concerned

/-- The operation of a channel that a concern asks for. -/
inductive Concern.Asks : Concern → Channel.Op → Prop
  | packet {p : Packet} : Asks (.packet p) (.packet p)
  | connect : Asks .connect .ping
  | write {current : Bool} {w : ParkedWrite} (fits : w.payload.length ≤ 0xffff) :
      Asks (.write current w) (.write w)
  | tick : Asks .tick .tick

/-- The concerns that bring a channel into being if there is none. -/
def Concern.opens : Concern → Bool
  | .packet p => p.header.kind.opensChannel
  | .connect => true
  | _ => false

/-- Everything that a concern can lead to: nothing, a refusal, an operation of a channel, which may
be new, or the end of a channel. -/
inductive Served (ctx : Context) (key : Key) (generation : Nat) (c? : Option Channel) :
    Concern → Logged Effect (Option Channel) → Prop
  | idle {q : Concern} : Served ctx key generation c? q (pure c?)
  | refuse {current : Bool} {w : ParkedWrite} {error : TransportError} :
      Served ctx key generation c? (.write current w) ⟨c?, [.reply w.ticket (.error error)]⟩
  | act {q : Concern} {op : Channel.Op} {c : Channel} {x : Logged Effect Channel}
      {ws : List ParkedWrite} (asks : q.Asks op) (found : c? = some c)
      (moves : Moves ctx op c x.log ws x.value) :
      Served ctx key generation c? q (some <$> x)
  | create {q : Concern} {op : Channel.Op} {x : Logged Effect Channel} (asks : q.Asks op)
      (opens : q.opens = true) (missing : c? = none)
      (moves : Moves ctx op (Channel.create key generation ctx.config ctx.now) x.log [] x.value) :
      Served ctx key generation c? q (some <$> x)
  | leave {q : Concern} {c c' : Channel} {log : List Effect} {reason : DisconnectReason}
      (found : c? = some c) (moves : Moves ctx .tick c log [] c') :
      Served ctx key generation c? q ⟨none, log ++ (c'.destroy reason).log⟩

theorem served_serve (ctx : Context) (key : Key) (generation : Nat) (c? : Option Channel)
    (q : Concern) : Served ctx key generation c? q (serve ctx key generation c? q) := by
  cases q with
  | packet p =>
    cases c? with
    | some c => exact .act .packet rfl (moves_onPacket ctx c p)
    | none =>
      simp only [serve]
      split
      · next opens => exact .create .packet opens rfl (moves_onPacket ctx _ p)
      · exact .idle
  | connect =>
    cases c? with
    | some c => exact .idle
    | none => exact .create .connect rfl rfl (moves_ping ctx _ .ping (.inl rfl))
  | write current w =>
    simp only [serve]
    split
    · exact .refuse
    · next fits =>
      have fits := Nat.le_trans (Nat.le_of_not_lt fits) (maxPayloadLength_le ctx.config)
      cases live : c?.filter fun _ => current with
      | none => exact .refuse
      | some c =>
        exact .act (.write fits) (Option.filter_eq_some_iff.mp live).1 (moves_write ctx c w)
  | close current =>
    simp only [serve]
    cases live : c?.filter fun _ => current with
    | none => exact .idle
    | some c => exact .leave (Option.filter_eq_some_iff.mp live).1 .none
  | tick =>
    cases c? with
    | none => exact .idle
    | some c =>
      have moves := moves_tick ctx c
      show Served ctx key generation (some c) .tick (tickOne ctx c)
      cases outcome : (c.tick ctx).value.2 with
      | none =>
        rw [tickOne_kept outcome]
        exact .act (x := ⟨_, _⟩) .tick rfl moves
      | some reason =>
        rw [tickOne_gone outcome]
        exact .leave rfl moves
  | shutdown reason =>
    cases c? with
    | none => exact .idle
    | some c => exact .leave rfl .none

theorem opens_of_serve {ctx : Context} {generation : Nat} {q : Concern} {c : Channel}
    (opened : (serve ctx key generation none q).value = some c) : q.opens = true := by
  cases q with
  | packet p =>
    simp only [serve] at opened
    split at opened
    · next opens => exact opens
    · cases opened
  | connect => rfl
  | write current w =>
    simp only [serve] at opened
    split at opened <;> cases opened
  | _ => cases opened

/-- A channel of the table is live just if its generation is named. -/
theorem filter_find? (t : Table) (key : Key) (generation : Nat) :
    ((t.find? key).filter fun _ => (t.live? key generation).isSome) = t.live? key generation := by
  unfold live?
  cases t.find? key with
  | none => rfl
  | some c => cases named : c.generation == generation <;> simp [Option.filter, named]

section Order

theorem find?_empty (config : Config) (clock : Clock) (key : Key) :
    Table.find? { config, clock } key = none := rfl

theorem ordered_empty (config : Config) (clock : Clock) : Ordered { config, clock } := .nil

theorem Ordered.put (order : t.Ordered) (c : Channel) : (t.put c).Ordered :=
  insertByKey_order order

theorem ordered_apply (order : t.Ordered) (now : Nat) (op : Op) :
    (t.apply now op).value.Ordered := by
  cases op with
  | shutdown reason => exact .nil
  | request r =>
    cases r with
    | datagram sender bytes =>
      show (t.onDatagram now sender bytes).value.Ordered
      unfold onDatagram
      split
      · exact order
      · dsimp only
        split
        · exact order.put _
        · split
          · exact Ordered.put (t := (t.create _ now).2) order _
          · exact order
    | connect k =>
      show (t.connect now k).value.2.Ordered
      unfold connect
      split
      · exact order
      · exact Ordered.put (t := (t.create k now).2) order _
    | write k generation w =>
      show (t.write now k generation w).value.Ordered
      unfold write
      dsimp only
      split
      · exact order
      · split
        · exact order.put _
        · exact order
    | close k generation =>
      show (t.close k generation).value.2.Ordered
      unfold close
      split
      · exact order.sublist List.filter_sublist
      · exact order
    | tick => exact tickAll_order order
    | stats => exact order
    | channelStats k generation => exact order

/-- No two channels of a table have the same key. -/
theorem Ordered.keys (order : t.Ordered) : t.channels.Pairwise fun c d => c.key ≠ d.key := by
  refine order.imp fun {c d} before same => ?_
  simp [Key.before, same] at before

end Order

/-- A request does to the channel with a key what the step's part does. -/
theorem value_slot (t : Table) (now : Nat) (key : Key) (r : Request) :
    (t.slot now key r).value = (t.part now key (.request r)).value := by
  cases r with
  | datagram sender bytes =>
    simp only [slot, part, concern?]
    cases Packet.parse bytes with
    | error _ => rfl
    | ok p =>
      dsimp only
      by_cases own : (⟨sender, p.header.channel⟩ : Key) = key
      · rw [if_pos own, if_pos own]
        cases t.find? key <;> rfl
      · rw [if_neg own, if_neg own]
  | connect k =>
    simp only [slot, part, concern?]
    by_cases own : k = key
    · rw [if_pos own, if_pos own]
      cases t.find? key <;> rfl
    · rw [if_neg own, if_neg own]
  | write k generation w =>
    simp only [slot, part, concern?]
    by_cases own : k = key
    · rw [if_pos own]
      simp only [own, true_and, serve, filter_find?]
      by_cases long : t.config.maxPayloadLength < w.payload.length
      · rw [if_neg (Nat.not_le_of_lt long)]
        simp only [context, long, if_true]
        rfl
      · rw [if_pos (Nat.le_of_not_lt long)]
        simp only [context, long, if_false]
        cases t.live? key generation <;> rfl
    · rw [if_neg fun both => own both.1, if_neg own]
  | close k generation =>
    simp only [slot, part, concern?]
    by_cases own : k = key
    · rw [if_pos own, if_pos own]
      have live := t.filter_find? key generation
      simp only [serve]
      generalize t.live? key generation = current at live ⊢
      cases current <;> simp only [live]
    · rw [if_neg own, if_neg own]
  | tick => rfl
  | stats => rfl
  | channelStats => rfl

theorem find?_apply (order : t.Ordered) (now : Nat) (op : Op) (key : Key) :
    (t.apply now op).value.find? key = (t.part now key op).value := by
  cases op with
  | shutdown reason => rfl
  | request r =>
    rw [← value_slot]
    cases r with
    | datagram sender bytes => exact find?_onDatagram sender now bytes key
    | connect k => exact find?_connect now k key
    | write k generation w => exact find?_write now k key generation w
    | close k generation => exact find?_close k key generation now
    | tick => exact find?_tick order now key
    | stats => rfl
    | channelStats => rfl

section Log

theorem find?_of_mem {channels : List Channel}
    (keys : channels.Pairwise fun c d => c.key ≠ d.key) {c : Channel} (mem : c ∈ channels) :
    channels.find? (·.key == c.key) = some c := by
  induction channels with
  | nil => cases mem
  | cons d ds ih =>
    obtain ⟨first, rest⟩ := List.pairwise_cons.mp keys
    rcases List.mem_cons.mp mem with rfl | tail
    · exact List.find?_cons_of_pos (by simp)
    · rw [List.find?_cons_of_neg (by simpa using first c tail)]
      exact ih rest tail

/-- In which order the channels are visited does not matter to one key. -/
theorem find?_of_perm {visits channels : List Channel} (perm : visits.Perm channels)
    (keys : channels.Pairwise fun c d => c.key ≠ d.key) (key : Key) :
    visits.find? (·.key == key) = channels.find? (·.key == key) := by
  have visited : visits.Pairwise fun c d => c.key ≠ d.key :=
    perm.symm.pairwise keys fun other => other.symm
  cases found : channels.find? (·.key == key) with
  | none =>
    rw [List.find?_eq_none] at found ⊢
    exact fun c mem => found c (perm.mem_iff.mp mem)
  | some c =>
    obtain rfl : c.key = key := by simpa using List.find?_some found
    exact find?_of_mem visited (perm.mem_iff.mpr (List.mem_of_find?_eq_some found))

/-- What all channels together log in any order, seen by a view that sees one key only. -/
theorem filter_flatMap {visits : List Channel} (perm : visits.Perm t.channels) (order : t.Ordered)
    {f : Effect → Bool} {log : Channel → List Effect}
    (foreign : ∀ c, t.find? c.key = some c → c.key ≠ key → ∀ e ∈ log c, f e = false) :
    (visits.flatMap log).filter f = (((t.find? key).map log).getD []).filter f := by
  have keys : visits.Pairwise fun c d => c.key ≠ d.key :=
    perm.symm.pairwise order.keys fun other => other.symm
  have foreign (c : Channel) (mem : c ∈ visits) : c.key ≠ key → ∀ e ∈ log c, f e = false :=
    foreign c (find?_of_mem order.keys (perm.mem_iff.mp mem))
  have same := find?_of_perm perm order.keys key
  rw [find?, ← same]
  clear same perm
  induction visits with
  | nil => rfl
  | cons c cs ih =>
    obtain ⟨first, rest⟩ := List.pairwise_cons.mp keys
    have tail := ih rest fun d mem => foreign d (List.mem_cons_of_mem _ mem)
    rw [List.flatMap_cons, List.filter_append, tail]
    by_cases own : c.key = key
    · have later : cs.find? (·.key == key) = none := by
        refine List.find?_eq_none.mpr fun d mem => ?_
        simpa using fun same => first d mem (own.trans same.symm)
      rw [later, List.find?_cons_of_pos (by simp [own])]
      simp
    · have silent : (log c).filter f = [] :=
        List.filter_eq_nil_iff.mpr fun e logged => by
          simp [foreign c List.mem_cons_self own e logged]
      rw [silent, List.find?_cons_of_neg (by simp [own]), List.nil_append]

theorem log_tickAll (ctx : Context) (channels : List Channel) :
    (tickAll ctx channels).log = channels.flatMap fun c => (tickOne ctx c).log := by
  induction channels with
  | nil => rfl
  | cons c cs ih =>
    show (tickOne ctx c).log ++ ((tickAll ctx cs).log ++ []) = _
    rw [List.append_nil, ih, List.flatMap_cons]

/-- The key that a step is about, unless it is about all. -/
def Op.target? : Op → Option Key
  | .request (.datagram sender bytes) =>
    match Packet.parse bytes with
    | .ok p => some ⟨sender, p.header.channel⟩
    | .error _ => none
  | .request (.connect k) | .request (.write k _ _) | .request (.close k _) => some k
  | _ => none

/-- A step about one key logs what this key's part logs. -/
theorem log_of_target {k : Key} (target : op.target? = some k) :
    (t.apply now op).log = (t.part now k op).log := by
  cases op with
  | shutdown reason => cases target
  | request r =>
    cases r with
    | datagram sender bytes =>
      show (t.onDatagram now sender bytes).log = _
      simp only [Op.target?] at target
      simp only [onDatagram, part, concern?]
      cases parsed : Packet.parse bytes with
      | error _ =>
        rw [parsed] at target
        cases target
      | ok p =>
        rw [parsed] at target
        obtain rfl := Option.some.inj target
        simp only [if_true, serve]
        cases t.find? ⟨sender, p.header.channel⟩ with
        | some c => rfl
        | none =>
          dsimp only
          split <;> rfl
    | connect k =>
      obtain rfl := Option.some.inj target
      show (t.connect now k).log = _
      simp only [connect, part, concern?, if_true, serve]
      cases t.find? k <;> rfl
    | write k generation w =>
      obtain rfl := Option.some.inj target
      show (t.write now k generation w).log = _
      simp only [write, part, concern?, if_true, serve, filter_find?]
      by_cases long : t.config.maxPayloadLength < w.payload.length
      · simp only [context, long, if_true]
      · simp only [context, long, if_false]
        cases t.live? k generation <;> rfl
    | close k generation =>
      obtain rfl := Option.some.inj target
      show (t.close k generation).log = _
      simp only [close, part, concern?, if_true, serve, filter_find?]
      cases t.live? k generation <;> rfl
    | _ => cases target

/-- A step about one key brings nothing to the others. -/
theorem concern?_of_target {k : Key} (target : op.target? = some k) (other : k ≠ key) :
    t.concern? key op = none := by
  cases op with
  | shutdown reason => cases target
  | request r =>
    cases r with
    | datagram sender bytes =>
      simp only [Op.target?] at target
      simp only [concern?]
      cases parsed : Packet.parse bytes with
      | error _ => rfl
      | ok p =>
        rw [parsed] at target
        obtain rfl := Option.some.inj target
        exact if_neg other
    | connect k =>
      obtain rfl := Option.some.inj target
      exact if_neg other
    | write k generation w =>
      obtain rfl := Option.some.inj target
      exact if_neg other
    | close k generation =>
      obtain rfl := Option.some.inj target
      exact if_neg other
    | _ => cases target

/-- What a key's part logs, the step logs. -/
theorem mem_log_of_part {e : Effect} (logged : e ∈ (t.part now key op).log) :
    e ∈ (t.apply now op).log := by
  cases target : op.target? with
  | some k =>
    by_cases own : k = key
    · rwa [log_of_target target, own]
    · rw [part_of_unconcerned (concern?_of_target target own)] at logged
      cases logged
  | none =>
    cases op with
    | shutdown reason =>
      cases found : t.find? key with
      | none => simp [part, concern?, serve, found] at logged
      | some c =>
        simp only [part, concern?, serve, found] at logged
        exact List.mem_flatMap.mpr ⟨c, (mem_of_find? found).1, logged⟩
    | request r =>
      cases r with
      | datagram sender bytes =>
        cases parsed : Packet.parse bytes with
        | error _ => simp [part, concern?, parsed] at logged
        | ok p => simp [Op.target?, parsed] at target
      | tick =>
        cases found : t.find? key with
        | none => simp [part, concern?, serve, found] at logged
        | some c =>
          simp only [part, concern?, serve, found] at logged
          have log := log_tickAll (t.context now) t.channels
          show e ∈ (tickAll (t.context now) t.channels).log
          rw [log]
          exact List.mem_flatMap.mpr ⟨c, (mem_of_find? found).1, logged⟩
      | stats | channelStats => cases logged
      | _ => cases target

/-- What a step logs is logged by the part of some key. -/
theorem part_of_mem_log (order : t.Ordered) {e : Effect} (logged : e ∈ (t.apply now op).log) :
    ∃ key, e ∈ (t.part now key op).log := by
  cases target : op.target? with
  | some k => exact ⟨k, by rwa [← log_of_target target]⟩
  | none =>
    cases op with
    | shutdown reason =>
      obtain ⟨c, mem, logged⟩ := List.mem_flatMap.mp logged
      have found : t.find? c.key = some c := find?_of_mem order.keys mem
      exact ⟨c.key, by simpa [part, concern?, serve, found] using logged⟩
    | request r =>
      cases r with
      | datagram sender bytes =>
        have logged : e ∈ (t.onDatagram now sender bytes).log := logged
        cases parsed : Packet.parse bytes with
        | error _ => simp [onDatagram, parsed] at logged
        | ok p => simp [Op.target?, parsed] at target
      | tick =>
        have log := log_tickAll (t.context now) t.channels
        have logged : e ∈ (tickAll (t.context now) t.channels).log := logged
        rw [log] at logged
        obtain ⟨c, mem, logged⟩ := List.mem_flatMap.mp logged
        have found : t.find? c.key = some c := find?_of_mem order.keys mem
        exact ⟨c.key, by simpa [part, concern?, serve, found] using logged⟩
      | stats | channelStats => cases logged
      | _ => cases target

/-- A view that sees one key only sees of a step what this key's part logs. -/
theorem filter_apply (order : t.Ordered) {f : Effect → Bool}
    (foreign : ∀ k ≠ key, ∀ e ∈ (t.part now k op).log, f e = false) :
    (t.apply now op).log.filter f = (t.part now key op).log.filter f := by
  cases target : op.target? with
  | some k =>
    rw [log_of_target target]
    by_cases own : k = key
    · rw [own]
    · rw [part_of_unconcerned (concern?_of_target target own)]
      exact List.filter_eq_nil_iff.mpr fun e logged => by simp [foreign k own e logged]
  | none =>
    cases op with
    | shutdown reason =>
      refine filter_flatMap (.refl _) order fun c found other e logged => foreign c.key other e ?_
      simpa [part, concern?, serve, found] using logged
    | request r =>
      cases r with
      | datagram sender bytes =>
        show (t.onDatagram now sender bytes).log.filter f = _
        simp only [Op.target?] at target
        simp only [onDatagram, part, concern?]
        cases parsed : Packet.parse bytes with
        | error _ => rfl
        | ok p =>
          rw [parsed] at target
          cases target
      | tick =>
        have log := log_tickAll (t.context now) t.channels
        show (tickAll (t.context now) t.channels).log.filter f = _
        rw [log, filter_flatMap (.refl _) order fun c found other e logged =>
          foreign c.key other e (by simpa [part, concern?, serve, found] using logged)]
        simp only [part, concern?, serve]
        cases t.find? key <;> rfl
      | stats => rfl
      | channelStats => rfl
      | _ => cases target

end Log

end Table

end ReliableDatagram
