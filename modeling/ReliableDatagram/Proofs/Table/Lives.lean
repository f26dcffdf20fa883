import ReliableDatagram.Proofs.Channel.Speech
import ReliableDatagram.Proofs.Table.Concern

/-!
# The lives of the channels with one key

Between two steps every channel of a table is settled. What a step does to a key is then one of
four things, `Passage`: nobody is there, a channel's life begins, goes on, or ends. The events about
a key therefore fall into words, one for each generation, and `events_form_words` says which.
-/

namespace ReliableDatagram

/-- The events about one key. -/
def eventsOf (key : Key) (log : List Effect) : List Event :=
  (events log).filter (·.key? == some key)

@[simp] theorem eventsOf_append (key : Key) (log log' : List Effect) :
    eventsOf key (log ++ log') = eventsOf key log ++ eventsOf key log' := by
  simp [eventsOf]

theorem eventsOf_eq_events_filter (key : Key) (log : List Effect) :
    eventsOf key log = events (log.filter (Effect.tellsOf key)) := by
  induction log with
  | nil => rfl
  | cons e log ih =>
    cases told : e.tellsOf key with
    | true =>
      rw [List.filter_cons_of_pos told]
      cases seen : e.event? with
      | none => simp [Effect.tellsOf, seen] at told
      | some event =>
        have own : (event.key? == some key) = true := by simpa [Effect.tellsOf, seen] using told
        simpa [eventsOf, events, seen, own] using ih
    | false =>
      rw [List.filter_cons_of_neg (by simp [told])]
      cases seen : e.event? with
      | none => simpa [eventsOf, events, seen] using ih
      | some event =>
        have foreign : (event.key? == some key) = false := by
          simpa [Effect.tellsOf, seen] using told
        simpa [eventsOf, events, seen, foreign] using ih

namespace Table

open Channel

variable {t : Table} {key : Key} {now : Nat} {op : Op}

section Passage

/-- What a step can do to the channel with a key, by what it reports. The next channel would get
the given generation, and the step may bring a packet for the key. -/
inductive Passage (key : Key) (next : Nat) :
    Bool → Option Channel → List Event → Option Channel → Prop
  | absent {heard : Bool} : Passage key next heard none [] none
  | begins {heard : Bool} {c : Channel} {es : List Event} (new : c.generation = next)
      (settled : c.Settled) (known : c.hasReceived = heard) (speech : Speech key .fresh es c.phase) :
      Passage key next heard none es (some c)
  | lives {heard : Bool} {c c' : Channel} {es : List Event} (same : c'.generation = c.generation)
      (settled : c'.Settled) (known : c'.hasReceived = (c.hasReceived || heard))
      (speech : Speech key c.phase es c'.phase) : Passage key next heard (some c) es (some c')
  | ends {c : Channel} {es : List Event} (reason : DisconnectReason)
      (speech : Speech key c.phase es c.phase) :
      Passage key next false (some c)
        (es ++ if c.phase = .connected then [.disconnected key reason] else []) none

variable {next generation : Nat} {heard : Bool} {c? c'? : Option Channel} {es : List Event}
  {ctx : Context} {c : Channel}

theorem Passage.key?_eq (passage : Passage key next heard c? es c'?) :
    ∀ e ∈ es, e.key? = some key := by
  cases passage with
  | absent => nofun
  | begins _ _ _ speech => exact speech.key?_eq
  | lives _ _ _ speech => exact speech.key?_eq
  | ends reason speech =>
    intro e mem
    rcases List.mem_append.mp mem with said | last
    · exact speech.key?_eq e said
    · split at last
      · rcases List.mem_singleton.mp last with rfl
        rfl
      · cases last

theorem Passage.of_absent (passage : Passage key next heard none es none) : es = [] := by
  cases passage
  rfl

theorem Passage.of_begin (passage : Passage key next heard none es (some c)) :
    c.generation = next ∧ c.Settled ∧ c.hasReceived = heard ∧ Speech key .fresh es c.phase := by
  cases passage with
  | begins new settled known speech => exact ⟨new, settled, known, speech⟩

theorem Passage.of_life {c' : Channel} (passage : Passage key next heard (some c) es (some c')) :
    c'.generation = c.generation ∧ c'.Settled ∧ c'.hasReceived = (c.hasReceived || heard) ∧
      Speech key c.phase es c'.phase := by
  cases passage with
  | lives same settled known speech => exact ⟨same, settled, known, speech⟩

theorem Passage.of_end (passage : Passage key next heard (some c) es none) :
    heard = false ∧ ∃ said reason, Speech key c.phase said c.phase ∧
      es = said ++ if c.phase = .connected then [.disconnected key reason] else [] := by
  cases passage with
  | ends reason speech => exact ⟨rfl, _, reason, speech, rfl⟩

/-- Who is there after a step is new, or was there before. -/
theorem Passage.survivor (passage : Passage key next heard c? es (some c)) :
    c.Settled ∧ (c? = none ∧ c.generation = next ∨
      ∃ d, c? = some d ∧ c.generation = d.generation) := by
  cases passage with
  | begins new settled => exact ⟨settled, .inl ⟨rfl, new⟩⟩
  | lives same settled => exact ⟨settled, .inr ⟨_, rfl, same⟩⟩

theorem Passage.still (settled : ∀ c, c? = some c → c.Settled) :
    Passage key next false c? [] c? := by
  cases c? with
  | none => exact .absent
  | some c =>
    have settled := settled c rfl
    exact .lives rfl settled (Bool.or_false _).symm (.silence settled.alive)

theorem events_destroy (c : Channel) (reason : DisconnectReason) :
    events (c.destroy reason).log =
      if c.phase = .connected then [.disconnected c.key reason] else [] := by
  have silent (ws : List ParkedWrite) :
      events (ws.map fun w => .reply w.ticket (.error (.connectionClosed c.key))) = [] := by
    induction ws with
    | nil => rfl
    | cons w ws ih => exact ih
  simp only [destroy, events_append, silent, List.nil_append]
  split <;> rfl

theorem passage_destroy (settled : c.Settled) (reason : DisconnectReason) :
    Passage c.key next false (some c) (events (c.destroy reason).log) none := by
  rw [events_destroy]
  exact @Passage.ends _ _ _ [] reason (.silence settled.alive)

theorem passage_tickOne (settled : c.Settled) :
    Passage c.key next false (some c) (events (tickOne ctx c).log) (tickOne ctx c).value := by
  have moves := moves_tick ctx c
  obtain ⟨settled', known, speech⟩ := settled.moves (by nofun) moves
  cases outcome : (c.tick ctx).value.2 with
  | none =>
    rw [tickOne_kept outcome]
    exact .lives moves.generation settled' (known.trans (Bool.or_false _).symm) speech
  | some reason =>
    have phase : (c.tick ctx).value.1.phase = c.phase := by
      rw [settled'.phase, known, ← settled.phase]
    rw [phase] at speech
    rw [tickOne_gone outcome, events_append, events_destroy, phase, moves.key]
    exact .ends reason speech

theorem create_alive (key : Key) (generation : Nat) (config : Config) (now : Nat) :
    (Channel.create key generation config now).phase ≠ .closed := by
  nofun

theorem passage_create {x : Logged Effect Channel} {cop : Channel.Op}
    (moves : Moves ctx cop (Channel.create key next ctx.config ctx.now) x.log [] x.value)
    (settled : x.value.Settled) (known : x.value.hasReceived = heard)
    (speech : Speech key .fresh (events x.log) x.value.phase) :
    Passage key next heard none (events (some <$> x).log) (some <$> x).value :=
  .begins moves.generation settled known speech

/-- Whether a step brings a packet. -/
def Concern.isPacket : Concern → Bool
  | .packet _ => true
  | _ => false

theorem passage_serve (own : ∀ c, c? = some c → c.key = key)
    (settled : ∀ c, c? = some c → c.Settled) (q : Concern) :
    Passage key next q.isPacket c? (events (serve ctx key next c? q).log)
      (serve ctx key next c? q).value := by
  cases q with
  | packet p =>
    cases c? with
    | some c =>
      obtain rfl := own c rfl
      have settled := settled c rfl
      exact .lives (moves_onPacket ctx c p).generation (settled.onPacket p)
        ((hasReceived_onPacket p).trans (Bool.or_true _).symm) (speech_onPacket settled.alive p)
    | none =>
      simp only [serve]
      split
      · next opens =>
        exact passage_create (moves_onPacket ctx _ p) (settled_create_onPacket opens)
          (hasReceived_onPacket p)
          (speech_onPacket (create_alive key next ctx.config ctx.now) p)
      · exact .absent
  | connect =>
    cases c? with
    | some c => exact .still settled
    | none =>
      have moves := moves_ping ctx (Channel.create key next ctx.config ctx.now) .ping (.inl rfl)
      have speech := moves.speech (create_alive _ _ _ _) fun _ => Channel.Op.noConfusion
      exact passage_create moves settled_create_ping rfl speech
  | write current w =>
    simp only [serve]
    split
    · exact .still settled
    · cases live : c?.filter fun _ => current with
      | none => exact .still settled
      | some c =>
        obtain rfl := (Option.filter_eq_some_iff.mp live).1
        obtain rfl := own c rfl
        have moves := moves_write ctx c w
        obtain ⟨settled', known, speech⟩ :=
          (settled c rfl).moves (fun _ => Channel.Op.noConfusion) moves
        exact .lives moves.generation settled' (known.trans (Bool.or_false _).symm) speech
  | close current =>
    simp only [serve]
    cases live : c?.filter fun _ => current with
    | none => exact .still settled
    | some c =>
      obtain rfl := (Option.filter_eq_some_iff.mp live).1
      obtain rfl := own c rfl
      exact passage_destroy (settled c rfl) .closed
  | tick =>
    cases c? with
    | none => exact .absent
    | some c =>
      obtain rfl := own c rfl
      exact passage_tickOne (settled c rfl)
  | shutdown reason =>
    cases c? with
    | none => exact .absent
    | some c =>
      obtain rfl := own c rfl
      exact passage_destroy (settled c rfl) reason

end Passage

/-- Between two steps: every channel is settled, and its generation was given out before. -/
structure Settled (t : Table) : Prop where
  order : t.Ordered
  channels : ∀ key c, t.find? key = some c → c.Settled
  generations : ∀ key c, t.find? key = some c → c.generation < t.nextGeneration

/-- Whether a step brings a packet for a key. -/
def Op.brings (key : Key) : Op → Bool
  | .request (.datagram sender bytes) =>
    (Packet.parse bytes).toOption.any fun p => ⟨sender, p.header.channel⟩ = key
  | _ => false

theorem brings_eq (t : Table) (key : Key) (op : Op) :
    op.brings key = (t.concern? key op).any Concern.isPacket := by
  cases op with
  | shutdown reason => rfl
  | request r =>
    cases r with
    | datagram sender bytes =>
      simp only [Op.brings, concern?]
      cases Packet.parse bytes with
      | error _ => rfl
      | ok p =>
        dsimp only [Except.toOption]
        split <;> simp_all [Concern.isPacket]
    | connect k =>
      simp only [Op.brings, concern?]
      split <;> rfl
    | write k generation w =>
      simp only [Op.brings, concern?]
      split <;> rfl
    | close k generation =>
      simp only [Op.brings, concern?]
      split <;> rfl
    | _ => rfl

theorem passage_part (settled : t.Settled) (now : Nat) (op : Op) (key : Key) :
    Passage key t.nextGeneration (op.brings key) (t.find? key) (events (t.part now key op).log)
      (t.part now key op).value := by
  rw [brings_eq t]
  cases concerned : t.concern? key op with
  | none =>
    rw [part_of_unconcerned concerned]
    exact .still (settled.channels key)
  | some q =>
    rw [part_of_concerned concerned]
    exact passage_serve (fun c found => (mem_of_find? found).2) (settled.channels key) q

theorem not_tellsOf {k : Key} {log : List Effect} (about : ∀ event ∈ events log, event.key? = some k)
    (other : k ≠ key) : ∀ e ∈ log, e.tellsOf key = false := by
  intro e logged
  cases seen : e.event? with
  | none => simp [Effect.tellsOf, seen]
  | some event =>
    have own := about event (List.mem_filterMap.mpr ⟨e, logged, seen⟩)
    simp [Effect.tellsOf, seen, own, other]

theorem eventsOf_apply (settled : t.Settled) (now : Nat) (op : Op) (key : Key) :
    eventsOf key (t.apply now op).log = events (t.part now key op).log := by
  have about (k : Key) := (passage_part settled now op k).key?_eq
  calc eventsOf key (t.apply now op).log
      = events ((t.apply now op).log.filter (Effect.tellsOf key)) := eventsOf_eq_events_filter _ _
    _ = events ((t.part now key op).log.filter (Effect.tellsOf key)) := by
        rw [filter_apply settled.order fun k other => not_tellsOf (about k) other]
    _ = eventsOf key (t.part now key op).log := (eventsOf_eq_events_filter _ _).symm
    _ = events (t.part now key op).log :=
        List.filter_eq_self.mpr fun event mem => by simp [about key event mem]

/-- What a step does to a key, seen from outside. -/
theorem passage_apply (settled : t.Settled) (now : Nat) (op : Op) (key : Key) :
    Passage key t.nextGeneration (op.brings key) (t.find? key) (eventsOf key (t.apply now op).log)
      ((t.apply now op).value.find? key) := by
  rw [eventsOf_apply settled, find?_apply settled.order]
  exact passage_part settled now op key

section Generations

theorem nextGeneration_le (t : Table) (now : Nat) (op : Op) :
    t.nextGeneration ≤ (t.apply now op).value.nextGeneration := by
  cases op with
  | shutdown reason => exact Nat.le_refl _
  | request r =>
    cases r with
    | datagram sender bytes =>
      show _ ≤ (t.onDatagram now sender bytes).value.nextGeneration
      unfold onDatagram
      split
      · exact Nat.le_refl _
      · dsimp only
        split
        · exact Nat.le_refl _
        · split
          · exact Nat.le_succ _
          · exact Nat.le_refl _
    | connect k =>
      show _ ≤ (t.connect now k).value.2.nextGeneration
      unfold connect
      split
      · exact Nat.le_refl _
      · exact Nat.le_succ _
    | write k generation w =>
      show _ ≤ (t.write now k generation w).value.nextGeneration
      unfold write
      dsimp only
      split
      · exact Nat.le_refl _
      · split <;> exact Nat.le_refl _
    | close k generation =>
      show _ ≤ (t.close k generation).value.2.nextGeneration
      unfold close
      split <;> exact Nat.le_refl _
    | tick => exact Nat.le_refl _
    | stats => exact Nat.le_refl _
    | channelStats k generation => exact Nat.le_refl _

/-- A channel comes into being in a step about its key only, and takes a generation up. -/
theorem opens_of_apply (order : t.Ordered) (missing : t.find? key = none) {c : Channel}
    (found : (t.apply now op).value.find? key = some c) :
    op.target? = some key ∧ t.nextGeneration < (t.apply now op).value.nextGeneration := by
  rw [find?_apply order] at found
  cases concerned : t.concern? key op with
  | none =>
    rw [part_of_unconcerned concerned] at found
    exact nomatch missing.symm.trans found
  | some q =>
    rw [part_of_concerned concerned, missing] at found
    have opens := opens_of_serve found
    cases q with
    | packet p =>
      obtain ⟨bytes, rfl, parsed, own⟩ := concern?_eq_packet concerned
      have key_eq : (⟨key.addr, p.header.channel⟩ : Key) = key := by rw [own]
      refine ⟨by simp only [Op.target?, parsed, key_eq], ?_⟩
      show _ < (t.onDatagram now key.addr bytes).value.nextGeneration
      have opens : p.header.kind.opensChannel = true := opens
      simp only [onDatagram, parsed, key_eq, missing, opens, if_true]
      exact Nat.lt_succ_self _
    | connect =>
      rw [concern?_eq_connect concerned]
      refine ⟨rfl, ?_⟩
      show _ < (t.connect now key).value.2.nextGeneration
      simp only [connect, missing]
      exact Nat.lt_succ_self _
    | _ => cases opens

end Generations

theorem settled_empty (config : Config) (clock : Clock) : Settled { config, clock } :=
  ⟨ordered_empty config clock,
    fun key _ found => (nomatch (find?_empty config clock key).symm.trans found),
    fun key _ found => (nomatch (find?_empty config clock key).symm.trans found)⟩

theorem settled_apply (settled : t.Settled) (now : Nat) (op : Op) :
    (t.apply now op).value.Settled := by
  have after (key : Key) (c : Channel) (found : (t.apply now op).value.find? key = some c) :
      c.Settled ∧ c.generation < (t.apply now op).value.nextGeneration := by
    have passage := passage_apply settled now op key
    rw [found] at passage
    obtain ⟨settled', new | ⟨d, old, same⟩⟩ := passage.survivor
    · exact ⟨settled', new.2 ▸ (opens_of_apply settled.order new.1 found).2⟩
    · have earlier := settled.generations key d old
      exact ⟨settled', same ▸ Nat.lt_of_lt_of_le earlier (nextGeneration_le t now op)⟩
  exact ⟨ordered_apply settled.order now op, fun key c found => (after key c found).1,
    fun key c found => (after key c found).2⟩

theorem settled_run (ops : List (Nat × Op)) (settled : t.Settled) : (run ops t).value.Settled := by
  induction ops generalizing t with
  | nil => exact settled
  | cons step ops ih => exact ih (settled_apply settled step.1 step.2)

end Table

end ReliableDatagram
