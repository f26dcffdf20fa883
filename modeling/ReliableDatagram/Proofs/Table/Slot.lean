import ReliableDatagram.Proofs.Table.Sound

/-!
# One channel of a table

A table that talks to one peer acts on each channel number on its own: `find?_perform` and
`voice_perform` say that what a request does to the channel with a number, and what that channel
does in turn, is a function of this channel alone.
-/

namespace ReliableDatagram

/-- Whether an effect carries a packet with this channel number or tells of such a channel. -/
def Effect.concerns (n : UInt8) : Effect → Bool
  | .send _ bytes | .resend _ bytes =>
    match Packet.parse bytes with
    | .ok p => p.header.channel == n
    | .error _ => false
  | .emit event => event.key?.any (·.channel == n)
  | .reply _ _ => false

theorem Effect.concerns_send (n : UInt8) (target : SocketAddr) (bytes : Bytes) :
    (Effect.send target bytes).concerns n =
      (Packet.parse bytes).toOption.any fun p => p.header.channel == n := by
  cases parsed : Packet.parse bytes <;> simp [concerns, parsed, Except.toOption]

theorem Effect.concerns_resend (n : UInt8) (target : SocketAddr) (bytes : Bytes) :
    (Effect.resend target bytes).concerns n =
      (Packet.parse bytes).toOption.any fun p => p.header.channel == n := by
  cases parsed : Packet.parse bytes <;> simp [concerns, parsed, Except.toOption]

/-- What a log says with one channel number. -/
def voice (n : UInt8) (log : List Effect) : List Effect := log.filter (Effect.concerns n)

@[simp] theorem voice_nil (n : UInt8) : voice n [] = [] := rfl

@[simp] theorem voice_append (n : UInt8) (log log' : List Effect) :
    voice n (log ++ log') = voice n log ++ voice n log' := List.filter_append _ _

variable {key : Key} {n : UInt8}

theorem Effect.Speaks.not_concerns {e : Effect} (speaks : e.Speaks key) (other : key.channel ≠ n) :
    e.concerns n = false := by
  cases e with
  | send target bytes =>
    obtain ⟨_, p, rfl, sound, own⟩ := speaks
    simpa [concerns, Packet.parse_encode sound, own] using other
  | resend target bytes =>
    obtain ⟨_, p, rfl, sound, own⟩ := speaks
    simpa [concerns, Packet.parse_encode sound, own] using other
  | emit event =>
    have speaks : event.key? = some key := speaks
    simpa [concerns, speaks] using other
  | reply => rfl

theorem voice_of_ne {log : List Effect} (speaks : ∀ e ∈ log, e.Speaks key)
    (other : key.channel ≠ n) : voice n log = [] :=
  List.filter_eq_nil_iff.mpr fun e logged => by simp [(speaks e logged).not_concerns other]

/-- A view that sees no answers sees in a channel's log just what the channel says. -/
theorem filterMap_voice {α : Type} {f : Effect → Option α}
    (answers : ∀ ticket result, f (.reply ticket result) = none) {log : List Effect}
    (speaks : ∀ e ∈ log, e.Speaks key) (own : key.channel = n) :
    (voice n log).filterMap f = log.filterMap f := by
  induction log with
  | nil => rfl
  | cons e log ih =>
    have rest := ih fun x logged => speaks x (List.mem_cons_of_mem _ logged)
    have first := speaks e List.mem_cons_self
    have kept (seen : e.concerns n = true) :
        (voice n (e :: log)).filterMap f = (e :: log).filterMap f := by
      rw [voice, List.filter_cons_of_pos seen, List.filterMap_cons, List.filterMap_cons]
      rw [voice] at rest
      rw [rest]
    cases e with
    | send target bytes =>
      obtain ⟨_, p, rfl, sound, channel⟩ := first
      exact kept (by simp [Effect.concerns, Packet.parse_encode sound, channel, own])
    | resend target bytes =>
      obtain ⟨_, p, rfl, sound, channel⟩ := first
      exact kept (by simp [Effect.concerns, Packet.parse_encode sound, channel, own])
    | emit event =>
      have first : event.key? = some key := first
      exact kept (by simp [Effect.concerns, first, own])
    | reply ticket result =>
      rw [voice, List.filter_cons_of_neg (by simp [Effect.concerns])]
      rw [List.filterMap_cons_none (answers ticket result)]
      exact rest

namespace Table

open Channel

/-- What a request does to the channel with one key, which may have to be created for it. -/
def slot (t : Table) (now : Nat) (key : Key) : Request → Logged Effect (Option Channel)
  | .datagram sender bytes =>
    match Packet.parse bytes with
    | .error _ => pure (t.find? key)
    | .ok p =>
      if (⟨sender, p.header.channel⟩ : Key) = key then
        match t.find? key with
        | some c => some <$> c.onPacket (t.context now) p
        | none =>
          if p.header.kind.opensChannel then
            some <$> (Channel.create key t.nextGeneration t.config now).onPacket (t.context now) p
          else pure none
      else pure (t.find? key)
  | .connect k =>
    if k = key then
      match t.find? key with
      | some c => pure (some c)
      | none =>
        some <$> (Channel.create key t.nextGeneration t.config now).ping (t.context now)
    else pure (t.find? key)
  | .write k generation w =>
    if k = key ∧ w.payload.length ≤ t.config.maxPayloadLength then
      match t.live? key generation with
      | some c => some <$> c.write (t.context now) w
      | none => pure (t.find? key)
    else pure (t.find? key)
  | .close k generation =>
    if k = key then
      match t.live? key generation with
      | some c => ⟨none, (c.destroy .closed).log⟩
      | none => pure (t.find? key)
    else pure (t.find? key)
  | .tick =>
    match t.find? key with
    | some c => tickOne (t.context now) c
    | none => pure none
  | .stats | .channelStats _ _ => pure (t.find? key)

variable {t : Table} {peer : SocketAddr}

theorem speaks_destroy (c : Channel) (reason : DisconnectReason) :
    ∀ e ∈ (c.destroy reason).log, e.Speaks c.key := by
  intro e logged
  rcases List.mem_append.mp logged with failed | gone
  · obtain ⟨w, _, rfl⟩ := List.mem_map.mp failed
    trivial
  · split at gone
    · rcases List.mem_singleton.mp gone with rfl
      rfl
    · cases gone

theorem speaks_tickOne (ctx : Context) {c : Channel} (sound : c.Sound) :
    ∀ e ∈ (tickOne ctx c).log, e.Speaks c.key := by
  have moves := moves_tick ctx c
  intro e logged
  cases outcome : (c.tick ctx).value.2 with
  | none =>
    rw [tickOne_kept outcome] at logged
    exact moves.speaks sound trivial e logged
  | some reason =>
    rw [tickOne_gone outcome] at logged
    rcases List.mem_append.mp logged with said | gone
    · exact moves.speaks sound trivial e said
    · rw [← key_tick ctx c]
      exact speaks_destroy _ reason e gone

section TickAll

variable {ctx : Context} {channels : List Channel}

theorem find?_tickAll (order : channels.Pairwise fun c d => c.key.before d.key = true) (key : Key) :
    (tickAll ctx channels).value.find? (·.key == key) =
      (channels.find? (·.key == key)).bind fun c => (tickOne ctx c).value := by
  induction channels with
  | nil => rfl
  | cons c cs ih =>
    obtain ⟨first, rest⟩ := List.pairwise_cons.mp order
    show ((tickOne ctx c).value.toList ++ (tickAll ctx cs).value).find? (·.key == key) = _
    rw [List.find?_append, ih rest]
    by_cases own : c.key = key
    · have later : cs.find? (·.key == key) = none := by
        refine List.find?_eq_none.mpr fun d mem => ?_
        have order := first d mem
        intro same
        simp only [beq_iff_eq] at same
        simp [Key.before, own, same] at order
      rw [later, List.find?_cons_of_pos (by simp [own])]
      rcases tickOne_value ctx c with kept | gone
      · simp [kept, key_tick, own]
      · simp [gone]
    · rw [List.find?_cons_of_neg (by simp [own])]
      rcases tickOne_value ctx c with kept | gone
      · simp [kept, key_tick, own]
      · simp [gone]

theorem voice_tickAll (order : channels.Pairwise fun c d => c.key.before d.key = true)
    (sound : ∀ c ∈ channels, c.Sound) (addr : ∀ c ∈ channels, c.key.addr = peer) (n : UInt8) :
    voice n (tickAll ctx channels).log =
      ((channels.find? (·.key == ⟨peer, n⟩)).map fun c => voice n (tickOne ctx c).log).getD [] := by
  induction channels with
  | nil => rfl
  | cons c cs ih =>
    obtain ⟨first, rest⟩ := List.pairwise_cons.mp order
    have tail := ih rest (fun d mem => sound d (List.mem_cons_of_mem _ mem))
      fun d mem => addr d (List.mem_cons_of_mem _ mem)
    have here := speaks_tickOne ctx (sound c List.mem_cons_self)
    have log : (tickAll ctx (c :: cs)).log = (tickOne ctx c).log ++ (tickAll ctx cs).log := by
      show _ ++ ((tickAll ctx cs).log ++ []) = _
      rw [List.append_nil]
    rw [log, voice_append, tail]
    by_cases own : c.key = ⟨peer, n⟩
    · have later : cs.find? (·.key == ⟨peer, n⟩) = none := by
        refine List.find?_eq_none.mpr fun d mem => ?_
        have order := first d mem
        intro same
        simp only [beq_iff_eq] at same
        simp [Key.before, own, same] at order
      rw [later, List.find?_cons_of_pos (by simp [own])]
      simp
    · have other : c.key.channel ≠ n := fun same =>
        own (by rw [← same, ← addr c List.mem_cons_self])
      rw [List.find?_cons_of_neg (by simp [own]), voice_of_ne here other]
      simp

end TickAll

theorem put_map (t : Table) (x : Logged Effect Channel) (addr : x.value.key = key) :
    (t.put <$> x).value.find? key = some x.value := by
  rw [Logged.value_map, find?_put, if_pos addr]

theorem put_map_of_ne (t : Table) (x : Logged Effect Channel) (other : x.value.key ≠ key) :
    (t.put <$> x).value.find? key = t.find? key := by
  rw [Logged.value_map, find?_put, if_neg other]

theorem find?_onDatagram (sender : SocketAddr) (now : Nat) (bytes : Bytes) (key : Key) :
    (t.onDatagram now sender bytes).value.find? key =
      (t.slot now key (.datagram sender bytes)).value := by
  simp only [onDatagram, slot]
  cases Packet.parse bytes with
  | error _ => rfl
  | ok p =>
    dsimp only
    by_cases own : (⟨sender, p.header.channel⟩ : Key) = key
    · subst own
      rw [if_pos rfl]
      cases found : t.find? ⟨sender, p.header.channel⟩ with
      | some c =>
        have moves := moves_onPacket (t.context now) c p
        exact put_map t _ (by rw [moves.key, (mem_of_find? found).2])
      | none =>
        dsimp only
        split
        · have moves := moves_onPacket (t.context now)
            (Channel.create ⟨sender, p.header.channel⟩ t.nextGeneration t.config now) p
          exact put_map _ _ moves.key
        · exact found
    · rw [if_neg own]
      cases found : t.find? ⟨sender, p.header.channel⟩ with
      | some c =>
        have moves := moves_onPacket (t.context now) c p
        exact put_map_of_ne t _ (by rwa [moves.key, (mem_of_find? found).2])
      | none =>
        dsimp only
        split
        · have moves := moves_onPacket (t.context now)
            (Channel.create ⟨sender, p.header.channel⟩ t.nextGeneration t.config now) p
          exact put_map_of_ne _ _ fun same => own (moves.key.symm.trans same)
        · rfl

theorem find?_connect (now : Nat) (k key : Key) :
    (t.connect now k).value.2.find? key = (t.slot now key (.connect k)).value := by
  simp only [connect, slot]
  by_cases own : k = key
  · subst own
    rw [if_pos rfl]
    cases found : t.find? k with
    | some c => exact found
    | none =>
      have moves := moves_ping (t.context now)
        (Channel.create k t.nextGeneration t.config now) .ping (.inl rfl)
      exact put_map (t.create k now).2 _ moves.key
  · rw [if_neg own]
    cases found : t.find? k with
    | some c => rfl
    | none =>
      have moves := moves_ping (t.context now)
        (Channel.create k t.nextGeneration t.config now) .ping (.inl rfl)
      exact put_map_of_ne (t.create k now).2 _ fun same => own (moves.key.symm.trans same)

theorem find?_write (now : Nat) (k key : Key) (generation : Nat) (w : ParkedWrite) :
    (t.write now k generation w).value.find? key =
      (t.slot now key (.write k generation w)).value := by
  simp only [write, slot]
  by_cases long : t.config.maxPayloadLength < w.payload.length
  · rw [if_pos long, if_neg fun fits => absurd fits.2 (Nat.not_le_of_lt long)]
    rfl
  · rw [if_neg long]
    have fits := Nat.le_of_not_lt long
    by_cases own : k = key
    · subst own
      rw [if_pos ⟨rfl, fits⟩]
      cases live : t.live? k generation with
      | none => rfl
      | some c =>
        have moves := moves_write (t.context now) c w
        exact put_map t _ (by rw [moves.key, (mem_of_find? (find?_of_live? live)).2])
    · rw [if_neg fun both => own both.1]
      cases live : t.live? k generation with
      | none => rfl
      | some c =>
        have moves := moves_write (t.context now) c w
        exact put_map_of_ne t _ (by rwa [moves.key, (mem_of_find? (find?_of_live? live)).2])

theorem find?_close (k key : Key) (generation now : Nat) :
    (t.close k generation).value.2.find? key = (t.slot now key (.close k generation)).value := by
  simp only [close, slot]
  by_cases own : k = key
  · subst own
    rw [if_pos rfl]
    cases live : t.live? k generation with
    | none => rfl
    | some c => simp
  · rw [if_neg own]
    cases live : t.live? k generation with
    | none => rfl
    | some c => simp [own]

theorem find?_tick (order : t.channels.Pairwise fun c d => c.key.before d.key = true) (now : Nat)
    (key : Key) : (t.tick now).value.find? key = (t.slot now key .tick).value := by
  show (tickAll (t.context now) t.channels).value.find? (·.key == key) = _
  rw [find?_tickAll order]
  show (t.find? key).bind _ = _
  unfold slot
  cases t.find? key <;> rfl

theorem find?_perform (sound : t.Sound peer) (now : Nat) (r : Request) (key : Key) :
    (t.perform now r).value.2.find? key = (t.slot now key r).value := by
  cases r with
  | datagram sender bytes => exact find?_onDatagram sender now bytes key
  | connect k => exact find?_connect now k key
  | write k generation w => exact find?_write now k key generation w
  | close k generation => exact find?_close k key generation now
  | tick => exact find?_tick sound.order now key
  | stats => rfl
  | channelStats => rfl

theorem speaks_onPacket {ctx : Context} {c : Channel} {p : Packet} (sound : c.Sound)
    (wellFormed : p.WellFormed) (own : p.header.channel = c.key.channel) :
    ∀ e ∈ (c.onPacket ctx p).log, e.Speaks c.key :=
  (moves_onPacket ctx c p).speaks sound ⟨wellFormed, own⟩

theorem voice_onDatagram (sound : t.Sound peer) (now : Nat) (bytes : Bytes) (n : UInt8) :
    voice n (t.onDatagram now peer bytes).log =
      voice n (t.slot now ⟨peer, n⟩ (.datagram peer bytes)).log := by
  simp only [onDatagram, slot]
  cases parsed : Packet.parse bytes with
  | error _ => rfl
  | ok p =>
    have wellFormed := Packet.wellFormed_of_parse parsed
    dsimp only
    by_cases own : p.header.channel = n
    · subst own
      rw [if_pos rfl]
      cases found : t.find? ⟨peer, p.header.channel⟩ with
      | some c => rfl
      | none =>
        dsimp only
        split <;> rfl
    · rw [if_neg fun same => own (congrArg Key.channel same)]
      cases found : t.find? ⟨peer, p.header.channel⟩ with
      | some c =>
        obtain ⟨mem, key⟩ := mem_of_find? found
        refine voice_of_ne (speaks_onPacket (sound.channels c mem) wellFormed (by rw [key])) ?_
        rwa [key]
      | none =>
        dsimp only
        split
        · exact voice_of_ne
            (speaks_onPacket (sound_create wellFormed.channel_le) wellFormed rfl) own
        · rfl

theorem voice_connect (now : Nat) {k : Key} (addr : k.addr = peer)
    (channel_le : k.channel ≤ Packet.maxChannel) (n : UInt8) :
    voice n (t.connect now k).log = voice n (t.slot now ⟨peer, n⟩ (.connect k)).log := by
  simp only [connect, slot]
  by_cases own : k = ⟨peer, n⟩
  · subst own
    rw [if_pos rfl]
    cases t.find? ⟨peer, n⟩ <;> rfl
  · rw [if_neg own]
    cases t.find? k with
    | some c => rfl
    | none =>
      have moves := moves_ping (t.context now)
        (Channel.create k t.nextGeneration t.config now) .ping (.inl rfl)
      have speaks := moves.speaks (sound_create channel_le) trivial
      refine voice_of_ne speaks fun same => own ?_
      have same : k.channel = n := same
      rw [← addr, ← same]

/-- A write to another channel says nothing with this channel's number, whoever is asked. -/
theorem voice_write (sound : t.Sound peer) (now : Nat) (k : Key) (generation : Nat)
    (w : ParkedWrite) (n : UInt8) :
    voice n (t.write now k generation w).log =
      voice n (t.slot now ⟨peer, n⟩ (.write k generation w)).log := by
  simp only [write, slot]
  by_cases long : t.config.maxPayloadLength < w.payload.length
  · rw [if_pos long, if_neg fun fits => absurd fits.2 (Nat.not_le_of_lt long)]
    rfl
  · rw [if_neg long]
    have fits := Nat.le_of_not_lt long
    by_cases own : k = ⟨peer, n⟩
    · subst own
      rw [if_pos ⟨rfl, fits⟩]
      cases t.live? ⟨peer, n⟩ generation <;> rfl
    · rw [if_neg fun both => own both.1]
      cases live : t.live? k generation with
      | none => rfl
      | some c =>
        obtain ⟨mem, key⟩ := mem_of_find? (find?_of_live? live)
        have moves := moves_write (t.context now) c w
        refine voice_of_ne (moves.speaks (sound.channels c mem)
          (Nat.le_trans fits (maxPayloadLength_le _))) fun same => own ?_
        rw [← key, ← same, ← sound.peer c mem]

theorem voice_close (sound : t.Sound peer) (now : Nat) (k : Key) (generation : Nat) (n : UInt8) :
    voice n (t.close k generation).log =
      voice n (t.slot now ⟨peer, n⟩ (.close k generation)).log := by
  simp only [close, slot]
  by_cases own : k = ⟨peer, n⟩
  · subst own
    rw [if_pos rfl]
    cases t.live? ⟨peer, n⟩ generation <;> rfl
  · rw [if_neg own]
    cases live : t.live? k generation with
    | none => rfl
    | some c =>
      obtain ⟨mem, key⟩ := mem_of_find? (find?_of_live? live)
      refine voice_of_ne (speaks_destroy c .closed) fun same => own ?_
      rw [← key, ← same, ← sound.peer c mem]

theorem voice_tick (sound : t.Sound peer) (now : Nat) (n : UInt8) :
    voice n (t.tick now).log = voice n (t.slot now ⟨peer, n⟩ .tick).log := by
  show voice n (tickAll (t.context now) t.channels).log = _
  rw [voice_tickAll sound.order sound.channels sound.peer]
  show ((t.find? ⟨peer, n⟩).map _).getD [] = _
  unfold slot
  cases t.find? ⟨peer, n⟩ <;> rfl

theorem voice_perform (sound : t.Sound peer) (now : Nat) {r : Request} (asked : r.Sound peer)
    (n : UInt8) :
    voice n (t.perform now r).log = voice n (t.slot now ⟨peer, n⟩ r).log := by
  cases r with
  | datagram sender bytes =>
    obtain rfl : sender = peer := asked
    exact voice_onDatagram sound now bytes n
  | connect k => exact voice_connect now asked.1 asked.2 n
  | write k generation w => exact voice_write sound now k generation w n
  | close k generation => exact voice_close sound now k generation n
  | tick => exact voice_tick sound now n
  | stats => rfl
  | channelStats => rfl

end Table

end ReliableDatagram
