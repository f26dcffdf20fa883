import ReliableDatagram.Proofs.Channel.Sound
import ReliableDatagram.Table.Run

/-!
# Tables towards one peer

A table that talks to one peer only has sound channels with that peer's address, in strict key
order. Every request keeps it so.
-/

namespace ReliableDatagram

open Channel

theorem Key.before_trans {i j k : Key} (first : i.before j = true) (second : j.before k = true) :
    i.before k = true := by
  simp only [Key.before, decide_eq_true_eq] at first second ⊢
  omega

theorem Key.before_of_not {j k : Key} (other : j ≠ k) (order : j.before k = false) :
    k.before j = true := by
  have ranks : j.rank ≠ k.rank := fun same => other (Key.rank_injective same)
  simp only [Key.before, decide_eq_true_eq, decide_eq_false_iff_not] at order ⊢
  omega

namespace Table

structure Sound (peer : SocketAddr) (t : Table) : Prop where
  channels : ∀ c ∈ t.channels, c.Sound
  peer : ∀ c ∈ t.channels, c.key.addr = peer
  order : t.channels.Pairwise fun c d => c.key.before d.key = true

/-- What the callers of a table make sure of: its only peer is the one with this address. -/
def Request.Sound (peer : SocketAddr) : Request → Prop
  | .datagram sender _ => sender = peer
  | .connect key => key.addr = peer ∧ key.channel ≤ Packet.maxChannel
  | _ => True

theorem sound_empty (peer : SocketAddr) (t : Table) (empty : t.channels = []) : t.Sound peer := by
  refine ⟨?_, ?_, ?_⟩ <;> simp [empty]

theorem mem_of_find? {t : Table} {key : Key} {c : Channel} (found : t.find? key = some c) :
    c ∈ t.channels ∧ c.key = key :=
  ⟨List.mem_of_find?_eq_some found, by simpa using List.find?_some found⟩

theorem find?_of_live? {t : Table} {key : Key} {generation : Nat} {c : Channel}
    (live : t.live? key generation = some c) : t.find? key = some c :=
  (Option.filter_eq_some_iff.mp live).1

theorem live?_of_missing {t : Table} {key : Key} (missing : t.find? key = none)
    (generation : Nat) : t.live? key generation = none := by
  rw [live?, missing, Option.filter_none]

/-- A request changes a table's channels, the next generation and the count of malformed packets, and
nothing else. -/
theorem view_perform {α : Type} {f : Table → α}
    (blind : ∀ (t : Table) channels nextGeneration malformedPackets,
      f { t with channels, nextGeneration, malformedPackets } = f t)
    (t : Table) (now : Nat) (r : Request) : f (t.perform now r).value.2 = f t := by
  cases r with
  | datagram sender bytes =>
    show f (t.onDatagram now sender bytes).value = f t
    unfold onDatagram
    split
    · exact blind t _ _ _
    · dsimp only
      split
      · exact blind t _ _ _
      · split
        · exact blind t _ _ _
        · rfl
  | connect key =>
    show f (t.connect now key).value.2 = f t
    unfold connect
    split
    · rfl
    · exact blind t _ _ _
  | write key generation w =>
    show f (t.write now key generation w).value = f t
    unfold write
    dsimp only
    split
    · rfl
    · split
      · exact blind t _ _ _
      · rfl
  | close key generation =>
    show f (t.close key generation).value.2 = f t
    unfold close
    split
    · exact blind t _ _ _
    · rfl
  | tick => exact blind t _ _ _
  | stats => rfl
  | channelStats => rfl

theorem mem_insertByKey {c d : Channel} {channels : List Channel}
    (mem : d ∈ insertByKey c channels) : d = c ∨ d ∈ channels := by
  induction channels with
  | nil => exact .inl (List.mem_singleton.mp mem)
  | cons x xs ih =>
    unfold insertByKey at mem
    split at mem
    · rcases List.mem_cons.mp mem with rfl | tail
      · exact .inl rfl
      · exact .inr (List.mem_cons_of_mem _ tail)
    · split at mem
      · exact List.mem_cons.mp mem
      · rcases List.mem_cons.mp mem with rfl | tail
        · exact .inr List.mem_cons_self
        · rcases ih tail with same | tail
          · exact .inl same
          · exact .inr (List.mem_cons_of_mem _ tail)

theorem insertByKey_order {c : Channel} {channels : List Channel}
    (order : channels.Pairwise fun c d => c.key.before d.key = true) :
    (insertByKey c channels).Pairwise fun c d => c.key.before d.key = true := by
  induction channels with
  | nil => exact List.pairwise_singleton _ _
  | cons x xs ih =>
    obtain ⟨first, rest⟩ := List.pairwise_cons.mp order
    unfold insertByKey
    split
    · next same =>
      rw [← same] at first
      exact List.pairwise_cons.mpr ⟨first, rest⟩
    · next other =>
      split
      · next before =>
        refine List.pairwise_cons.mpr ⟨fun d mem => ?_, order⟩
        rcases List.mem_cons.mp mem with rfl | tail
        · exact before
        · exact Key.before_trans before (first d tail)
      · next after =>
        refine List.pairwise_cons.mpr ⟨fun d mem => ?_, ih rest⟩
        rcases mem_insertByKey mem with rfl | tail
        · exact Key.before_of_not other (by simpa using after)
        · exact first d tail

variable {peer : SocketAddr} {t : Table}

theorem Sound.put (sound : t.Sound peer) {c : Channel} (own : c.Sound)
    (addr : c.key.addr = peer) : (t.put c).Sound peer := by
  refine ⟨fun d mem => ?_, fun d mem => ?_, insertByKey_order sound.order⟩
  · rcases mem_insertByKey mem with rfl | old
    · exact own
    · exact sound.channels d old
  · rcases mem_insertByKey mem with rfl | old
    · exact addr
    · exact sound.peer d old

theorem Sound.erase (sound : t.Sound peer) (key : Key) : (t.erase key).Sound peer :=
  ⟨fun c mem => sound.channels c (List.mem_filter.mp mem).1,
    fun c mem => sound.peer c (List.mem_filter.mp mem).1,
    sound.order.sublist List.filter_sublist⟩

theorem sound_create {key : Key} {generation now : Nat} {config : Config}
    (channel_le : key.channel ≤ Packet.maxChannel) :
    (Channel.create key generation config now).Sound := by
  refine ⟨channel_le, ?_, ?_, ?_⟩
  · exact fun _ held => (List.not_mem_nil held).elim
  · exact fun _ pending => nomatch pending
  · exact fun _ waits => (List.not_mem_nil waits).elim

section Tick

variable {ctx : Context}

theorem tickOne_kept {c : Channel} (kept : (c.tick ctx).value.2 = none) :
    tickOne ctx c = ⟨some (c.tick ctx).value.1, (c.tick ctx).log⟩ := by
  unfold tickOne
  generalize c.tick ctx = x at kept ⊢
  obtain ⟨⟨d, reason⟩, log⟩ := x
  obtain rfl : reason = none := kept
  exact congrArg _ (List.append_nil log)

theorem tickOne_gone {c : Channel} {reason : DisconnectReason}
    (gone : (c.tick ctx).value.2 = some reason) :
    tickOne ctx c =
      ⟨none, (c.tick ctx).log ++ ((c.tick ctx).value.1.destroy reason).log⟩ := by
  unfold tickOne
  generalize c.tick ctx = x at gone ⊢
  obtain ⟨⟨d, reason'⟩, log⟩ := x
  obtain rfl : reason' = some reason := gone
  rfl

/-- A ticked channel lives on as itself or not at all. -/
theorem tickOne_value (ctx : Context) (c : Channel) :
    (tickOne ctx c).value = some (c.tick ctx).value.1 ∨ (tickOne ctx c).value = none := by
  cases outcome : (c.tick ctx).value.2 with
  | none => exact .inl (by rw [tickOne_kept outcome])
  | some reason => exact .inr (by rw [tickOne_gone outcome])

theorem mem_tickAll {c' : Channel} {channels : List Channel}
    (mem : c' ∈ (tickAll ctx channels).value) : ∃ c ∈ channels, c' = (c.tick ctx).value.1 := by
  induction channels with
  | nil => cases mem
  | cons c cs ih =>
    rcases List.mem_append.mp mem with here | there
    · rcases tickOne_value ctx c with kept | gone
      · rw [kept] at here
        exact ⟨c, List.mem_cons_self, by simpa using here⟩
      · rw [gone] at here
        cases here
    · obtain ⟨d, mem, same⟩ := ih there
      exact ⟨d, List.mem_cons_of_mem _ mem, same⟩

theorem key_tick (ctx : Context) (c : Channel) : (c.tick ctx).value.1.key = c.key :=
  (moves_tick ctx c).key

theorem tickAll_order {channels : List Channel}
    (order : channels.Pairwise fun c d => c.key.before d.key = true) :
    (tickAll ctx channels).value.Pairwise fun c d => c.key.before d.key = true := by
  induction channels with
  | nil => exact .nil
  | cons c cs ih =>
    obtain ⟨first, rest⟩ := List.pairwise_cons.mp order
    show ((tickOne ctx c).value.toList ++ (tickAll ctx cs).value).Pairwise _
    rcases tickOne_value ctx c with kept | gone
    · rw [kept]
      refine List.pairwise_cons.mpr ⟨fun d mem => ?_, ih rest⟩
      obtain ⟨d, origin, rfl⟩ := mem_tickAll mem
      rw [key_tick, key_tick]
      exact first d origin
    · rw [gone]
      exact ih rest

theorem Sound.tick (sound : t.Sound peer) (now : Nat) : (t.tick now).value.Sound peer := by
  refine ⟨fun c mem => ?_, fun c mem => ?_, tickAll_order sound.order⟩
  · obtain ⟨d, origin, rfl⟩ := mem_tickAll mem
    exact (moves_tick _ d).sound (sound.channels d origin) trivial
  · obtain ⟨d, origin, rfl⟩ := mem_tickAll mem
    rw [key_tick]
    exact sound.peer d origin

end Tick

theorem Sound.onDatagram (sound : t.Sound peer) (now : Nat) (bytes : Bytes) :
    (t.onDatagram now peer bytes).value.Sound peer := by
  unfold Table.onDatagram
  split
  · exact ⟨sound.channels, sound.peer, sound.order⟩
  · next p parsed =>
    have wellFormed := Packet.wellFormed_of_parse parsed
    dsimp only
    split
    · next c found =>
      obtain ⟨mem, key⟩ := mem_of_find? found
      have moves := moves_onPacket (t.context now) c p
      refine Sound.put sound (moves.sound (sound.channels c mem) ⟨wellFormed, ?_⟩) ?_
      · rw [key]
      · rw [moves.key, key]
    · split
      · have moves := moves_onPacket (t.context now)
          (Channel.create ⟨peer, p.header.channel⟩ t.nextGeneration t.config now) p
        refine Sound.put (t := (t.create ⟨peer, p.header.channel⟩ now).2)
          ⟨sound.channels, sound.peer, sound.order⟩
          (moves.sound (sound_create wellFormed.channel_le) ⟨wellFormed, rfl⟩) ?_
        exact congrArg Key.addr moves.key
      · exact sound

theorem maxPayloadLength_le (c : Config) : c.maxPayloadLength ≤ 0xffff := by
  unfold Config.maxPayloadLength Config.payloadRoom?
  split
  · exact Nat.zero_le _
  · exact Nat.min_le_right _ _

theorem Sound.perform (sound : t.Sound peer) (now : Nat) {r : Request} (asked : r.Sound peer) :
    (t.perform now r).value.2.Sound peer := by
  cases r with
  | datagram sender bytes =>
    obtain rfl : sender = peer := asked
    exact sound.onDatagram now bytes
  | connect key =>
    show (t.connect now key).value.2.Sound peer
    unfold connect
    split
    · exact sound
    · have moves := moves_ping (t.context now)
        (Channel.create key t.nextGeneration t.config now) .ping (.inl rfl)
      refine Sound.put (t := (t.create key now).2) ⟨sound.channels, sound.peer, sound.order⟩
        (moves.sound (sound_create asked.2) trivial) ?_
      exact (congrArg Key.addr moves.key).trans asked.1
  | write key generation w =>
    show (t.write now key generation w).value.Sound peer
    unfold write
    dsimp only
    split
    · exact sound
    · next fits =>
      have limit := maxPayloadLength_le t.config
      split
      · next c live =>
        obtain ⟨mem, _⟩ := mem_of_find? (find?_of_live? live)
        have moves := moves_write (t.context now) c w
        refine Sound.put sound (moves.sound (sound.channels c mem) ?_) ?_
        · exact Nat.le_trans (Nat.le_of_not_lt fits) limit
        · rw [moves.key]
          exact sound.peer c mem
      · exact sound
  | close key generation =>
    show (t.close key generation).value.2.Sound peer
    unfold close
    split
    · exact sound.erase key
    · exact sound
  | tick => exact sound.tick now
  | stats => exact sound
  | channelStats key generation => exact sound

end Table

end ReliableDatagram
