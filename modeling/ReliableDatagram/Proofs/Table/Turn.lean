import ReliableDatagram.Proofs.Table.Slot

/-!
# What a request can do to a channel

A request leaves the channel with a key alone, or it makes the channel, which may be new, go
through a chain of moves, or it ends the channel's life.
-/

namespace ReliableDatagram.Table

open Channel

/-- The channel with this key, or the one that would be created for it. -/
def Offers (t : Table) (now : Nat) (key : Key) (c : Channel) : Prop :=
  t.find? key = some c ∨
    t.find? key = none ∧ c = Channel.create key t.nextGeneration t.config now

/-- The writes that the channel with this key takes in on a request: those not turned away. -/
def takes (t : Table) (now : Nat) (key : Key) : Request → List ParkedWrite
  | .write k generation w =>
    if k = key ∧ (t.write now k generation w).log.any (Effect.refuses w.ticket) = false then [w]
    else []
  | _ => []

/-- The operation of a channel that a request is about. -/
inductive Request.Asks : Request → Channel.Op → Prop
  | packet {sender : SocketAddr} {bytes : Bytes} {p : Packet}
      (parsed : Packet.parse bytes = .ok p) : Asks (.datagram sender bytes) (.packet p)
  | ping {key : Key} : Asks (.connect key) .ping
  | write {key : Key} {generation : Nat} {w : ParkedWrite} :
      Asks (.write key generation w) (.write w)
  | tick : Asks .tick .tick

/-- The data packets that a request brings to the channel with this key. -/
def hears (key : Key) : Request → List Packet
  | .datagram sender bytes =>
    match Packet.parse bytes with
    | .ok p => if (⟨sender, p.header.channel⟩ : Key) = key ∧ p.header.kind = .data then [p] else []
    | .error _ => []
  | _ => []

inductive Turn (t : Table) (now : Nat) (key : Key) (r : Request) :
    Logged Effect (Option Channel) → List ParkedWrite → List Packet → Prop
  | idle : Turn t now key r (pure (t.find? key)) [] []
  | act {op : Channel.Op} {c c' : Channel} {log : List Effect} {ws : List ParkedWrite}
      (offered : t.Offers now key c) (asked : r.Asks op) (sound : c.Sound) (asks : op.Sound key)
      (exact : c.apply (t.context now) op = ⟨c', log⟩)
      (moves : Moves (t.context now) op c log ws c') : Turn t now key r ⟨some c', log⟩ ws op.data
  | leave {c c' : Channel} {log : List Effect} {reason : DisconnectReason}
      (found : t.find? key = some c) (sound : c.Sound)
      (moves : Moves (t.context now) .tick c log [] c') :
      Turn t now key r ⟨none, log ++ (c'.destroy reason).log⟩ [] []

variable {t : Table} {peer : SocketAddr} {key : Key}

theorem Offers.key_eq {now : Nat} {c : Channel} (offered : t.Offers now key c) : c.key = key := by
  rcases offered with found | ⟨_, rfl⟩
  · exact (mem_of_find? found).2
  · rfl

theorem refuses_self (ticket : Nat) (error : TransportError) :
    Effect.refuses ticket (.reply ticket (.error error)) = true := by
  simp [Effect.refuses]

/-- A write is taken in just if the channel takes it. -/
theorem takes_write (now generation : Nat) (w : ParkedWrite) :
    t.takes now key (.write key generation w) =
      if w.payload.length ≤ t.config.maxPayloadLength then
        match t.live? key generation with
        | some c =>
          if (c.write (t.context now) w).log.any (Effect.refuses w.ticket) then [] else [w]
        | none => []
      else [] := by
  simp only [takes, write, true_and]
  by_cases long : t.config.maxPayloadLength < w.payload.length
  · rw [if_pos long, if_neg (Nat.not_le_of_lt long)]
    simp [refuses_self]
  · rw [if_neg long, if_pos (Nat.le_of_not_lt long)]
    cases t.live? key generation with
    | none => simp [refuses_self]
    | some c =>
      dsimp only [Logged.log_map]
      cases (c.write (t.context now) w).log.any (Effect.refuses w.ticket) <;> rfl

theorem takes_of_ne {k : Key} (now generation : Nat) (w : ParkedWrite) (other : k ≠ key) :
    t.takes now key (.write k generation w) = [] := by
  simp [takes, other]

theorem turn_tick (sound : t.Sound peer) (now : Nat) (key : Key) :
    Turn t now key .tick (t.slot now key .tick) [] [] := by
  simp only [slot]
  cases found : t.find? key with
  | none =>
    have still : Turn t now key .tick (pure (t.find? key)) [] [] := .idle
    rwa [found] at still
  | some c =>
    have own := sound.channels c (mem_of_find? found).1
    have moves := moves_tick (t.context now) c
    dsimp only
    cases outcome : (c.tick (t.context now)).value.2 with
    | none =>
      rw [tickOne_kept outcome]
      exact .act (.inl found) .tick own trivial rfl moves
    | some reason =>
      rw [tickOne_gone outcome]
      exact .leave found own moves

theorem turn_write (sound : t.Sound peer) (now : Nat) (key k : Key) (generation : Nat)
    (w : ParkedWrite) :
    Turn t now key (.write k generation w) (t.slot now key (.write k generation w))
      (t.takes now key (.write k generation w)) [] := by
  simp only [slot]
  by_cases own : k = key
  · subst own
    rw [takes_write]
    simp only [true_and]
    split
    · next fits =>
      cases live : t.live? k generation with
      | none => exact .idle
      | some c =>
        have found := find?_of_live? live
        exact .act (.inl found) .write (sound.channels c (mem_of_find? found).1)
          (Nat.le_trans fits (maxPayloadLength_le _)) rfl (moves_write (t.context now) c w)
    · exact .idle
  · rw [takes_of_ne now generation w own, if_neg fun both => own both.1]
    exact .idle

theorem turn_packet {c : Channel} {p : Packet} {sender : SocketAddr} {bytes : Bytes} {now : Nat}
    (offered : t.Offers now key c) (sound : c.Sound) (parsed : Packet.parse bytes = .ok p)
    (own : (⟨sender, p.header.channel⟩ : Key) = key) :
    Turn t now key (.datagram sender bytes) (some <$> c.onPacket (t.context now) p) []
      (hears key (.datagram sender bytes)) := by
  have data : hears key (.datagram sender bytes) = (Channel.Op.packet p).data := by
    simp only [hears, parsed, own, true_and]
    rfl
  rw [data]
  exact .act offered (.packet parsed) sound
    ⟨Packet.wellFormed_of_parse parsed, congrArg Key.channel own⟩ rfl
    (moves_onPacket (t.context now) c p)

theorem turn_datagram (sound : t.Sound peer) (now : Nat) (key : Key) (sender : SocketAddr)
    (bytes : Bytes) :
    Turn t now key (.datagram sender bytes) (t.slot now key (.datagram sender bytes)) []
      (hears key (.datagram sender bytes)) := by
  simp only [slot]
  cases parsed : Packet.parse bytes with
  | error _ =>
    have nothing : hears key (.datagram sender bytes) = [] := by simp only [hears, parsed]
    rw [nothing]
    exact .idle
  | ok p =>
    have wellFormed := Packet.wellFormed_of_parse parsed
    dsimp only
    split
    · next own =>
      split
      · next c found =>
        exact turn_packet (.inl found) (sound.channels c (mem_of_find? found).1) parsed own
      · next missing =>
        split
        · exact turn_packet (.inr ⟨missing, rfl⟩)
            (sound_create (by rw [← own]; exact wellFormed.channel_le)) parsed own
        · next closed =>
          have nothing : hears key (.datagram sender bytes) = [] := by
            simp only [hears, parsed]
            refine if_neg fun both => closed ?_
            rw [both.2]
            rfl
          have still : Turn t now key (.datagram sender bytes) (pure (t.find? key)) [] [] := .idle
          rw [nothing]
          rwa [missing] at still
    · next other =>
      have nothing : hears key (.datagram sender bytes) = [] := by
        simp only [hears, parsed]
        exact if_neg fun both => other both.1
      rw [nothing]
      exact .idle

theorem turn_connect (now : Nat) (key : Key) {k : Key} (channel_le : k.channel ≤ Packet.maxChannel) :
    Turn t now key (.connect k) (t.slot now key (.connect k)) [] [] := by
  simp only [slot]
  split
  · next own =>
    subst own
    split
    · next c found =>
      have still : Turn t now k (.connect k) (pure (t.find? k)) [] [] := .idle
      rwa [found] at still
    · next missing =>
      exact .act (.inr ⟨missing, rfl⟩) .ping (sound_create channel_le) trivial rfl
        (moves_ping (t.context now) _ .ping (.inl rfl))
  · exact .idle

theorem turn_close (sound : t.Sound peer) (now : Nat) (key k : Key) (generation : Nat) :
    Turn t now key (.close k generation) (t.slot now key (.close k generation)) [] [] := by
  simp only [slot]
  split
  · next own =>
    subst own
    split
    · next c live =>
      have found := find?_of_live? live
      exact .leave found (sound.channels c (mem_of_find? found).1) .none
    · exact .idle
  · exact .idle

theorem turn_slot (sound : t.Sound peer) (now : Nat) (key : Key) {r : Request}
    (asked : r.Sound peer) :
    Turn t now key r (t.slot now key r) (t.takes now key r) (hears key r) := by
  cases r with
  | datagram sender bytes => exact turn_datagram sound now key sender bytes
  | connect k => exact turn_connect now key asked.2
  | write k generation w => exact turn_write sound now key k generation w
  | close k generation => exact turn_close sound now key k generation
  | tick => exact turn_tick sound now key
  | stats => exact .idle
  | channelStats => exact .idle

end ReliableDatagram.Table
