import ReliableDatagram.Link.Delivery
import ReliableDatagram.Proofs.Link.History

/-!
# Calm runs

In a calm run nothing is lost, copied or overtaken, and the ends act on their own only while nothing
is in the air. What happens to a conversation is then known exactly.
-/

namespace ReliableDatagram

namespace Conversation

open Link Channel

/-- The oldest packet from the end `e` is not in the air any more. -/
def land (v : Conversation) (e : End) : Conversation where
  channel? := v.channel?
  air x := if x = e then (v.air e).tail else v.air x

@[simp] theorem sender_land (v : Conversation) (e x : End) : (v.land e).sender x = v.sender x := rfl

@[simp] theorem receiver_land (v : Conversation) (e x : End) :
    (v.land e).receiver x = v.receiver x := rfl

@[simp] theorem air_land_self (v : Conversation) (e : End) : (v.land e).air e = (v.air e).tail :=
  if_pos rfl

@[simp] theorem air_land_other (v : Conversation) (e : End) :
    (v.land e).air e.other = v.air e.other := if_neg e.other_ne

@[simp] theorem air_land_back (v : Conversation) (e : End) : (v.land e.other).air e = v.air e :=
  if_neg e.other_ne.symm

end Conversation

namespace Link

open Channel

/-- The operation is in order at this moment of a calm run. -/
def Op.Calm (l : Link) : Op → Prop
  | .pass _ => True
  | .connect _ _ | .write _ _ _ _ | .tick _ => l.isQuiet = true
  | .deliver _ i => i = 0
  | _ => False

def Calm : List Op → Link → Prop
  | [], _ => True
  | op :: ops, l => op.Calm l ∧ Calm ops (l.apply op).value

instance instDecidableOpCalm (l : Link) : (op : Op) → Decidable (op.Calm l)
  | .pass _ => .isTrue trivial
  | .connect _ _ | .write _ _ _ _ | .tick _ => inferInstanceAs (Decidable (l.isQuiet = true))
  | .deliver _ i => inferInstanceAs (Decidable (i = 0))
  | .close _ _ _ | .copy _ _ | .lose _ _ | .restart _ _ => .isFalse not_false

instance instDecidableCalm : (ops : List Op) → (l : Link) → Decidable (Calm ops l)
  | [], _ => .isTrue trivial
  | op :: ops, l =>
    have := instDecidableCalm ops (l.apply op).value
    inferInstanceAs (Decidable (_ ∧ _))

variable {l : Link} {e x : End} {n : UInt8} {op : Op}

theorem air_of_quiet (quiet : l.isQuiet = true) (e : End) (n : UInt8) : l.air e n = [] := by
  have both : l.a.flying = [] ∧ l.b.flying = [] := by simpa [isQuiet] using quiet
  unfold air
  cases e with
  | a =>
    have none : (l.side .a).flying = [] := both.1
    rw [none]
    rfl
  | b =>
    have none : (l.side .b).flying = [] := both.2
    rw [none]
    rfl

/-- What an operation of a calm run does to the conversation on a channel number: nothing, or the
oldest packet from one end is heard by the other end, or it is lost on an end without a channel, or
one end acts on its own while no packet is in the air. -/
inductive CalmEpisode (n : UInt8) (l : Link) (op : Op) : Prop
  | still (view : (l.apply op).value.conversation n = l.conversation n)
      (silent : ∀ x, said x n (l.apply op).log = [])
  | hear {e : End} {p : Packet} {rest : List Packet} {c c' : Channel} {log : List Effect}
      (first : l.air e n = p :: rest)
      (offered : (l.side e.other).table.Offers l.now (l.key e.other n) c) (sound : c.Sound)
      (known : (Channel.Op.packet p).Sound c.key)
      (exact : c.onPacket (l.context e.other) p = ⟨c', log⟩)
      (view : (l.apply op).value.conversation n =
        ((l.conversation n).land e).turn e.other (some c') (packets log))
      (speech : ∀ x, said x n (l.apply op).log = if x = e.other then voice n log else [])
  | miss {e : End} {p : Packet} {rest : List Packet} (first : l.air e n = p :: rest)
      (missing : l.channel? e.other n = none) (closed : p.header.kind.opensChannel = false)
      (view : (l.apply op).value.conversation n = (l.conversation n).land e)
      (silent : ∀ x, said x n (l.apply op).log = [])
  | act {e : End} {asked : Channel.Op} {c c' : Channel} {log : List Effect}
      {ws : List ParkedWrite} (quiet : ∀ x, l.air x n = [])
      (offered : (l.side e).table.Offers l.now (l.key e n) c) (sound : c.Sound)
      (own : ∀ q, asked ≠ .packet q) (known : asked.Sound c.key)
      (exact : c.apply (l.context e) asked = ⟨c', log⟩)
      (moves : Moves (l.context e) asked c log ws c')
      (view : (l.apply op).value.conversation n =
        (l.conversation n).turn e (some c') (packets log))
      (speech : ∀ x, said x n (l.apply op).log = if x = e then voice n log else [])

/-- What the delivery of the oldest datagram from one end does to the conversation on a channel
number: nothing, or the other end hears the oldest packet, or it is lost there. -/
inductive Landing (n : UInt8) (l : Link) (e : End) : Prop
  | still (view : (l.apply (.deliver e 0)).value.conversation n = l.conversation n)
      (silent : ∀ x, said x n (l.apply (.deliver e 0)).log = [])
  | hear {p : Packet} {rest : List Packet} {c c' : Channel} {log : List Effect}
      (first : l.air e n = p :: rest)
      (offered : (l.side e.other).table.Offers l.now (l.key e.other n) c) (sound : c.Sound)
      (known : (Channel.Op.packet p).Sound c.key)
      (exact : c.onPacket (l.context e.other) p = ⟨c', log⟩)
      (view : (l.apply (.deliver e 0)).value.conversation n =
        ((l.conversation n).land e).turn e.other (some c') (packets log))
      (speech : ∀ x, said x n (l.apply (.deliver e 0)).log =
        if x = e.other then voice n log else [])
  | miss {p : Packet} {rest : List Packet} (first : l.air e n = p :: rest)
      (missing : l.channel? e.other n = none) (closed : p.header.kind.opensChannel = false)
      (view : (l.apply (.deliver e 0)).value.conversation n = (l.conversation n).land e)
      (silent : ∀ x, said x n (l.apply (.deliver e 0)).log = [])

section Deliver

variable {bytes : Bytes} {flying : List Bytes}

theorem flying_lose_first (l : Link) (e x : End) :
    ((l.lose e 0).2.side x).flying = if x = e then (l.side e).flying.tail else (l.side x).flying := by
  simp only [lose, side_setSide, List.eraseIdx_zero]
  split
  · rfl
  · rfl

/-- Taking the oldest datagram out of the air. -/
theorem conversation_lose_first (found : (l.side e).flying = bytes :: flying) :
    (l.lose e 0).2.conversation n =
      if ((Packet.parse bytes).toOption.any (·.header.channel == n)) = true
      then (l.conversation n).land e else l.conversation n := by
  have channels : ((l.lose e 0).2.channel? · n) = (l.channel? · n) := by
    funext x
    simp only [channel?, table_lose, key, addr_lose]
  have airs (y : End) : (l.lose e 0).2.air y n =
      if y = e then packetsOn n flying else l.air y n := by
    simp only [air, flying_lose_first]
    split
    · rw [found]
      rfl
    · rfl
  have head : l.air e n = packetsOn n [bytes] ++ packetsOn n flying := by
    rw [air, found, ← packetsOn_append]
    rfl
  unfold conversation Conversation.land
  rw [channels]
  split
  · next own =>
    congr 1
    funext y
    rw [airs]
    split
    · show packetsOn n flying = (l.air e n).tail
      rw [head]
      cases parsed : Packet.parse bytes with
      | error _ =>
        rw [parsed] at own
        cases own
      | ok p =>
        rw [parsed] at own
        have own : (p.header.channel == n) = true := own
        simp [packetsOn, parsed, Except.toOption, own]
    · rfl
  · next other =>
    congr 1
    funext y
    rw [airs]
    split
    · next same =>
      show packetsOn n flying = l.air y n
      rw [same, head]
      cases parsed : Packet.parse bytes with
      | error _ => simp [packetsOn, parsed, Except.toOption]
      | ok p =>
        rw [parsed] at other
        have other : ¬ (p.header.channel == n) = true := other
        simp [packetsOn, parsed, Except.toOption, other]
    · rfl

theorem still_of_slot (sound : l.Sound) {r : Table.Request}
    (asked : l.request? (.deliver e 0) = some (e.other, r))
    (prepared : (l.prepare (.deliver e 0)).conversation n = l.conversation n)
    (slot : (l.side e.other).table.slot l.now (l.key e.other n) r = pure (l.channel? e.other n)) :
    Landing n l e := by
  have known : (Op.deliver e 0).Sound := trivial
  obtain ⟨view, speech⟩ := conversation_apply sound known asked n
  rw [slot, prepared] at view
  rw [slot] at speech
  refine .still (view.trans ((l.conversation n).turn_self e.other)) fun x => ?_
  rw [speech]
  split <;> rfl

/-- The channel at the other end hears the oldest packet. -/
theorem hear_of_slot (sound : l.Sound) {p : Packet} {c : Channel} {flying : List Bytes}
    (found : (l.side e).flying = bytes :: flying) (parsed : Packet.parse bytes = .ok p)
    (own : p.header.channel = n) (first : l.air e n = p :: packetsOn n flying)
    (prepared : (l.prepare (.deliver e 0)).conversation n = (l.conversation n).land e)
    (offered : (l.side e.other).table.Offers l.now (l.key e.other n) c) (cSound : c.Sound)
    (slot : (l.side e.other).table.slot l.now (l.key e.other n)
      (.datagram (l.side e).addr bytes) = some <$> c.onPacket (l.context e.other) p) :
    Landing n l e := by
  have asked : l.request? (.deliver e 0) = some (e.other, .datagram (l.side e).addr bytes) := by
    simp [request?, found]
  have known : (Channel.Op.packet p).Sound c.key := by
    rw [offered.key_eq]
    exact ⟨Packet.wellFormed_of_parse parsed, own⟩
  have speaks := (moves_onPacket (l.context e.other) c p).speaks cSound known
  have deliver : (Op.deliver e 0).Sound := trivial
  obtain ⟨view, speech⟩ := conversation_apply sound deliver asked n
  rw [slot] at view speech
  rw [prepared] at view
  refine .hear first offered cSound known rfl ?_ speech
  rw [view]
  exact congrArg _ (packets_voice speaks (by rw [offered.key_eq]; rfl))

/-- The oldest datagram carries a packet with this channel number. -/
theorem landing_own (sound : l.Sound) {p : Packet}
    (found : (l.side e).flying = bytes :: flying) (parsed : Packet.parse bytes = .ok p)
    (own : p.header.channel = n) : Landing n l e := by
  have asked : l.request? (.deliver e 0) = some (e.other, .datagram (l.side e).addr bytes) := by
    simp [request?, found]
  have prepared : (l.prepare (.deliver e 0)).conversation n = (l.conversation n).land e := by
    refine (conversation_lose_first found).trans (if_pos ?_)
    simpa [parsed, Except.toOption] using own
  have first : l.air e n = p :: packetsOn n flying := by
    rw [Link.air, found]
    simp [packetsOn, parsed, Except.toOption, own]
  have target : (⟨(l.side e).addr, p.header.channel⟩ : Key) = l.key e.other n := by
    rw [key, End.other_other, own]
  cases there : l.channel? e.other n with
  | some c =>
    have there : (l.side e.other).table.find? (l.key e.other n) = some c := there
    refine hear_of_slot sound found parsed own first prepared (.inl there)
      ((sound e.other).channels c (Table.mem_of_find? there).1) ?_
    simp only [Table.slot, parsed, if_pos target, there]
    rfl
  | none =>
    have missing : (l.side e.other).table.find? (l.key e.other n) = none := there
    cases opens : p.header.kind.opensChannel with
    | true =>
      have channel_le := (Packet.wellFormed_of_parse parsed).channel_le
      refine hear_of_slot sound found parsed own first prepared (.inr ⟨missing, rfl⟩)
        (Table.sound_create (by rwa [← target])) ?_
      simp only [Table.slot, parsed, if_pos target, missing, opens, if_true]
      rfl
    | false =>
      have known : (Op.deliver e 0).Sound := trivial
      obtain ⟨view, speech⟩ := conversation_apply sound known asked n
      have slot : (l.side e.other).table.slot l.now (l.key e.other n)
          (.datagram (l.side e).addr bytes) = pure none := by
        simp only [Table.slot, parsed, if_pos target, missing, opens]
        rfl
      rw [slot, prepared] at view
      rw [slot] at speech
      refine .miss first there opens ?_ fun x => (speech x).trans (by split <;> rfl)
      rw [view]
      have same := ((l.conversation n).land e).turn_self e.other
      have nothing : ((l.conversation n).land e).channel? e.other = none := there
      rwa [nothing] at same

/-- Every delivery of the oldest datagram is a landing. -/
theorem landing (sound : l.Sound) (e : End) (n : UInt8) : Landing n l e := by
  cases found : (l.side e).flying with
  | nil =>
    have none : l.request? (.deliver e 0) = none := by simp [request?, found]
    have same : (l.lose e 0).2 = l := lose_missing (by rw [found]; rfl)
    refine .still ?_ fun x => ?_
    · rw [apply_of_no_request none]
      exact congrArg (·.conversation n) same
    · rw [apply_of_no_request none]
      rfl
  | cons bytes flying =>
    have asked : l.request? (.deliver e 0) = some (e.other, .datagram (l.side e).addr bytes) := by
      simp [request?, found]
    have landed := conversation_lose_first (n := n) found
    cases parsed : Packet.parse bytes with
    | error _ =>
      rw [parsed] at landed
      refine still_of_slot sound asked landed ?_
      simp only [Table.slot, parsed]
      rfl
    | ok p =>
      by_cases own : p.header.channel = n
      · exact landing_own sound found parsed own
      · rw [parsed] at landed
        have prepared : (l.prepare (.deliver e 0)).conversation n = l.conversation n :=
          landed.trans (if_neg (by simpa [Except.toOption] using own))
        have other : ¬ (⟨(l.side e).addr, p.header.channel⟩ : Key) = l.key e.other n := by
          rw [key, End.other_other]
          exact fun same => own (congrArg Key.channel same)
        refine still_of_slot sound asked prepared ?_
        simp only [Table.slot, parsed, if_neg other]
        rfl

end Deliver

/-- What an end does on its own leaves its channel where it is or makes it move. -/
theorem calm_own (sound : l.Sound) (known : op.Sound) {r : Table.Request}
    (asked : l.request? op = some (e, r)) (quiet : l.isQuiet = true)
    (prepared : (l.prepare op).conversation n = l.conversation n)
    (silent : ∀ sender bytes, r ≠ .datagram sender bytes)
    (keeps : (l.channel? e n).isSome → ((l.apply op).value.channel? e n).isSome) :
    CalmEpisode n l op := by
  obtain ⟨view, speech⟩ := conversation_apply sound known asked n
  have turn := Table.turn_slot (sound e) l.now (l.key e n) (sound_request known asked)
  rw [prepared] at view
  generalize (l.side e).table.slot l.now (l.key e n) r = x at turn view speech
  generalize (l.side e).table.takes l.now (l.key e n) r = ws at turn
  generalize Table.hears (l.key e n) r = ps at turn
  cases turn with
  | idle =>
    refine .still (view.trans ((l.conversation n).turn_self e)) fun x => ?_
    rw [speech]
    split <;> rfl
  | @act cop c c' log ws offered asks cSound known exact moves =>
    have key := offered.key_eq
    rw [← key] at known
    have own : ∀ q, cop ≠ .packet q := by
      rintro q rfl
      cases asks with
      | packet parsed => exact silent _ _ rfl
    refine .act (air_of_quiet quiet · n) offered cSound own known exact moves ?_ speech
    rw [view]
    exact congrArg _ (packets_voice (moves.speaks cSound known) (by rw [key]; rfl))
  | leave found =>
    have gone : (l.apply op).value.channel? e n = none :=
      (congrArg (·.channel? e) view).trans (Conversation.turn_channel?_self _ e _ _)
    have lost := keeps (Option.isSome_iff_exists.mpr ⟨_, found⟩)
    rw [gone] at lost
    cases lost

/-- Every operation of a calm run is an episode of one of four kinds, as long as no channel with the
number is destroyed. -/
theorem calm_episode (sound : l.Sound) (known : op.Sound) (calm : op.Calm l)
    (keeps : ∀ e, (l.channel? e n).isSome → ((l.apply op).value.channel? e n).isSome) :
    CalmEpisode n l op := by
  cases op with
  | pass duration => exact .still rfl fun _ => rfl
  | deliver e i =>
    obtain rfl : i = 0 := calm
    cases landing sound e n with
    | still view silent => exact .still view silent
    | hear first offered sound known exact view speech =>
      exact .hear first offered sound known exact view speech
    | miss first missing closed view silent => exact .miss first missing closed view silent
  | connect e channel => exact calm_own sound known rfl calm rfl nofun (keeps e)
  | write e channel generation w => exact calm_own sound known rfl calm rfl nofun (keeps e)
  | tick e => exact calm_own sound known rfl calm rfl nofun (keeps e)
  | close | copy | lose | restart => exact calm.elim

end Link

end ReliableDatagram
