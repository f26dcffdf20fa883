import ReliableDatagram.Link.Run
import ReliableDatagram.Proofs.SendQueue
import ReliableDatagram.Proofs.Table.Turn

/-!
# Conversations

Both ends' channels with one number and the packets between them are the conversation on that
number. What an operation of the link does to a conversation is an episode of one of four kinds.
-/

namespace ReliableDatagram

/-- The two channels with one number, and the packets with that number that fly from each end. -/
structure Conversation where
  channel? : Link.End → Option Channel
  air : Link.End → List Packet

namespace Conversation

open Link Channel

/-- The end `e` has this channel now and has sent these packets. -/
def turn (v : Conversation) (e : End) (c? : Option Channel) (sent : List Packet) : Conversation where
  channel? x := if x = e then c? else v.channel? x
  air x := if x = e then v.air e ++ sent else v.air x

theorem turn_turn (v : Conversation) (x : End) (c? c?' : Option Channel)
    (sent sent' : List Packet) :
    (v.turn x c? sent).turn x c?' sent' = v.turn x c?' (sent ++ sent') := by
  unfold Conversation.turn
  congr 1
  · funext e
    dsimp only
    split
    · rfl
    · rfl
  · funext e
    dsimp only
    split
    · rw [if_pos rfl, List.append_assoc]
    · rfl

theorem turn_self (v : Conversation) (e : End) : v.turn e (v.channel? e) [] = v := by
  obtain ⟨channel?, air⟩ := v
  simp only [Conversation.turn, List.append_nil, Conversation.mk.injEq]
  constructor
  · funext x
    split
    · next own => rw [own]
    · rfl
  · funext x
    split
    · next own => rw [own]
    · rfl

/-- The same channels, with nothing in the air that is not in the air of the other one too. -/
structure Within (v w : Conversation) : Prop where
  channel? : ∀ e, v.channel? e = w.channel? e
  air : ∀ e, (v.air e).Sublist (w.air e)

theorem Within.refl (v : Conversation) : v.Within v := ⟨fun _ => rfl, fun _ => .refl _⟩

theorem Within.turn {v w : Conversation} (within : v.Within w) (e : End) (c? : Option Channel)
    (sent : List Packet) : (v.turn e c? sent).Within (w.turn e c? sent) := by
  refine ⟨fun x => ?_, fun x => ?_⟩
  · simp only [Conversation.turn, within.channel? x]
  · simp only [Conversation.turn]
    split
    · exact (within.air e).append (.refl _)
    · exact within.air x

@[simp] theorem turn_channel?_self (v : Conversation) (e : End) (c? : Option Channel)
    (sent : List Packet) : (v.turn e c? sent).channel? e = c? := if_pos rfl

@[simp] theorem turn_air_self (v : Conversation) (e : End) (c? : Option Channel)
    (sent : List Packet) : (v.turn e c? sent).air e = v.air e ++ sent := if_pos rfl

end Conversation

namespace Link

theorem End.other_ne (e : End) : e.other ≠ e := by cases e <;> decide

@[simp] theorem End.other_other (e : End) : e.other.other = e := by cases e <;> rfl

theorem End.eq_other {e x : End} (other : x ≠ e) : x = e.other := by
  cases e <;> cases x <;> first | rfl | exact absurd rfl other

end Link

namespace Conversation

open Link Channel

@[simp] theorem turn_channel?_other (v : Conversation) (e : End) (c? : Option Channel)
    (sent : List Packet) : (v.turn e c? sent).channel? e.other = v.channel? e.other :=
  if_neg e.other_ne

@[simp] theorem turn_air_other (v : Conversation) (e : End) (c? : Option Channel)
    (sent : List Packet) : (v.turn e c? sent).air e.other = v.air e.other := if_neg e.other_ne

/-- A channel that does not exist sends like a new one. -/
def sender (v : Conversation) (e : End) : Sender :=
  match v.channel? e with
  | some c => c.sender
  | none => { unacked := { limit := 0 } }

def receiver (v : Conversation) (e : End) : Receiver :=
  match v.channel? e with
  | some c => c.receiver
  | none => {}

theorem sender_of_some {v : Conversation} {e : End} {c : Channel} (some : v.channel? e = .some c) :
    v.sender e = c.sender := by simp [sender, some]

theorem receiver_of_some {v : Conversation} {e : End} {c : Channel}
    (some : v.channel? e = .some c) : v.receiver e = c.receiver := by simp [receiver, some]

@[simp] theorem sender_turn_self (v : Conversation) (e : End) (c : Channel) (sent : List Packet) :
    (v.turn e (some c) sent).sender e = c.sender := sender_of_some (turn_channel?_self v e _ sent)

@[simp] theorem receiver_turn_self (v : Conversation) (e : End) (c : Channel) (sent : List Packet) :
    (v.turn e (some c) sent).receiver e = c.receiver :=
  receiver_of_some (turn_channel?_self v e _ sent)

@[simp] theorem sender_turn_other (v : Conversation) (e : End) (c? : Option Channel)
    (sent : List Packet) : (v.turn e c? sent).sender e.other = v.sender e.other := by
  simp [sender]

@[simp] theorem receiver_turn_other (v : Conversation) (e : End) (c? : Option Channel)
    (sent : List Packet) : (v.turn e c? sent).receiver e.other = v.receiver e.other := by
  simp [receiver]

@[simp] theorem turn_channel?_back (v : Conversation) (e : End) (c? : Option Channel)
    (sent : List Packet) : (v.turn e.other c? sent).channel? e = v.channel? e :=
  if_neg e.other_ne.symm

@[simp] theorem turn_air_back (v : Conversation) (e : End) (c? : Option Channel)
    (sent : List Packet) : (v.turn e.other c? sent).air e = v.air e := if_neg e.other_ne.symm

@[simp] theorem sender_turn_back (v : Conversation) (e : End) (c? : Option Channel)
    (sent : List Packet) : (v.turn e.other c? sent).sender e = v.sender e := by simp [sender]

@[simp] theorem receiver_turn_back (v : Conversation) (e : End) (c? : Option Channel)
    (sent : List Packet) : (v.turn e.other c? sent).receiver e = v.receiver e := by
  simp [receiver]

theorem Within.sender {v w : Conversation} (within : v.Within w) (e : End) :
    v.sender e = w.sender e := by simp only [Conversation.sender, within.channel? e]

theorem Within.receiver {v w : Conversation} (within : v.Within w) (e : End) :
    v.receiver e = w.receiver e := by simp only [Conversation.receiver, within.channel? e]

/-- The same conversation up to losses in the air, where a new channel is like none. -/
structure Alike (v w : Conversation) : Prop where
  nextId : ∀ e, (v.sender e).nextId = (w.sender e).nextId
  contents : ∀ e, (v.sender e).unacked.contents = (w.sender e).unacked.contents
  parked : ∀ e, (v.sender e).parked = (w.sender e).parked
  receiver : ∀ e, v.receiver e = w.receiver e
  air : ∀ e, ∀ p ∈ v.air e, p ∈ w.air e

theorem Within.alike {v w : Conversation} (within : v.Within w) : v.Alike w := by
  refine ⟨fun e => ?_, fun e => ?_, fun e => ?_, within.receiver, fun e p mem =>
    (within.air e).subset mem⟩
  · rw [within.sender]
  · rw [within.sender]
  · rw [within.sender]

/-- The channel is the one at the end `x`, or a new one where there is none. -/
structure Stands (v : Conversation) (x : End) (c : Channel) : Prop where
  nextId : c.sender.nextId = (v.sender x).nextId
  contents : c.sender.unacked.contents = (v.sender x).unacked.contents
  parked : c.sender.parked = (v.sender x).parked
  receiver : c.receiver = v.receiver x

theorem stands_of_offers {v : Conversation} {x : End} {c : Channel} {t : Table} {now : Nat}
    {key : Key} (found : t.find? key = v.channel? x) (offered : t.Offers now key c) :
    v.Stands x c := by
  rcases offered with here | ⟨missing, rfl⟩
  · rw [here] at found
    have sender := sender_of_some found.symm
    have receiver := receiver_of_some found.symm
    exact ⟨by rw [sender], by rw [sender], by rw [sender], receiver.symm⟩
  · rw [missing] at found
    constructor <;> simp only [sender, receiver, ← found] <;> rfl

theorem alike_offer {v : Conversation} {x : End} {c : Channel} {t : Table} {now : Nat} {key : Key}
    (found : t.find? key = v.channel? x) (offered : t.Offers now key c) :
    (v.turn x (some c) []).Alike v := by
  obtain ⟨nextId, contents, parked, receiver⟩ := stands_of_offers found offered
  constructor
  · intro e
    by_cases own : e = x
    · rw [own, sender_turn_self, nextId]
    · rw [End.eq_other own, sender_turn_other]
  · intro e
    by_cases own : e = x
    · rw [own, sender_turn_self, contents]
    · rw [End.eq_other own, sender_turn_other]
  · intro e
    by_cases own : e = x
    · rw [own, sender_turn_self, parked]
    · rw [End.eq_other own, sender_turn_other]
  · intro e
    by_cases own : e = x
    · rw [own, receiver_turn_self, receiver]
    · rw [End.eq_other own, receiver_turn_other]
  · intro e p mem
    simp only [turn, List.append_nil] at mem
    split at mem
    · next own => rwa [own]
    · exact mem

end Conversation

namespace Link

variable {n : UInt8}

def channel? (l : Link) (e : End) (n : UInt8) : Option Channel :=
  (l.side e).table.find? (l.key e n)

def packetsOn (n : UInt8) (flying : List Bytes) : List Packet :=
  (flying.filterMap fun bytes => (Packet.parse bytes).toOption).filter (·.header.channel == n)

def air (l : Link) (e : End) (n : UInt8) : List Packet := packetsOn n (l.side e).flying

def conversation (l : Link) (n : UInt8) : Conversation := ⟨(l.channel? · n), (l.air · n)⟩

def context (l : Link) (e : End) : Channel.Context := (l.side e).table.context l.now

/-- What the end `e` says with a channel number in a log of the link. -/
def said (e : End) (n : UInt8) (log : List (End × Effect)) : List Effect :=
  voice n ((log.filter (·.1 = e)).map Prod.snd)

@[simp] theorem said_nil (e : End) (n : UInt8) : said e n [] = [] := rfl

@[simp] theorem said_append (e : End) (n : UInt8) (log log' : List (End × Effect)) :
    said e n (log ++ log') = said e n log ++ said e n log' := by
  simp [said]

theorem said_map (e x : End) (n : UInt8) (log : List Effect) :
    said x n (log.map (e, ·)) = if x = e then voice n log else [] := by
  unfold said
  by_cases own : x = e
  · subst own
    rw [if_pos rfl, List.filter_eq_self.mpr (by simp), List.map_map]
    exact congrArg _ (List.map_id log)
  · have others : (log.map (e, ·)).filter (·.1 = x) = [] := by
      refine List.filter_eq_nil_iff.mpr fun y mem => ?_
      obtain ⟨_, _, rfl⟩ := List.mem_map.mp mem
      simpa using fun same => own same.symm
    rw [if_neg own, others]
    rfl

theorem packetsOn_sublist {flying flying' : List Bytes} (fewer : flying.Sublist flying') :
    (packetsOn n flying).Sublist (packetsOn n flying') := (fewer.filterMap _).filter _

theorem packetsOn_append (flying flying' : List Bytes) :
    packetsOn n (flying ++ flying') = packetsOn n flying ++ packetsOn n flying' := by
  simp [packetsOn]

theorem mem_packetsOn {flying : List Bytes} {bytes : Bytes} {p : Packet} (mem : bytes ∈ flying)
    (parsed : Packet.parse bytes = .ok p) : p ∈ packetsOn p.header.channel flying := by
  refine List.mem_filter.mpr ⟨List.mem_filterMap.mpr ⟨bytes, mem, ?_⟩, by simp⟩
  rw [parsed]
  rfl

/-- The packets that a log launches are those that it says. -/
theorem packetsOn_datagrams (log : List Effect) :
    packetsOn n ((log.filterMap Effect.datagram?).map Prod.snd) =
      (voice n log).filterMap Effect.packet? := by
  induction log with
  | nil => rfl
  | cons e log ih =>
    have datagram (target : SocketAddr) (bytes : Bytes) (seen : e.datagram? = some (target, bytes))
        (concerns : e.concerns n =
          (Packet.parse bytes).toOption.any fun p => p.header.channel == n) :
        packetsOn n (((e :: log).filterMap Effect.datagram?).map Prod.snd) =
          (voice n (e :: log)).filterMap Effect.packet? := by
      rw [List.filterMap_cons_some seen, List.map_cons, ← List.singleton_append, packetsOn_append,
        ih]
      unfold voice
      rw [List.filter_cons]
      cases parsed : Packet.parse bytes with
      | error _ =>
        simp [concerns, packetsOn, parsed, Except.toOption]
      | ok p =>
        have packet : e.packet? = some p := by simp [Effect.packet?, seen, parsed, Except.toOption]
        by_cases own : p.header.channel = n
        · simp [concerns, packetsOn, parsed, Except.toOption, own, packet]
        · simp [concerns, packetsOn, parsed, Except.toOption, own]
    have silent (seen : e.datagram? = none) :
        packetsOn n (((e :: log).filterMap Effect.datagram?).map Prod.snd) =
          (voice n (e :: log)).filterMap Effect.packet? := by
      have packet : e.packet? = none := by simp [Effect.packet?, seen]
      rw [List.filterMap_cons_none seen, ih]
      unfold voice
      rw [List.filter_cons]
      split
      · rw [List.filterMap_cons_none packet]
      · rfl
    cases e with
    | send target bytes => exact datagram target bytes rfl (Effect.concerns_send n target bytes)
    | resend target bytes => exact datagram target bytes rfl (Effect.concerns_resend n target bytes)
    | emit event => exact silent rfl
    | reply => exact silent rfl

end Link

end ReliableDatagram
