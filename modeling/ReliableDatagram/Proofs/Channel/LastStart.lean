import ReliableDatagram.Proofs.Channel.Alignment
import ReliableDatagram.Proofs.Channel.StreamStart
import Mathlib.Data.List.Pairwise

/-!
# The last stream start

Of all the stream starts that arrived, a receiver remembers the timestamp of the last one. A start
with that timestamp is acknowledged as a copy, and any other one is delivered at once and alone.
-/

namespace ReliableDatagram.Channel

open PacketId

variable {ctx : Context} {op : Op} {c c' : Channel} {log : List Effect} {ws : List ParkedWrite}
variable {arrived new : List Packet} {delivers more : List Bytes} {r : Receiver} {p q : Packet}

/-- The stream start that arrived last. -/
def lastStart? (arrived : List Packet) : Option Packet :=
  (arrived.filter (·.header.id == .streamStart)).getLast?

theorem lastStart?_append (other : ∀ p ∈ new, p.header.id ≠ .streamStart) :
    lastStart? (arrived ++ new) = lastStart? arrived := by
  have none : new.filter (·.header.id == .streamStart) = [] :=
    List.filter_eq_nil_iff.mpr fun p mem => by simpa using other p mem
  rw [lastStart?, List.filter_append, none, List.append_nil]
  rfl

theorem lastStart?_snoc (arrived : List Packet) (start : p.header.id = .streamStart) :
    lastStart? (arrived ++ [p]) = some p := by
  simp [lastStart?, start]

/-- No two stream starts carry the same timestamp. -/
def StartsDiffer (sent : List Packet) : Prop :=
  sent.Pairwise fun p q => p.header.id = .streamStart → q.header.id = .streamStart →
    p.header.timestamp ≠ q.header.timestamp

instance (sent : List Packet) : Decidable (StartsDiffer sent) :=
  inferInstanceAs (Decidable (List.Pairwise _ _))

theorem StartsDiffer.eq {sent : List Packet} (differ : StartsDiffer sent) (old : p ∈ sent)
    (new : q ∈ sent) (start : p.header.id = .streamStart) (start' : q.header.id = .streamStart)
    (same : p.header.timestamp = q.header.timestamp) : p = q := by
  have symm : Std.Symm fun p q : Packet => p.header.id = .streamStart →
      q.header.id = .streamStart → p.header.timestamp ≠ q.header.timestamp :=
    ⟨fun _ _ apart start start' same => apart start' start same.symm⟩
  by_contra other
  exact List.Pairwise.forall differ old new other start start' same

/-- A start with this timestamp arrived, and its payload was delivered. -/
def Began (t : UInt32) (arrived : List Packet) (delivers : List Bytes) : Prop :=
  ∃ s ∈ arrived, s.header.id = .streamStart ∧ s.header.timestamp = t ∧ s.payload ∈ delivers

theorem Began.append {t : UInt32} (began : Began t arrived delivers) (new : List Packet)
    (more : List Bytes) : Began t (arrived ++ new) (delivers ++ more) := by
  obtain ⟨s, mem, start, stamp, told⟩ := began
  exact ⟨s, List.mem_append_left _ mem, start, stamp, List.mem_append_left _ told⟩

/-- The receiver waits for a first stream start, or it is in the stream of the last one. -/
inductive GoesBy (arrived : List Packet) (delivers : List Bytes) (r : Receiver) : Prop
  | waiting (waits : Waiting r) (none : lastStart? arrived = none)
  | going {q : Packet} (last : lastStart? arrived = some q) (joined : Joined q.header.timestamp r)
      (began : Began q.header.timestamp arrived delivers)

theorem goesBy_fresh : GoesBy [] [] {} := .waiting waiting_fresh rfl

theorem GoesBy.began (goes : GoesBy arrived delivers r) {t : UInt32}
    (last : (lastStart? arrived).map (·.header.timestamp) = some t) :
    Began t arrived delivers := by
  cases goes with
  | waiting _ none =>
    rw [none] at last
    cases last
  | going last' _ began =>
    rw [last'] at last
    rwa [← Option.some.inj last]

/-- Where all starts are stamped differently, one with the timestamp of the last one arrived before,
and its payload was delivered. -/
theorem GoesBy.mem_of_same (goes : GoesBy arrived delivers r) {sent : List Packet}
    (differ : StartsDiffer sent) (sends : ∀ q ∈ arrived ++ [p], q ∈ sent)
    (start : p.header.id = .streamStart)
    (same : (lastStart? arrived).map (·.header.timestamp) = some p.header.timestamp) :
    p ∈ arrived ∧ p.payload ∈ delivers := by
  obtain ⟨q, mem, start', stamp, told⟩ := goes.began same
  obtain rfl := differ.eq (sends q (List.mem_append_left _ mem)) (sends p List.mem_concat_self)
    start' start stamp
  exact ⟨mem, told⟩

theorem Joined.place_start {t : UInt32} (joined : Joined t c.receiver) (ctx : Context)
    (start : p.header.id = .streamStart) :
    c.placeOf ctx p = if t = p.header.timestamp then .repeatedStart else .restart := by
  rw [placeOf, start, Receiver.place_streamStart, if_neg joined.expected, joined.startedAt]
  simp only [Option.some.injEq]

/-- A receiver that keeps nothing delivers what it accepts, alone. -/
theorem payloads_accept_of_empty (empty : ∀ id, r.early.get? id = none) (id : PacketId)
    (payload : Bytes) : (r.accept id payload).1 = [payload] := by
  rw [Receiver.accept, ReceiveQueue.drain_missing (empty id.next)]

theorem payloads_onPacket_repeatedStart (kind : p.header.kind = .data)
    (place : c.placeOf ctx p = .repeatedStart) : payloads (c.onPacket ctx p).log = [] := by
  rw [payloads_onPacket, dispatch_data kind]
  simp only [onData, place_heard place]
  rfl

/-- What a stream start does to a receiver that goes by the last one before it. -/
structure Starts (ctx : Context) (c : Channel) (p : Packet) (delivers : List Bytes) : Prop where
  joined : Joined p.header.timestamp (c.onPacket ctx p).value.receiver
  payloads : payloads (c.onPacket ctx p).log = delivers
  answer : p.ack ∈ packets (c.onPacket ctx p).log

section Start

variable (kind : p.header.kind = .data) (start : p.header.id = .streamStart)
variable (known : (Op.packet p).Sound c.key)
include kind start known

theorem Waiting.starts (waits : Waiting c.receiver) (ctx : Context) :
    Starts ctx c p [p.payload] := by
  have place := waits.place_start start ctx
  obtain ⟨receiver, payloads⟩ := onPacket_start kind place
  constructor
  · rw [receiver]
    exact joined_start c.receiver p
  · rw [payloads]
    exact payloads_accept_of_empty waits.early _ _
  · rw [packets_onPacket_start kind known place]
    exact List.mem_singleton_self _

theorem Joined.starts {t : UInt32} (joined : Joined t c.receiver) (sound : c.Sound)
    (ctx : Context) : Starts ctx c p (if t = p.header.timestamp then [] else [p.payload]) := by
  have place := joined.place_start ctx start
  by_cases same : t = p.header.timestamp
  · rw [if_pos same] at place ⊢
    obtain ⟨receiver, answer⟩ := onPacket_repeatedStart kind known place
    constructor
    · rw [receiver, ← same]
      exact joined
    · exact payloads_onPacket_repeatedStart kind place
    · rw [answer]
      exact List.mem_singleton_self _
  · rw [if_neg same] at place ⊢
    obtain ⟨receiver, payloads⟩ := onPacket_restart kind place
    obtain ⟨sent, answer, _⟩ := onPacket_restart_sender sound known kind place
    constructor
    · rw [receiver]
      exact joined_start {} p
    · rw [payloads]
      exact payloads_accept_of_empty waiting_fresh.early _ _
    · rw [answer]
      exact List.mem_concat_self

/-- A stream start is delivered, unless it has the timestamp of the last one. -/
theorem GoesBy.starts (goes : GoesBy arrived delivers c.receiver) (sound : c.Sound)
    (ctx : Context) : Starts ctx c p
      (if (lastStart? arrived).map (·.header.timestamp) = some p.header.timestamp then []
      else [p.payload]) := by
  cases goes with
  | waiting waits none =>
    rw [none, if_neg nofun]
    exact waits.starts kind start known ctx
  | going last joined =>
    rw [last]
    simp only [Option.map_some, Option.some.injEq]
    exact joined.starts kind start known sound ctx

theorem GoesBy.snoc (goes : GoesBy arrived delivers c.receiver) (sound : c.Sound)
    (ctx : Context) : GoesBy (arrived ++ [p]) (delivers ++ payloads (c.onPacket ctx p).log)
      (c.onPacket ctx p).value.receiver := by
  have starts := goes.starts kind start known sound ctx
  refine .going (lastStart?_snoc arrived start) starts.joined ?_
  by_cases same : (lastStart? arrived).map (·.header.timestamp) = some p.header.timestamp
  · -- the payload that was delivered is that of the start before
    exact (goes.began same).append _ _
  · refine ⟨p, List.mem_concat_self, start, rfl, ?_⟩
    rw [starts.payloads, if_neg same]
    exact List.mem_concat_self

end Start

/-- Whatever brings no stream start leaves the receiver in its stream. -/
theorem GoesBy.moves (goes : GoesBy arrived delivers c.receiver)
    (moves : Moves ctx op c log ws c') (sound : c.Sound) (known : op.Sound c.key)
    (other : ∀ p ∈ op.data, p.header.id ≠ .streamStart) :
    GoesBy (arrived ++ op.data) (delivers ++ payloads log) c'.receiver := by
  have noStart {p : Packet} (asked : op = .packet p) (kind : p.header.kind = .data) :
      p.header.id ≠ .streamStart := other p (Op.mem_data.mpr ⟨asked, kind⟩)
  cases goes with
  | waiting waits none =>
    obtain ⟨waits', _⟩ := moves.waiting waits fun p asked kind => noStart asked kind
    refine .waiting waits' ?_
    rw [lastStart?_append other, none]
  | @going q last joined began =>
    have heard : ∀ p, op = .packet p → StartsAt q.header.timestamp p := fun p asked kind start =>
      absurd start (noStart asked kind)
    refine .going ?_ (moves.joined sound known joined heard).1 (began.append _ _)
    rw [lastStart?_append other, last]

theorem GoesBy.apply (goes : GoesBy arrived delivers c.receiver) (applied : c.apply ctx op = ⟨c', log⟩)
    (moves : Moves ctx op c log ws c') (sound : c.Sound) (known : op.Sound c.key) :
    GoesBy (arrived ++ op.data) (delivers ++ payloads log) c'.receiver := by
  by_cases start : ∃ p ∈ op.data, p.header.id = .streamStart
  · obtain ⟨p, mem, start⟩ := start
    obtain ⟨rfl, kind⟩ := Op.mem_data.mp mem
    have same : c.onPacket ctx p = ⟨c', log⟩ := applied
    have after := goes.snoc kind start known sound ctx
    rw [same] at after
    rw [Op.data, if_pos kind]
    exact after
  · exact goes.moves moves sound known fun p mem here => start ⟨p, mem, here⟩

end ReliableDatagram.Channel
