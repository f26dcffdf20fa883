import ReliableDatagram.Proofs.Channel.Stamps
import ReliableDatagram.Proofs.Channel.StreamStart

/-!
# Streams one after the other at a receiver

A receiver hears packets of several streams of one sender, in any order. It goes on to a newer
stream with its start and drops later packets of older ones, but the start of an older stream brings
it back to that one.
-/

namespace ReliableDatagram.Channel

open PacketId

variable {n : UInt8} {ctx : Context} {op : Op} {c c' : Channel} {log : List Effect}
variable {ws : List ParkedWrite} {streams : List (List Packet)} {arrived : List Packet}
variable {delivered : List Bytes} {st : List Packet} {d : Nat} {p q : Packet}

/-- No stream start comes after one that was stamped later. -/
def StartsInOrder (arrived : List Packet) : Prop :=
  arrived.Pairwise fun p q => p.header.id = .streamStart → q.header.id = .streamStart →
    stampedBefore q.header.timestamp p.header.timestamp = false

instance (arrived : List Packet) : Decidable (StartsInOrder arrived) :=
  inferInstanceAs (Decidable (List.Pairwise _ _))

/-- If any stream start was seen before this packet, then one that is not older than its stream. -/
def Introduces (sent seen : List Packet) (p : Packet) : Prop :=
  p.header.id ≠ .streamStart → (∃ s ∈ seen, s.header.id = .streamStart) →
    ∀ k < sent.length, sent[k]? = some p → ∃ s ∈ seen, s.header.id = .streamStart ∧
      ∀ r ∈ sent.take k, r.header.id = .streamStart →
        stampedBefore s.header.timestamp r.header.timestamp = false

/-- Every packet is introduced by those that arrived before it. -/
def Introduced (sent : List Packet) : List Packet → List Packet → Prop
  | _, [] => True
  | seen, p :: ps => Introduces sent seen p ∧ Introduced sent (seen ++ [p]) ps

instance (sent seen : List Packet) (p : Packet) : Decidable (Introduces sent seen p) := by
  unfold Introduces
  infer_instance

instance instDecidableIntroduced (sent : List Packet) :
    (seen ps : List Packet) → Decidable (Introduced sent seen ps)
  | _, [] => .isTrue trivial
  | seen, p :: ps =>
    have := instDecidableIntroduced sent (seen ++ [p]) ps
    inferInstanceAs (Decidable (_ ∧ _))

/-- The receiver follows this stream, the newest that it heard of, and before that it delivered
packets of earlier streams. -/
structure Along (before : List (List Packet)) (st : List Packet) (q : Packet) (d : Nat)
    (earlier arrived : List Packet) (r : Receiver) : Prop where
  first : st[0]? = some q
  heard : q ∈ arrived
  newest : ∀ s ∈ arrived, s.header.id = .streamStart → s ∈ before.flatten ++ [q]
  follows : Follows st d r
  going : d ≠ 0
  older : earlier.Sublist before.flatten

/-- A receiver of these streams waits for the start of one or follows the newest that it heard
of. -/
inductive Receiving (streams : List (List Packet)) (arrived : List Packet)
    (delivered : List Bytes) (r : Receiver) : Prop
  | waiting (waits : Waiting r) (none : ∀ s ∈ arrived, s.header.id ≠ .streamStart)
      (silent : delivered = [])
  | following {before after : List (List Packet)} {st earlier : List Packet} {q : Packet} {d : Nat}
      (along : Along before st q d earlier arrived r) (place : streams = before ++ st :: after)
      (delivers : delivered = contentsOf (earlier ++ st.take d))

/-- A payload was delivered after one that had been sent later, because an older stream start
followed a newer one. -/
def Inverted (sent arrived : List Packet) (delivered : List Bytes) : Prop :=
  ¬StartsInOrder arrived ∧ ∃ p q, [p, q].Sublist sent ∧
    [q.payload, p.payload].Sublist delivered

theorem startsInOrder_snoc : StartsInOrder (arrived ++ [p]) ↔ StartsInOrder arrived ∧
    ∀ s ∈ arrived, s.header.id = .streamStart → p.header.id = .streamStart →
      stampedBefore p.header.timestamp s.header.timestamp = false := by
  simp [StartsInOrder, List.pairwise_append]

theorem stampedBefore_self (t : UInt32) : stampedBefore t t = false := by simp [stampedBefore]

theorem Inverted.more (inverted : Inverted streams.flatten arrived delivered)
    (sent' arrived' : List Packet) (delivered' : List Bytes) :
    Inverted (streams.flatten ++ sent') (arrived ++ arrived') (delivered ++ delivered') := by
  obtain ⟨disorder, p, q, sent, swapped⟩ := inverted
  refine ⟨fun order => disorder (List.pairwise_append.mp order).1, p, q, ?_, ?_⟩
  · exact sent.trans (List.sublist_append_left _ _)
  · exact swapped.trans (List.sublist_append_left _ _)

/-- A start with another timestamp leads away from the stream that a receiver follows. -/
theorem Follows.place_restart (follows : Follows st d c.receiver) (going : d ≠ 0)
    (first : st[0]? = some q) (start : p.header.id = .streamStart)
    (other : p.header.timestamp ≠ q.header.timestamp) (ctx : Context) :
    c.placeOf ctx p = .restart := by
  obtain ⟨x, first', started⟩ := follows.startedAt (Nat.pos_of_ne_zero going)
  obtain rfl : x = q := Option.some.inj (first'.symm.trans first)
  rw [placeOf, start, Receiver.place_streamStart, if_neg, if_neg]
  · rw [started]
    exact fun same => other (Option.some.inj same).symm
  · rw [follows.expected]
    exact fun none => going (nth_eq_streamStart.mp none)

theorem exists_of_mem_flatten (mem : p ∈ streams.flatten) :
    ∃ before st after, streams = before ++ st :: after ∧ p ∈ st := by
  obtain ⟨st, here, mem⟩ := List.mem_flatten.mp mem
  obtain ⟨before, after, same⟩ := List.append_of_mem here
  exact ⟨before, st, after, same, mem⟩

section Arrival

variable {before after : List (List Packet)} {earlier : List Packet}

theorem not_before_first (inTime : InTime (before ++ st :: after).flatten) (first : st[0]? = some q)
    (mem : p ∈ st) : stampedBefore p.header.timestamp q.header.timestamp = false := by
  cases st with
  | nil => cases first
  | cons x rest =>
    obtain rfl : x = q := Option.some.inj first
    have split : (before ++ (x :: rest) :: after).flatten =
        (before.flatten ++ [x]) ++ (rest ++ after.flatten) := by simp
    rw [split] at inTime
    rcases List.mem_cons.mp mem with rfl | later
    · exact stampedBefore_self _
    · exact inTime.stale (p := x) (by simp) (List.mem_append_left _ later)

/-- The start of a stream leads a receiver to it that waits for one. -/
theorem goes_on (place : streams = before ++ st :: after) (stream : Stream n st)
    (short : st.length ≤ horizon) (first : st[0]? = some p) {r r' : Receiver} (waits : Waiting r)
    (older : earlier.Sublist before.flatten)
    (newest : ∀ s ∈ arrived, s.header.id = .streamStart → s ∈ before.flatten)
    (receiver : r' = ((r.start p.header.timestamp).accept p.header.id p.payload).2)
    (delivers : payloads log = ((r.start p.header.timestamp).accept p.header.id p.payload).1) :
    Receiving streams (arrived ++ [p]) (contentsOf earlier ++ payloads log) r' := by
  obtain ⟨d, going, follows, delivered, _⟩ := follows_start short first (stream.id first) waits
  rw [← receiver] at follows
  refine .following ⟨first, by simp, fun s mem start => ?_, follows, going, older⟩ place ?_
  · rcases List.mem_append.mp mem with old | new
    · exact List.mem_append_left _ (newest s old start)
    · exact List.mem_append_right _ new
  · rw [delivers, ← delivered, contentsOf_append]

namespace Along

variable (along : Along before st q d earlier arrived c.receiver)
include along

/-- The start of the current stream was sent with this stream or before it. -/
theorem not_after (inTime : InTime (before ++ st :: after).flatten) {s : Packet}
    (seen : s ∈ arrived) (start : s.header.id = .streamStart) (mem : p ∈ st ++ after.flatten) :
    stampedBefore p.header.timestamp s.header.timestamp = false := by
  have split : (before ++ st :: after).flatten = before.flatten ++ (st ++ after.flatten) := by simp
  rcases List.mem_append.mp (along.newest s seen start) with old | latest
  · rw [split] at inTime
    exact inTime.stale old mem
  · rcases List.mem_singleton.mp latest with rfl
    rcases List.mem_append.mp mem with here | newer
    · exact not_before_first inTime along.first here
    · rw [split, ← List.append_assoc] at inTime
      exact inTime.stale (List.mem_append_right _ (List.mem_of_getElem? along.first)) newer

theorem newest_snoc (start : p.header.id = .streamStart → p = q) :
    ∀ s ∈ arrived ++ [p], s.header.id = .streamStart → s ∈ before.flatten ++ [q] := by
  intro s mem first
  rcases List.mem_append.mp mem with seen | latest
  · exact along.newest s seen first
  · rcases List.mem_singleton.mp latest with rfl
    rw [start first]
    exact List.mem_append_right _ List.mem_cons_self

/-- Packets of the current stream and stale ones of earlier streams leave the receiver with it. -/
theorem stays (moves : Moves ctx op c log ws c') (sound : c.Sound) (known : op.Sound c.key)
    (stream : Stream n st) (short : st.length ≤ horizon)
    (newest : ∀ s ∈ arrived ++ op.data, s.header.id = .streamStart → s ∈ before.flatten ++ [q])
    (fits : ∀ d', d ≤ d' → ∀ p, op = .packet p → p.header.kind = .data →
      Fits st d' p ∨ Outdated st d' p) :
    Receiving (before ++ st :: after) (arrived ++ op.data)
      (contentsOf (earlier ++ st.take d) ++ payloads log) c'.receiver := by
  obtain ⟨first, heard, _, follows, going, older⟩ := along
  obtain ⟨d', later, follows', delivers⟩ := moves.stream sound known stream short follows fits
  refine .following ⟨first, List.mem_append_left _ heard, newest, follows', by omega, older⟩ rfl ?_
  rw [contentsOf_append, List.append_assoc, ← delivers, ← contentsOf_append]

/-- A later packet of an older stream is dropped. -/
theorem outdated (inTime : InTime (before ++ st :: after).flatten) (stream : Stream n st)
    (old : p ∈ before.flatten) (other : p.header.id ≠ .streamStart) {d' : Nat} (later : d ≤ d') :
    Outdated st d' p := by
  obtain ⟨first, _, _, _, going, _⟩ := along
  refine ⟨other, by omega, fun x first' => ?_⟩
  obtain rfl : x = q := Option.some.inj (first'.symm.trans first)
  rw [List.flatten_append] at inTime
  refine inTime.start old ?_ (stream.id first)
  exact List.mem_append_left _ (List.mem_of_getElem? first)

/-- A packet of the current stream has its place there. -/
theorem fits (inTime : InTime (before ++ st :: after).flatten) (mem : p ∈ st) {d' : Nat}
    (later : d ≤ d') : Fits st d' p := by
  obtain ⟨first, _, _, _, going, _⟩ := along
  obtain ⟨k, found⟩ := List.getElem?_of_mem mem
  refine ⟨⟨k, found, by omega⟩, fun x first' => ?_⟩
  obtain rfl : x = q := Option.some.inj (first'.symm.trans first)
  exact not_before_first inTime first mem

/-- The start of an older stream is delivered again or belatedly. -/
theorem falls_back (inTime : InTime (before ++ st :: after).flatten) (stream : Stream n st)
    (kind : p.header.kind = .data) (exact : c.onPacket ctx p = ⟨c', log⟩)
    (old : p ∈ before.flatten) (start : p.header.id = .streamStart) :
    Inverted (before ++ st :: after).flatten (arrived ++ [p])
      (contentsOf (earlier ++ st.take d) ++ payloads log) := by
  obtain ⟨first, heard, _, follows, going, _⟩ := along
  have head : q.header.id = .streamStart := stream.id first
  have current : q ∈ (st :: after).flatten := by simp [List.mem_of_getElem? first]
  rw [List.flatten_append] at inTime ⊢
  have earlier' := inTime.start old current head
  have other : p.header.timestamp ≠ q.header.timestamp := by
    intro same
    rw [same, stampedBefore_self] at earlier'
    cases earlier'
  obtain ⟨_, delivers⟩ := onPacket_restart kind (follows.place_restart going first start other ctx)
  rw [exact] at delivers
  constructor
  · intro order
    have notLater := (startsInOrder_snoc.mp order).2 q heard head start
    rw [earlier'] at notLater
    cases notLater
  · refine ⟨p, q, ?_, ?_⟩
    · exact (List.singleton_sublist.mpr old).append (List.singleton_sublist.mpr current)
    · have taken : q ∈ st.take d := by
        refine List.mem_of_getElem? (i := 0) ?_
        rw [List.getElem?_take_of_lt (Nat.pos_of_ne_zero going), first]
      have qDelivered : [q.payload].Sublist (contentsOf (earlier ++ st.take d)) := by
        refine List.singleton_sublist.mpr (List.mem_map_of_mem ?_)
        exact List.mem_append_right _ taken
      have pDelivered : [p.payload].Sublist (payloads log) := by
        rw [delivers]
        exact (List.nil_sublist _).cons_cons _
      exact qDelivered.append pDelivered

/-- The start of a newer stream leads the receiver to that one. -/
theorem restarts (inTime : InTime (before ++ st :: after).flatten)
    (numbered : ∀ σ ∈ after, Stream n σ) (short : ∀ σ ∈ after, σ.length ≤ horizon)
    (kind : p.header.kind = .data) (exact : c.onPacket ctx p = ⟨c', log⟩)
    (newer : p ∈ after.flatten) (start : p.header.id = .streamStart) :
    Receiving (before ++ st :: after) (arrived ++ [p])
      (contentsOf (earlier ++ st.take d) ++ payloads log) c'.receiver := by
  obtain ⟨first, _, newest, follows, going, older⟩ := along
  have current := List.mem_of_getElem? first
  have split : (before ++ st :: after).flatten = (before.flatten ++ st) ++ after.flatten := by simp
  rw [split] at inTime
  have later := inTime.start (List.mem_append_right _ current) newer start
  have other : p.header.timestamp ≠ q.header.timestamp := by
    intro same
    rw [same, stampedBefore_self] at later
    cases later
  obtain ⟨receiver, delivers⟩ :=
    onPacket_restart kind (follows.place_restart going first start other ctx)
  rw [exact] at receiver delivers
  obtain ⟨between, τ, rest, rfl, mem⟩ := exists_of_mem_flatten newer
  have place : before ++ st :: (between ++ τ :: rest) = (before ++ st :: between) ++ τ :: rest := by
    simp
  have stream := numbered τ (by simp)
  have passed : (before ++ st :: between).flatten = before.flatten ++ (st ++ between.flatten) := by
    simp
  refine goes_on place stream (short τ (by simp)) (stream.first mem start) waiting_fresh ?_
    (fun s seen head => ?_) receiver delivers
  · rw [passed]
    exact older.append (.trans (List.take_sublist d st) (List.sublist_append_left _ _))
  · rw [passed]
    rcases List.mem_append.mp (newest s seen head) with old | latest
    · exact List.mem_append_left _ old
    · rcases List.mem_singleton.mp latest with rfl
      exact List.mem_append_right _ (List.mem_append_left _ current)

/-- A newer stream's packet is not introduced by starts up to that of the current stream. -/
theorem not_introduces (inTime : InTime (before ++ st :: after).flatten) (stream : Stream n st)
    (numbered : ∀ σ ∈ after, Stream n σ) (newer : p ∈ after.flatten)
    (other : p.header.id ≠ .streamStart) : ¬Introduces (before ++ st :: after).flatten arrived p := by
  intro introduces
  obtain ⟨first, heard, newest, _, _, _⟩ := along
  obtain ⟨between, τ, rest, rfl, mem⟩ := exists_of_mem_flatten newer
  have numbered := numbered τ (by simp)
  obtain ⟨k, found⟩ := List.getElem?_of_mem mem
  obtain ⟨j, rfl⟩ : ∃ j, k = j + 1 := by
    cases k with
    | zero => exact absurd (numbered.id found) other
    | succ j => exact ⟨j, rfl⟩
  obtain ⟨r, τ', rfl⟩ : ∃ r τ', τ = r :: τ' := List.exists_cons_of_ne_nil (List.ne_nil_of_mem mem)
  have start : r.header.id = .streamStart := numbered.id (k := 0) rfl
  -- what was sent before the packet: everything up to its stream, and the beginning of that
  have whole : (before ++ st :: (between ++ (r :: τ') :: rest)).flatten =
      (before.flatten ++ (st ++ between.flatten)) ++ (r :: τ' ++ rest.flatten) := by simp
  have place : ((before.flatten ++ (st ++ between.flatten)) ++ (r :: τ' ++ rest.flatten))[
      (before.flatten ++ (st ++ between.flatten)).length + (j + 1)]? = some p := by
    rw [List.getElem?_append_right (Nat.le_add_right _ _), Nat.add_sub_cancel_left]
    exact getElem?_append_some found _
  rw [whole] at introduces inTime
  obtain ⟨s, seen, isStart, latest⟩ := introduces other ⟨q, heard, stream.id first⟩ _
    (List.getElem?_eq_some_iff.mp place).1 place
  have sent : r ∈ ((before.flatten ++ (st ++ between.flatten)) ++ (r :: τ' ++ rest.flatten)).take
      ((before.flatten ++ (st ++ between.flatten)).length + (j + 1)) := by
    rw [List.take_length_add_append]
    simp
  have old : s ∈ before.flatten ++ (st ++ between.flatten) := by
    rcases List.mem_append.mp (newest s seen isStart) with old | same
    · exact List.mem_append_left _ old
    · rcases List.mem_singleton.mp same with rfl
      exact List.mem_append_right _ (List.mem_append_left _ (List.mem_of_getElem? first))
  have earlier := inTime.start old (q := r) (by simp) start
  rw [latest r sent start] at earlier
  cases earlier

end Along

end Arrival

/-- What the receiver made of the packets that arrived so far: it went on with the streams in order,
or the start of an older one brought it back. -/
def Outcome (streams : List (List Packet)) (arrived : List Packet) (delivered : List Bytes)
    (r : Receiver) : Prop :=
  Receiving streams arrived delivered r ∧ StartsInOrder arrived ∨
    Inverted streams.flatten arrived delivered

/-- A data packet reaches a receiver that follows a stream. -/
theorem Along.hears {before after : List (List Packet)} {earlier : List Packet}
    (along : Along before st q d earlier arrived c.receiver) (order : StartsInOrder arrived)
    (moves : Moves ctx (.packet p) c log ws c') (exact : c.onPacket ctx p = ⟨c', log⟩)
    (sound : c.Sound) (known : (Op.packet p).Sound c.key) (kind : p.header.kind = .data)
    (numbered : ∀ σ ∈ before ++ st :: after, Stream n σ)
    (short : ∀ σ ∈ before ++ st :: after, σ.length ≤ horizon)
    (inTime : InTime (before ++ st :: after).flatten) (sent : p ∈ (before ++ st :: after).flatten)
    (introduced : Introduces (before ++ st :: after).flatten arrived p) :
    Outcome (before ++ st :: after) (arrived ++ [p])
      (contentsOf (earlier ++ st.take d) ++ payloads log) c'.receiver := by
  have stream := numbered st (by simp)
  have stays (start : p.header.id = .streamStart → p = q)
      (fits : ∀ d', d ≤ d' → Fits st d' p ∨ Outdated st d' p) :
      Receiving (before ++ st :: after) (arrived ++ [p])
        (contentsOf (earlier ++ st.take d) ++ payloads log) c'.receiver := by
    have data : (Op.packet p).data = [p] := if_pos kind
    have newest := along.newest_snoc start
    rw [← data] at newest ⊢
    refine along.stays moves sound known stream (short st (by simp)) newest fun d' later x same _ => ?_
    obtain rfl : p = x := Op.packet.inj same
    exact fits d' later
  have split : (before ++ st :: after).flatten = before.flatten ++ (st ++ after.flatten) := by simp
  rw [split] at sent
  rcases List.mem_append.mp sent with old | new
  · by_cases start : p.header.id = .streamStart
    · exact .inr (along.falls_back inTime stream kind exact old start)
    · refine .inl ⟨stays (fun first => absurd first start) fun d' later =>
        .inr (along.outdated inTime stream old start later), startsInOrder_snoc.mpr ⟨order, ?_⟩⟩
      exact fun s _ _ first => absurd first start
  · have order' : StartsInOrder (arrived ++ [p]) :=
      startsInOrder_snoc.mpr ⟨order, fun s seen start _ => along.not_after inTime seen start new⟩
    rcases List.mem_append.mp new with here | newer
    · refine .inl ⟨stays (fun start => ?_) fun d' later => .inl (along.fits inTime here later),
        order'⟩
      exact Option.some.inj ((stream.first here start).symm.trans along.first)
    · by_cases start : p.header.id = .streamStart
      · refine .inl ⟨?_, order'⟩
        exact along.restarts inTime (fun σ mem => numbered σ (by simp [mem]))
          (fun σ mem => short σ (by simp [mem])) kind exact newer start
      · exact absurd introduced (along.not_introduces inTime stream
          (fun σ mem => numbered σ (by simp [mem])) newer start)

/-- A data packet reaches a receiver that waits for a stream start. -/
theorem Waiting.hears (waits : Waiting c.receiver) (order : StartsInOrder arrived)
    (none : ∀ s ∈ arrived, s.header.id ≠ .streamStart)
    (moves : Moves ctx (.packet p) c log ws c') (exact : c.onPacket ctx p = ⟨c', log⟩)
    (kind : p.header.kind = .data) (numbered : ∀ st ∈ streams, Stream n st)
    (short : ∀ st ∈ streams, st.length ≤ horizon) (sent : p ∈ streams.flatten) :
    Receiving streams (arrived ++ [p]) (payloads log) c'.receiver ∧
      StartsInOrder (arrived ++ [p]) := by
  refine ⟨?_, startsInOrder_snoc.mpr ⟨order, fun s mem first => absurd first (none s mem)⟩⟩
  by_cases start : p.header.id = .streamStart
  · obtain ⟨before, st, after, place, mem⟩ := exists_of_mem_flatten sent
    have stream := numbered st (by simp [place])
    obtain ⟨receiver, delivers⟩ := onPacket_start kind (waits.place_start start ctx)
    rw [exact] at receiver delivers
    exact goes_on place stream (short st (by simp [place])) (stream.first mem start) waits
      (List.nil_sublist _) (fun s mem first => absurd first (none s mem)) receiver delivers
  · obtain ⟨waits', silent⟩ := moves.waiting waits fun q same _ => by
      obtain rfl : p = q := Op.packet.inj same
      exact start
    refine .waiting waits' (fun s mem => ?_) silent
    rcases List.mem_append.mp mem with old | new
    · exact none s old
    · rcases List.mem_singleton.mp new with rfl
      exact start

/-- One operation of a receiver. -/
theorem Receiving.moves (receiving : Receiving streams arrived delivered c.receiver)
    (order : StartsInOrder arrived) (moves : Moves ctx op c log ws c')
    (exact : c.apply ctx op = ⟨c', log⟩) (sound : c.Sound) (known : op.Sound c.key)
    (numbered : ∀ st ∈ streams, Stream n st) (short : ∀ st ∈ streams, st.length ≤ horizon)
    (inTime : InTime streams.flatten) (sent : ∀ p ∈ op.data, p ∈ streams.flatten)
    (introduced : ∀ p ∈ op.data, Introduces streams.flatten arrived p) :
    Outcome streams (arrived ++ op.data) (delivered ++ payloads log) c'.receiver := by
  by_cases asked : ∃ p, op = .packet p ∧ p.header.kind = .data
  · obtain ⟨p, rfl, kind⟩ := asked
    have data : (Op.packet p).data = [p] := if_pos kind
    rw [data] at sent introduced ⊢
    have sent := sent p List.mem_cons_self
    have introduced := introduced p List.mem_cons_self
    cases receiving with
    | waiting waits none silent =>
      rw [silent, List.nil_append]
      exact .inl (waits.hears order none moves exact kind numbered short sent)
    | following along place delivers =>
      subst place delivers
      exact along.hears order moves exact sound known kind numbered short inTime sent introduced
  · have data : op.data = [] :=
      List.eq_nil_iff_forall_not_mem.mpr fun p mem => asked ⟨p, Op.mem_data.mp mem⟩
    refine .inl ⟨?_, by rwa [data, List.append_nil]⟩
    cases receiving with
    | waiting waits none silent =>
      obtain ⟨waits', silent'⟩ := moves.waiting waits fun p same kind =>
        absurd ⟨p, same, kind⟩ asked
      rw [data, List.append_nil, silent, silent']
      exact .waiting waits' none rfl
    | following along place delivers =>
      subst place delivers
      refine along.stays moves sound known (numbered _ (by simp)) (short _ (by simp)) ?_
        fun d' _ p same kind => absurd ⟨p, same, kind⟩ asked
      rw [data, List.append_nil]
      exact along.newest

theorem Introduces.of_append {sent more : List Packet}
    (introduces : Introduces (sent ++ more) arrived p) : Introduces sent arrived p := by
  intro other started k bound found
  have bound' : k < (sent ++ more).length := by
    rw [List.length_append]
    omega
  obtain ⟨s, seen, start, latest⟩ :=
    introduces other started k bound' (getElem?_append_some found more)
  rw [List.take_append_of_le_length (Nat.le_of_lt bound)] at latest
  exact ⟨s, seen, start, latest⟩

theorem Receiving.ordered {r : Receiver} (receiving : Receiving streams arrived delivered r) :
    delivered.Sublist (contentsOf streams.flatten) := by
  cases receiving with
  | waiting _ _ silent =>
    rw [silent]
    exact List.nil_sublist _
  | @following before after st earlier q d along place delivers =>
    rw [delivers, place]
    refine List.Sublist.map _ ?_
    rw [List.flatten_append, List.flatten_cons]
    refine along.older.append (.trans (List.take_sublist d st) ?_)
    exact List.sublist_append_left _ _

/-- Two different things do not come in both orders in a list without repetitions. -/
theorem not_both_orders {α : Type} {xs : List α} (once : xs.Nodup) {x y : α}
    (order : [x, y].Sublist xs) : ¬[y, x].Sublist xs := by
  intro swapped
  induction xs with
  | nil => cases order
  | cons z xs ih =>
    obtain ⟨new, once⟩ := List.nodup_cons.mp once
    cases order with
    | cons _ order =>
      cases swapped with
      | cons _ swapped => exact ih once order swapped
      | cons_cons _ swapped => exact new (order.subset (by simp))
    | cons_cons _ order =>
      cases swapped with
      | cons _ swapped => exact new (swapped.subset (by simp))
      | cons_cons _ swapped => exact new (order.subset (by simp))

/-- The deliveries are in the order of the writes just if the stream starts came in order. -/
theorem Outcome.ordered_iff {r : Receiver} (outcome : Outcome streams arrived delivered r)
    {written : List Bytes} (carries : (contentsOf streams.flatten).Sublist written) :
    (StartsInOrder arrived → delivered.Sublist written) ∧
      (written.Nodup → delivered.Sublist written → StartsInOrder arrived) := by
  rcases outcome with ⟨receiving, order⟩ | ⟨disorder, p, q, sent, swapped⟩
  · exact ⟨fun _ => receiving.ordered.trans carries, fun _ _ => order⟩
  · refine ⟨fun order => absurd order disorder, fun once ordered => ?_⟩
    have order : [p.payload, q.payload].Sublist written :=
      (sent.map fun x : Packet => x.payload).trans carries
    exact absurd (swapped.trans ordered) (not_both_orders once order)

end ReliableDatagram.Channel
