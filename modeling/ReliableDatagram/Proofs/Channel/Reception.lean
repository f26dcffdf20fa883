import ReliableDatagram.Proofs.Channel.Answers
import ReliableDatagram.Proofs.PacketId
import Mathlib.Data.List.Dedup
import Mathlib.Data.List.Induction
import Mathlib.Data.List.Perm.Subperm

/-!
# Packets in any order

The packets of a stream arrive in any order and any number of times, each no farther ahead of the
expected one than the window reaches. `received_run` says what the receiver makes of them: it
delivers those that arrived without a gap, keeps the others, counts the repeated ones and
acknowledges each of them, wherever in the cycle of ids the stream stands.
-/

namespace ReliableDatagram

open PacketId

section Front

variable {ks : List Nat} {k m : Nat}

/-- The first offset that is not among the given ones. -/
def front (ks : List Nat) : Nat := (List.range ks.length).findIdx (· ∉ ks)

theorem mem_of_lt_front (before : k < front ks) : k ∈ ks := by
  have found := List.not_of_lt_findIdx before
  simpa using found

theorem front_not_mem (ks : List Nat) : front ks ∉ ks := by
  intro mem
  have bound : (List.range ks.length).findIdx (· ∉ ks) ≤ (List.range ks.length).length :=
    List.findIdx_le_length
  rcases Nat.lt_or_eq_of_le bound with inside | full
  · have missing := List.findIdx_getElem (w := inside)
    simp only [List.getElem_range, decide_eq_true_eq] at missing
    exact missing mem
  · -- one offset more than there are members
    have same : front ks = ks.length := full.trans List.length_range
    have covered : List.range (ks.length + 1) ⊆ ks := by
      intro j inRange
      rcases Nat.lt_or_eq_of_le (Nat.lt_succ_iff.mp (List.mem_range.mp inRange)) with less | last
      · exact mem_of_lt_front (Nat.lt_of_lt_of_eq less same.symm)
      · rwa [last, ← same]
    have fits := (List.Nodup.subperm List.nodup_range covered).length_le
    simp only [List.length_range] at fits
    omega

theorem front_eq (covered : ∀ j < m, j ∈ ks) (missing : m ∉ ks) : front ks = m := by
  rcases Nat.lt_trichotomy (front ks) m with less | same | more
  · exact absurd (covered _ less) (front_not_mem ks)
  · exact same
  · exact absurd (mem_of_lt_front more) missing

theorem front_le_append (ks ks' : List Nat) : front ks ≤ front (ks ++ ks') := by
  refine Nat.le_of_not_lt fun before => front_not_mem (ks ++ ks') ?_
  exact List.mem_append_left _ (mem_of_lt_front before)

/-- An offset other than the front does not move it. -/
theorem front_snoc_of_ne (other : k ≠ front ks) : front (ks ++ [k]) = front ks := by
  apply front_eq
  · intro j before
    exact List.mem_append_left _ (mem_of_lt_front before)
  · simpa [other.symm] using front_not_mem ks

/-- How many members are there already when they come. -/
def repeats (ks : List Nat) : Nat := ks.length - ks.dedup.length

theorem repeats_snoc (ks : List Nat) (k : Nat) :
    repeats (ks ++ [k]) = repeats ks + if k ∈ ks then 1 else 0 := by
  have few := (List.dedup_sublist ks).length_le
  have perm := (List.perm_append_singleton k ks).dedup.length_eq
  simp only [repeats, List.length_append, List.length_singleton, perm]
  split
  · next mem =>
    rw [List.dedup_cons_of_mem mem]
    omega
  · next new =>
    rw [List.dedup_cons_of_notMem new, List.length_cons]
    omega

end Front

namespace ReceiveQueue

variable {e : PacketId} {payload : Nat → Bytes} {held : List Nat} {d k : Nat}

/-- A queue of packets by their offsets from the id `e`. -/
def ofOffsets (e : PacketId) (payload : Nat → Bytes) (held : List Nat) : ReceiveQueue :=
  ⟨held.map fun k => (next^[k] e, payload k)⟩

theorem get?_ofOffsets (later : e ≠ .streamStart) (short : ∀ j ∈ held, j < cycle)
    (near : k < cycle) :
    (ofOffsets e payload held).get? (next^[k] e) = if k ∈ held then some (payload k) else none := by
  induction held with
  | nil => rfl
  | cons j held ih =>
    have ih := ih fun i mem => short i (List.mem_cons_of_mem j mem)
    have same := iterate_next_inj later near (short j List.mem_cons_self)
    simp only [get?, ofOffsets] at ih
    simp only [get?, ofOffsets, List.map_cons, List.lookup_cons, ih, List.mem_cons]
    by_cases here : k = j
    · subst here
      simp
    · have other : (next^[k] e == next^[j] e) = false := by
        simpa using fun eq => here (same.mp eq)
      simp [other, here]

theorem erase_ofOffsets (later : e ≠ .streamStart) (short : ∀ j ∈ held, j < cycle)
    (near : k < cycle) :
    (ofOffsets e payload held).erase (next^[k] e) = ofOffsets e payload (held.filter (· ≠ k)) := by
  simp only [erase, ofOffsets, List.filter_map]
  congr 2
  refine List.filter_congr fun j mem => ?_
  have same := iterate_next_inj later (short j mem) near
  rw [Bool.eq_iff_iff]
  simp [same]

theorem insert_ofOffsets (later : e ≠ .streamStart) (short : ∀ j ∈ held, j < cycle)
    (near : k < cycle) (free : k ∉ held) :
    (ofOffsets e payload held).insert (next^[k] e) (payload k) =
      ofOffsets e payload (held ++ [k]) := by
  have missing : (ofOffsets e payload held).get? (next^[k] e) = none := by
    rw [get?_ofOffsets later short near, if_neg free]
  rw [insert, contains, missing]
  simp [ofOffsets]

/-- The run of offsets from `d` on is given up, and what lies beyond the gap behind it stays. -/
theorem drain_ofOffsets (payload : Nat → Bytes) (held : List Nat) (later : e ≠ .streamStart)
    (short : ∀ j ∈ held, j + 1 < cycle) (ahead : ∀ j ∈ held, d ≤ j) (near : d < cycle) :
    ∃ count, (∀ j, d ≤ j → j < d + count → j ∈ held) ∧ d + count ∉ held ∧
      (ofOffsets e payload held).drain (next^[d] e) =
        ((List.range' d count).map payload, next^[d + count] e,
          ofOffsets e payload (held.filter (d + count < ·))) := by
  induction size : held.length using Nat.strongRecOn generalizing held d with
  | ind size ih =>
    subst size
    have short' : ∀ j ∈ held, j < cycle := fun j mem => Nat.lt_of_succ_lt (short j mem)
    have found : (ofOffsets e payload held).get? (next^[d] e) =
      if d ∈ held then some (payload d) else none := get?_ofOffsets later short' near
    by_cases here : d ∈ held
    · rw [if_pos here] at found
      have fewer : (held.filter (· ≠ d)).length < held.length := by
        simpa [List.length_filter_lt_length_iff_exists] using here
      obtain ⟨count, covered, missing, drained⟩ := @ih _ fewer (d + 1) (held.filter (· ≠ d))
        (fun j mem => short j (List.mem_filter.mp mem).1)
        (fun j mem => by
          have kept := List.mem_filter.mp mem
          have low := ahead j kept.1
          have other : j ≠ d := by simpa using kept.2
          omega) (short d here) rfl
      have step : next^[d + 1] e = (next^[d] e).next := Function.iterate_succ_apply' _ _ _
      refine ⟨count + 1, fun j low high => ?_, ?_, ?_⟩
      · rcases Nat.lt_or_eq_of_le low with beyond | rfl
        · exact (List.mem_filter.mp (covered j beyond (by omega))).1
        · exact here
      · intro mem
        refine missing (List.mem_filter.mpr ⟨?_, ?_⟩)
        · rwa [show d + 1 + count = d + (count + 1) by omega]
        · exact decide_eq_true (by omega)
      · rw [drain_found found, erase_ofOffsets later short' near, ← step, drained]
        refine congrArg₂ Prod.mk ?_ (congrArg₂ Prod.mk ?_ ?_)
        · rw [List.range'_succ, List.map_cons]
        · rw [show d + 1 + count = d + (count + 1) by omega]
        · rw [List.filter_filter]
          congr 1
          refine List.filter_congr fun j mem => ?_
          simp only [← Bool.decide_and, decide_eq_decide]
          omega
    · rw [if_neg here] at found
      refine ⟨0, fun j low high => by omega, here, ?_⟩
      have all : held.filter (d + 0 < ·) = held := by
        refine List.filter_eq_self.mpr fun j mem => ?_
        have low := ahead j mem
        have other : j ≠ d := fun eq => here (eq ▸ mem)
        exact decide_eq_true (by omega)
      rw [drain_missing found, all]
      rfl

end ReceiveQueue

namespace Channel

variable {ctx : Context} {c : Channel} {p : Packet}

section Arrival

/-- All that an end point is told, except that the channel is connected. -/
def news (key : Key) (log : List Effect) : List Event :=
  (log.filterMap Effect.event?).filter (· ≠ .connected key)

def datagrams (log : List Effect) : List (SocketAddr × Bytes) := log.filterMap Effect.datagram?

/-- The packet is acknowledged, and the receiver delivers the given payloads. -/
structure Answers (ctx : Context) (c : Channel) (p : Packet) (r : Receiver)
    (delivered : List Bytes) (repeated : Nat) : Prop where
  key : (c.onPacket ctx p).value.key = c.key
  receiver : (c.onPacket ctx p).value.receiver = r
  dropped : (c.onPacket ctx p).value.counters.dropped = c.counters.dropped + repeated
  datagrams : datagrams (c.onPacket ctx p).log = [(c.key.addr, p.ack.encode)]
  news : news c.key (c.onPacket ctx p).log = delivered.map (.data c.key)

variable (c) in
theorem checkConnected_dropped :
    c.checkConnected.value.counters.dropped = c.counters.dropped := by
  unfold checkConnected
  split <;> rfl

variable (c) in
theorem datagrams_checkConnected : datagrams c.checkConnected.log = [] :=
  List.filterMap_eq_nil_iff.mpr fun e logged => by rw [mem_checkConnected_log c logged]; rfl

variable (c) in
theorem news_checkConnected : news c.key c.checkConnected.log = [] := by
  unfold checkConnected
  split
  · simp [news, Effect.event?]
  · rfl

theorem datagrams_append (log log' : List Effect) :
    datagrams (log ++ log') = datagrams log ++ datagrams log' := List.filterMap_append

theorem news_append (key : Key) (log log' : List Effect) :
    news key (log ++ log') = news key log ++ news key log' := by
  simp [news]

theorem news_data (key : Key) (delivered : List Bytes) :
    news key (delivered.map fun payload => .emit (.data key payload)) =
      delivered.map (.data key) := by
  induction delivered with
  | nil => rfl
  | cons payload delivered ih =>
    rw [List.map_cons, ← List.singleton_append, news_append, ih]
    simp [news, Effect.event?]

/-- Up to the news of a connection, an arrival leads to what its place says. -/
theorem answers_of_onData {x : Logged Effect Channel} {r : Receiver} {delivered : List Bytes}
    {repeated : Nat} (kind : p.header.kind = .data) (onData : (c.heard ctx).onData ctx p = x)
    (key : x.value.key = c.key) (receiver : x.value.receiver = r)
    (dropped : x.value.counters.dropped = c.counters.dropped + repeated)
    (sent : datagrams x.log = [(c.key.addr, p.ack.encode)])
    (told : news c.key x.log = delivered.map (.data c.key)) :
    Answers ctx c p r delivered repeated := by
  have value : (c.onPacket ctx p).value = x.value.checkConnected.value := by
    rw [← onData, ← dispatch_data kind]
    rfl
  have log : (c.onPacket ctx p).log = x.log ++ x.value.checkConnected.log := by
    rw [← onData, ← dispatch_data kind]
    rfl
  constructor
  · rw [value, checkConnected_key, key]
  · rw [value, checkConnected_receiver, receiver]
  · rw [value, checkConnected_dropped, dropped]
  · rw [log, datagrams_append, datagrams_checkConnected, sent, List.append_nil]
  · rw [log, news_append, told, ← key, news_checkConnected, List.append_nil]

theorem answers_next (kind : p.header.kind = .data) (place : c.placeOf ctx p = .next) :
    Answers ctx c p (c.receiver.accept p.header.id p.payload).2
      (c.receiver.accept p.header.id p.payload).1 0 := by
  have onData : (c.heard ctx).onData ctx p = (c.heard ctx).accept ctx p := by
    simp only [Channel.onData, place_heard place]
  refine answers_of_onData kind onData (accept_key _ p) (accept_receiver _ p) ?_ ?_ ?_
  · exact checkConnected_dropped _
  · rw [log_accept, ← List.singleton_append, datagrams_append, datagrams_append,
      datagrams_checkConnected]
    simp [datagrams, Effect.datagram?, heard, Function.comp_def]
  · rw [log_accept, ← List.singleton_append, news_append, news_append]
    have connected : news c.key ((c.heard ctx).transmit ctx p.ack).value.checkConnected.log = [] :=
      news_checkConnected ((c.heard ctx).transmit ctx p.ack).value
    rw [connected]
    exact news_data c.key _

theorem answers_early (kind : p.header.kind = .data) (place : c.placeOf ctx p = .early) :
    Answers ctx c p (c.receiver.keep p.header.id p.payload) [] 0 := by
  have onData : (c.heard ctx).onData ctx p = { c.heard ctx with
      receiver := c.receiver.keep p.header.id p.payload }.transmit ctx p.ack := by
    simp only [Channel.onData, place_heard place]
    rfl
  exact answers_of_onData kind onData rfl rfl rfl rfl rfl

theorem answers_repeated (kind : p.header.kind = .data)
    (place : c.placeOf ctx p = .buffered ∨ c.placeOf ctx p = .delivered) :
    Answers ctx c p c.receiver [] 1 := by
  have onData : (c.heard ctx).onData ctx p = (c.heard ctx).countDropped.transmit ctx p.ack := by
    rcases place with place | place
    · simp only [Channel.onData, place_heard place]
    · simp only [Channel.onData, place_heard place]
  exact answers_of_onData kind onData rfl rfl rfl rfl rfl

end Arrival

/-- The arrival of the packet at an offset from the expected one. -/
structure Arrival where
  now : Nat
  offset : Nat
  timestamp : UInt32

namespace Arrival

def packet (c : Channel) (payload : Nat → Bytes) (a : Arrival) : Packet :=
  .data c.key.channel (next^[a.offset] c.receiver.expected) a.timestamp (payload a.offset)

def op (c : Channel) (payload : Nat → Bytes) (a : Arrival) : Nat × Op :=
  (a.now, .packet (a.packet c payload))

end Arrival

def offsets (as : List Arrival) : List Nat := as.map (·.offset)

/-- The packets are not stamped before the start of the stream, none of them comes farther ahead of
the expected one than the window reaches, and there are not too many of them to tell late from early
ones. -/
structure Timely (window : Nat) (c : Channel) (as : List Arrival) : Prop where
  inTime : ∀ a ∈ as, c.receiver.isStale a.timestamp = false
  within : ∀ i, (inside : i < as.length) →
    as[i].offset ≤ front (offsets (as.take i)) + window
  few : front (offsets as) < horizon

/-- What becomes of a channel when packets arrive that lie ahead of the expected one. -/
structure Received (payload : Nat → Bytes) (c : Channel) (as : List Arrival)
    (done : Logged Effect Channel) : Prop where
  key : done.value.key = c.key
  startedAt : done.value.receiver.startedAt = c.receiver.startedAt
  news : news c.key done.log =
    (List.range (front (offsets as))).map fun k => .data c.key (payload k)
  expected : done.value.receiver.expected = next^[front (offsets as)] c.receiver.expected
  /-- The queue holds what arrived beyond the gap, in some order. -/
  early : ∃ held : List Nat,
    held.Perm ((offsets as).filter (front (offsets as) < ·)).dedup ∧
      done.value.receiver.early = .ofOffsets c.receiver.expected payload held
  dropped : done.value.counters.dropped = c.counters.dropped + repeats (offsets as)
  datagrams : datagrams done.log = as.map fun a => (c.key.addr, (a.packet c payload).ack.encode)

section Run

variable {payload : Nat → Bytes} {as : List Arrival} {a : Arrival} {done : Logged Effect Channel}

theorem received_nil (payload : Nat → Bytes) (empty : c.receiver.early = {}) :
    Received payload c [] (pure c) :=
  ⟨rfl, rfl, rfl, rfl, ⟨[], .refl _, empty⟩, rfl, rfl⟩

/-- The offsets in the queue, as the place of the next arrival depends on them. -/
theorem Received.queue (received : Received payload c as done) :
    ∃ held : List Nat, held.Nodup ∧
      (∀ k, k ∈ held ↔ k ∈ offsets as ∧ front (offsets as) < k) ∧
      done.value.receiver.early = .ofOffsets c.receiver.expected payload held := by
  obtain ⟨held, perm, early⟩ := received.early
  refine ⟨held, perm.nodup_iff.mpr (List.nodup_dedup _), fun k => ?_, early⟩
  rw [perm.mem_iff, List.mem_dedup, List.mem_filter, decide_eq_true_eq]

theorem perm_dedup_filter {held ks : List Nat} {m : Nat} (nodup : held.Nodup)
    (holds : ∀ k, k ∈ held ↔ k ∈ ks ∧ m < k) : held.Perm (ks.filter (m < ·)).dedup := by
  refine (List.perm_ext_iff_of_nodup nodup (List.nodup_dedup _)).mpr fun k => ?_
  rw [holds, List.mem_dedup, List.mem_filter, decide_eq_true_eq]

theorem offsets_snoc (as : List Arrival) (a : Arrival) :
    offsets (as ++ [a]) = offsets as ++ [a.offset] := List.map_append

section Timely

variable {window : Nat} (timely : Timely window c (as ++ [a]))
include timely

theorem Timely.init : Timely window c as := by
  refine ⟨fun b mem => timely.inTime b (List.mem_append_left _ mem), fun i inside => ?_, ?_⟩
  · have within := timely.within i (by simp; omega)
    rwa [List.getElem_append_left inside, List.take_append_of_le_length (Nat.le_of_lt inside)]
      at within
  · have few := timely.few
    rw [offsets_snoc] at few
    exact Nat.lt_of_le_of_lt (front_le_append _ _) few

theorem Timely.last : a.offset ≤ front (offsets as) + window := by
  have within := timely.within as.length (by simp)
  simpa using within

end Timely

/-- All that arrives lies in one round of the cycle. -/
theorem Timely.short {window : Nat} (timely : Timely window c as)
    (narrow : window ≤ Config.maxReceiveWindow) : ∀ k ∈ offsets as, k + 1 < cycle := by
  induction as using List.reverseRecOn with
  | nil => nofun
  | append_singleton as a ih =>
    intro k mem
    rw [offsets_snoc] at mem
    rcases List.mem_append.mp mem with old | new
    · exact ih timely.init k old
    · have within := timely.last
      have few := timely.init.few
      rw [List.mem_singleton.mp new]
      simp only [Config.maxReceiveWindow, horizon, cycle] at *
      omega

/-- One more arrival, by what it is answered with. -/
theorem Received.snoc (received : Received payload c as done) {r : Receiver}
    {delivered : List Bytes} {repeated m : Nat} {held : List Nat}
    (answers : Answers ctx done.value (a.packet c payload) r delivered repeated)
    (count : repeated = if a.offset ∈ offsets as then 1 else 0)
    (moved : front (offsets as ++ [a.offset]) = m)
    (startedAt : r.startedAt = done.value.receiver.startedAt)
    (contents : (List.range (front (offsets as))).map payload ++ delivered =
      (List.range m).map payload)
    (expected : r.expected = next^[m] c.receiver.expected)
    (nodup : held.Nodup) (holds : ∀ k, k ∈ held ↔ k ∈ offsets as ++ [a.offset] ∧ m < k)
    (early : r.early = .ofOffsets c.receiver.expected payload held) :
    Received payload c (as ++ [a]) (do (← done).onPacket ctx (a.packet c payload)) := by
  subst moved
  rw [← offsets_snoc] at contents expected holds
  have told : (List.range (front (offsets (as ++ [a])))).map
      (fun k => Event.data c.key (payload k)) =
      ((List.range (front (offsets as))).map payload ++ delivered).map (.data c.key) := by
    rw [contents, List.map_map]
    rfl
  constructor
  · exact answers.key.trans received.key
  · calc (done.value.onPacket ctx (a.packet c payload)).value.receiver.startedAt
      _ = r.startedAt := by rw [answers.receiver]
      _ = c.receiver.startedAt := startedAt.trans received.startedAt
  · have more := answers.news
    rw [received.key] at more
    rw [Logged.log_bind, news_append, received.news, more, told, List.map_append, List.map_map]
    rfl
  · calc (done.value.onPacket ctx (a.packet c payload)).value.receiver.expected
      _ = r.expected := by rw [answers.receiver]
      _ = _ := expected
  · refine ⟨held, perm_dedup_filter nodup holds, ?_⟩
    rw [Logged.value_bind, answers.receiver, early]
  · calc (done.value.onPacket ctx (a.packet c payload)).value.counters.dropped
      _ = c.counters.dropped + repeats (offsets as) + repeated := by
        rw [answers.dropped, received.dropped]
      _ = c.counters.dropped + repeats (offsets (as ++ [a])) := by
        rw [offsets_snoc, repeats_snoc, count, Nat.add_assoc]
  · rw [Logged.log_bind, datagrams_append, received.datagrams, answers.datagrams, received.key,
      List.map_append]
    rfl

section Last

variable (received : Received payload c as done) (going : c.receiver.expected ≠ .streamStart)
variable (narrow : ctx.config.receiveWindow ≤ Config.maxReceiveWindow)
variable (timely : Timely ctx.config.receiveWindow c (as ++ [a]))
include received going narrow timely

/-- Where an arrival belongs is decided by its offset. -/
theorem Received.place :
    done.value.placeOf ctx (a.packet c payload) =
      if a.offset = front (offsets as) then .next
      else if a.offset < front (offsets as) then .delivered
      else if a.offset ∈ offsets as then .buffered
      else .early := by
  obtain ⟨held, _, holds, early⟩ := received.queue
  have few := timely.init.few
  have within := timely.last
  have fresh : done.value.receiver.isStale a.timestamp = false := by
    rw [← timely.inTime a (by simp), Receiver.isStale, Receiver.isStale, received.startedAt]
  have short {k : Nat} (mem : k ∈ offsets (as ++ [a])) : k < cycle :=
    Nat.lt_of_succ_lt (timely.short narrow k mem)
  rw [offsets_snoc] at short
  have kept : done.value.receiver.early.contains (next^[a.offset] c.receiver.expected) =
      decide (a.offset ∈ held) := by
    rw [early, ReceiveQueue.contains, ReceiveQueue.get?_ofOffsets going
      (fun k mem => short (List.mem_append_left _ ((holds k).mp mem).1)) (short (by simp))]
    split <;> simp_all
  have distance := distanceTo_iterate_next going (j := front (offsets as)) (k := a.offset)
    (by simp only [Config.maxReceiveWindow, cycle] at *; omega)
    (by simp only [horizon, cycle] at *; omega)
  show done.value.receiver.place _ (next^[a.offset] c.receiver.expected) a.timestamp = _
  rw [Receiver.place_of_ne (iterate_next_ne going _), received.expected,
    if_neg (iterate_next_ne going _), fresh, distance, kept]
  simp only [Bool.false_eq_true, if_false]
  by_cases here : a.offset = front (offsets as)
  · rw [if_pos here, if_pos (by omega)]
  · rw [if_neg here, if_neg (by omega)]
    by_cases behind : a.offset < front (offsets as)
    · rw [if_pos behind, if_pos (by omega)]
    · rw [if_neg behind, if_neg (by omega), if_neg (by omega)]
      have same : a.offset ∈ held ↔ a.offset ∈ offsets as :=
        ⟨fun mem => ((holds _).mp mem).1, fun mem => (holds _).mpr ⟨mem, by omega⟩⟩
      simp only [decide_eq_true_eq, same]

/-- The expected packet is delivered together with those that waited for it. -/
theorem Received.next (here : a.offset = front (offsets as)) :
    Received payload c (as ++ [a]) (do (← done).onPacket ctx (a.packet c payload)) := by
  obtain ⟨held, nodup, holds, early⟩ := received.queue
  have place := received.place going narrow timely
  rw [if_pos here] at place
  have short := timely.init.short narrow
  have few := timely.init.few
  obtain ⟨count, covered, missing, drained⟩ :=
    ReceiveQueue.drain_ofOffsets payload held (d := front (offsets as) + 1) going
      (fun j mem => short j ((holds j).mp mem).1)
      (fun j mem => ((holds j).mp mem).2) (Nat.lt_trans (Nat.succ_lt_succ few) (by decide))
  have step : (a.packet c payload).header.id.next =
      PacketId.next^[front (offsets as) + 1] c.receiver.expected := by
    rw [Function.iterate_succ_apply', ← here]
    rfl
  have accepted : done.value.receiver.accept (a.packet c payload).header.id
      (a.packet c payload).payload =
        (payload a.offset :: (List.range' (front (offsets as) + 1) count).map payload,
          { done.value.receiver with
            expected := PacketId.next^[front (offsets as) + 1 + count] c.receiver.expected
            early := .ofOffsets c.receiver.expected payload
              (held.filter (front (offsets as) + 1 + count < ·)) }) := by
    rw [Receiver.accept, early, step, drained]
    rfl
  have answers := answers_next (p := a.packet c payload) rfl place
  rw [accepted] at answers
  have moved : front (offsets as ++ [a.offset]) = front (offsets as) + 1 + count := by
    apply front_eq
    · intro j before
      rcases Nat.lt_trichotomy j (front (offsets as)) with less | rfl | more
      · exact List.mem_append_left _ (mem_of_lt_front less)
      · exact List.mem_append_right _ (List.mem_singleton.mpr here.symm)
      · exact List.mem_append_left _ ((holds j).mp (covered j more before)).1
    · intro mem
      rcases List.mem_append.mp mem with old | new
      · exact missing ((holds _).mpr ⟨old, by omega⟩)
      · have := List.mem_singleton.mp new
        omega
  refine received.snoc answers ?_ moved rfl ?_ rfl (nodup.filter _) ?_ rfl
  · rw [here, if_neg (front_not_mem _)]
  · rw [here, List.range_add, List.range_succ, List.range'_eq_map_range]
    simp
  · intro k
    rw [List.mem_filter, holds, decide_eq_true_eq, List.mem_append, List.mem_singleton]
    constructor
    · exact fun ⟨⟨old, _⟩, beyond⟩ => ⟨.inl old, beyond⟩
    · rintro ⟨old | new, beyond⟩
      · exact ⟨⟨old, by omega⟩, beyond⟩
      · omega

/-- An arrival that is there already, delivered or kept, is counted. -/
theorem Received.again (known : a.offset ∈ offsets as) :
    Received payload c (as ++ [a]) (do (← done).onPacket ctx (a.packet c payload)) := by
  obtain ⟨held, nodup, holds, early⟩ := received.queue
  have other : a.offset ≠ front (offsets as) := fun here => front_not_mem _ (here ▸ known)
  have place := received.place going narrow timely
  rw [if_neg other, if_pos known] at place
  have answers := answers_repeated (p := a.packet c payload) rfl <| by
    split at place
    · exact .inr place
    · exact .inl place
  refine received.snoc answers (if_pos known).symm (front_snoc_of_ne other) rfl
    (List.append_nil _) received.expected nodup (fun k => ?_) early
  rw [holds, List.mem_append, List.mem_singleton]
  constructor
  · exact fun ⟨old, beyond⟩ => ⟨.inl old, beyond⟩
  · rintro ⟨old | rfl, beyond⟩
    · exact ⟨old, beyond⟩
    · exact ⟨known, beyond⟩

/-- A new arrival beyond the gap is kept. -/
theorem Received.ahead (new : a.offset ∉ offsets as) (other : a.offset ≠ front (offsets as)) :
    Received payload c (as ++ [a]) (do (← done).onPacket ctx (a.packet c payload)) := by
  obtain ⟨held, nodup, holds, early⟩ := received.queue
  have beyond : front (offsets as) < a.offset :=
    Nat.lt_of_le_of_ne (Nat.le_of_not_lt fun before => new (mem_of_lt_front before)) other.symm
  have place := received.place going narrow timely
  rw [if_neg other, if_neg (Nat.not_lt_of_lt beyond), if_neg new] at place
  have answers := answers_early (p := a.packet c payload) rfl place
  have free : a.offset ∉ held := fun mem => new ((holds _).mp mem).1
  have short {k : Nat} (mem : k ∈ offsets (as ++ [a])) : k < cycle :=
    Nat.lt_of_succ_lt (timely.short narrow k mem)
  rw [offsets_snoc] at short
  have kept : (done.value.receiver.keep (a.packet c payload).header.id
      (a.packet c payload).payload).early =
        .ofOffsets c.receiver.expected payload (held ++ [a.offset]) := by
    rw [Receiver.keep, early]
    exact ReceiveQueue.insert_ofOffsets going
      (fun k mem => short (List.mem_append_left _ ((holds k).mp mem).1)) (short (by simp)) free
  refine received.snoc answers (if_neg new).symm (front_snoc_of_ne other) rfl
    (List.append_nil _) received.expected ?_ (fun k => ?_) kept
  · rw [← List.concat_eq_append]
    exact nodup.concat free
  · rw [List.mem_append, List.mem_append, holds, List.mem_singleton]
    constructor
    · rintro (⟨old, after⟩ | rfl)
      · exact ⟨.inl old, after⟩
      · exact ⟨.inr rfl, beyond⟩
    · rintro ⟨old | rfl, after⟩
      · exact .inl ⟨old, after⟩
      · exact .inr rfl

end Last

/-- Whatever the order of the arrivals, the payloads are delivered in the order of their offsets as
far as they arrived without a gap. -/
theorem received_run (config : Config) (clock : Clock) {c : Channel} (payload : Nat → Bytes)
    {as : List Arrival} (going : c.receiver.expected ≠ .streamStart)
    (empty : c.receiver.early = {}) (narrow : config.receiveWindow ≤ Config.maxReceiveWindow)
    (timely : Timely config.receiveWindow c as) :
    Received payload c as (run config clock (as.map (·.op c payload)) c) := by
  induction as using List.reverseRecOn with
  | nil => exact received_nil payload empty
  | append_singleton as a ih =>
    have received := ih timely.init
    have last : run config clock ((as ++ [a]).map (·.op c payload)) c =
        run config clock (as.map (·.op c payload)) c >>=
          fun done => done.onPacket ⟨a.now, config, clock⟩ (a.packet c payload) := by
      have value := value_run_append config clock (as.map (·.op c payload)) [a.op c payload] c
      have log := log_run_append config clock (as.map (·.op c payload)) [a.op c payload] c
      rw [List.map_append, List.map_singleton]
      refine congrArg₂ Logged.mk value (log.trans (congrArg _ ?_))
      exact List.append_nil _
    rw [last]
    by_cases here : a.offset = front (offsets as)
    · exact received.next going narrow timely here
    · by_cases known : a.offset ∈ offsets as
      · exact received.again going narrow timely known
      · exact received.ahead going narrow timely known here

/-- A channel that expects the last id but one before the ids wrap around. -/
def nearlyRound : Channel :=
  { create ⟨⟨.v4 1, 1⟩, 1⟩ 1 {} 0 with
    receiver := { expected := ⟨0xfffffffe⟩, startedAt := some 7 } }

def scattered : List Arrival :=
  [⟨0, 3, 9⟩, ⟨1, 0, 8⟩, ⟨2, 3, 9⟩, ⟨3, 1, 8⟩, ⟨4, 0, 8⟩, ⟨5, 5, 9⟩, ⟨6, 2, 9⟩]

/-- Four packets around the end of the cycle are delivered in order, the sixth waits for the fifth,
and two arrivals were there already. -/
theorem received_scattered_nearlyRound :
    let done := run {} ⟨0, 0⟩ (scattered.map (·.op nearlyRound fun k => [UInt8.ofNat k]))
      nearlyRound
    news nearlyRound.key done.log = [[0], [1], [2], [3]].map (.data nearlyRound.key) ∧
      done.value.receiver.expected = ⟨3⟩ ∧ done.value.counters.dropped = 2 := by
  have timely : Timely ({} : Config).receiveWindow nearlyRound scattered :=
    ⟨by decide +kernel, by decide +kernel, by decide +kernel⟩
  have received := received_run {} ⟨0, 0⟩ (fun k => [UInt8.ofNat k]) (by decide) rfl (by decide)
    timely
  have four : front (offsets scattered) = 4 := by decide +kernel
  refine ⟨received.news.trans ?_, received.expected.trans ?_, received.dropped.trans ?_⟩
  · rw [four]
    rfl
  · rw [four]
    decide +kernel
  · decide +kernel

end Run

end Channel

end ReliableDatagram
