import ReliableDatagram.Proofs.Link.InOrder
import ReliableDatagram.Proofs.Link.Ledger
import ReliableDatagram.Proofs.Link.Sources
import ReliableDatagram.Proofs.Rtt
import ReliableDatagram.Proofs.Table.Samples

/-!
# Round trip times are measured truthfully

Two fresh tables over a network that loses, copies, delays and reorders datagrams: whatever sample of
the round trip time an end takes, its clock went on by as much between the transmission that is
answered and the answer. Hence the smoothed time is less than a millisecond longer than the longest of
these round trips: `samples_truthful`.

Three things are kept up over a run, and the diaries of both ends are what they are about: where the
packets in the air come from (`Sourced`), how often each packet was sent (`Chronicle`), and that the
samples taken so far are traced to a transmission (`Traced`).
-/

namespace ReliableDatagram.Link

open Channel PacketId

/-- A sample of the round trip time, with the time at which it was taken and the answer that gave
it. -/
structure Sample where
  time : Nat
  answer : Packet
  value : Nat
deriving DecidableEq

variable {l : Link} {e x : End} {n : UInt8} {op : Op} {s : Sample}

/-- The sample that the channel at the end `e` takes in an operation. -/
def sample? (l : Link) (e : End) (n : UInt8) (op : Op) : Option Sample :=
  match l.request? op with
  | some (x, r) =>
    if x = e then
      ((l.side e).table.sample? l.now (l.key e n) (.request r)).map fun s => ⟨l.now, s.1, s.2⟩
    else none
  | none => none

/-- All samples that the channel at the end `e` takes in a run. -/
def samples (e : End) (n : UInt8) : List Op → Link → List Sample
  | [], _ => []
  | op :: ops, l => (l.sample? e n op).toList ++ samples e n ops (l.apply op).value

theorem clock_run {ops : List Op} (regular : ∀ op ∈ ops, op.Regular) (l : Link) (e : End) :
    (run ops l).value.clock e = l.clock e := by
  induction ops generalizing l with
  | nil => rfl
  | cons op ops ih =>
    exact (ih (fun op mem => regular op (List.mem_cons_of_mem _ mem)) _).trans
      (clock_apply (regular op List.mem_cons_self).2 e)

def estimator (l : Link) (e : End) (n : UInt8) : RttEstimator :=
  (l.channel? e n).elim {} Channel.rtt

section Estimator

theorem estimator_apply (sound : l.Sound) (regular : op.isRestart = false)
    (keeps : (l.channel? e n).isSome → ((l.apply op).value.channel? e n).isSome) :
    (l.apply op).value.estimator e n =
      (l.sample? e n op).elim (l.estimator e n) fun s => (l.estimator e n).onSample s.value := by
  cases asked : l.request? op with
  | none =>
    rw [apply_of_no_request asked]
    simp only [sample?, asked]
    exact congrArg (Option.elim · {} Channel.rtt) (channel?_prepare regular)
  | some request =>
    obtain ⟨x, r⟩ := request
    rw [apply_of_request asked] at keeps ⊢
    by_cases own : x = e
    · subst own
      simp only [sample?, asked, if_pos]
      have value : (Prod.snd <$> (l.prepare op).perform x r).value.channel? x n = _ :=
        channel?_perform_self sound asked
      unfold estimator
      rw [value] at keeps ⊢
      cases after : ((l.side x).table.part l.now (l.key x n) (.request r)).value with
      | none =>
        have missing : l.channel? x n = none := by
          rw [after] at keeps
          simpa using mt keeps (by simp)
        rw [missing, Table.sample?_of_missing missing]
        rfl
      | some c' =>
        refine (Table.rtt_part after).trans ?_
        cases (l.side x).table.sample? l.now (l.key x n) (.request r) <;> rfl
    · obtain rfl : e = x.other := End.eq_other (Ne.symm own)
      have same := channel?_perform_other (l.prepare op) x n r
      simp only [sample?, asked, if_neg own]
      exact congrArg (Option.elim · {} Channel.rtt) (same.trans (channel?_prepare regular))

/-- What is known when the channel at an end takes a sample. -/
structure Sampling (n : UInt8) (l : Link) (e : End) (op : Op) (s : Sample) (c : Channel) : Prop where
  found : l.channel? e n = some c
  sound : c.Sound
  heard : s.answer ∈ l.air e.other n
  known : (Channel.Op.packet s.answer).Sound c.key
  sampled : c.sample? (l.context e) s.answer = some s.value
  time : s.time = l.now
  after : (l.apply op).value.channel? e n = some (c.onPacket (l.context e) s.answer).value
  speech : said e n (l.apply op).log = voice n (c.onPacket (l.context e) s.answer).log
  accepts : l.accepts e n op = []

theorem sampling (sound : l.Sound) (known : op.Sound) (sampled : l.sample? e n op = some s) :
    ∃ c, Sampling n l e op s c := by
  unfold sample? at sampled
  split at sampled
  · next x r asked =>
    split at sampled
    · next own =>
      subst own
      obtain ⟨⟨p, v⟩, given, rfl⟩ := Option.map_eq_some_iff.mp sampled
      unfold Table.sample? at given
      split at given
      · next q concerned =>
        obtain ⟨c, found, given⟩ := Option.bind_eq_some_iff.mp given
        obtain ⟨v', taken, same⟩ := Option.map_eq_some_iff.mp given
        obtain ⟨rfl, rfl⟩ := Prod.mk.inj same
        obtain ⟨bytes, request, parsed, own⟩ := Table.concern?_eq_packet concerned
        cases request
        have key := (Table.mem_of_find? found).2
        obtain ⟨view, speech⟩ := conversation_apply sound known asked n
        have slot : (l.side x).table.slot l.now (l.key x n) (.datagram (l.key x n).addr bytes) =
            some <$> c.onPacket (l.context x) q := by
          simp only [Table.slot, parsed, own, found, if_true]
          rfl
        rw [slot] at view speech
        refine ⟨c, found, (sound x).channels c (Table.mem_of_find? found).1,
          heard_of_request asked parsed own, ?_, taken, rfl, ?_, ?_, ?_⟩
        · rw [key]
          exact ⟨Packet.wellFormed_of_parse parsed, own⟩
        · exact (congrArg (·.channel? x) view).trans (Conversation.turn_channel?_self _ x _ _)
        · exact (speech x).trans (if_pos rfl)
        · rw [accepts_of_request asked, if_pos rfl]
          rfl
      · cases given
    · cases sampled
  · cases sampled

end Estimator

section Chronicles

variable {total m : Nat} {ks : List Nat} {taken : List Sample} {sent : List (Nat × Packet)}
variable {c : Channel}

/-- The ids of the data whose acknowledgements gave these samples. -/
def settledIds (taken : List Sample) : List PacketId :=
  (taken.filter (·.answer.header.kind == .ack)).map (·.answer.header.id)

theorem mem_settledIds (mem : s ∈ taken) (kind : s.answer.header.kind = .ack) :
    s.answer.header.id ∈ settledIds taken :=
  List.mem_map_of_mem (List.mem_filter.mpr ⟨mem, by simp [kind]⟩)

/-- The channel that a request is about has the chronicle of the one that is there. -/
theorem chronicle_of_offers (labelled : ∀ c, l.channel? e n = some c → c.Labelled)
    (chronicle : Chronicle (l.clock e) total m ks (settledIds taken) sent
      ((l.conversation n).sender e))
    (offered : (l.side e).table.Offers l.now (l.key e n) c) :
    c.Labelled ∧ Chronicle (l.clock e) total m ks (settledIds taken) sent c.sender := by
  have stands : (l.conversation n).Stands e c := Conversation.stands_of_offers rfl offered
  have numbered := chronicle.numbered.of_same stands.nextId stands.contents stands.parked
  rcases offered with found | ⟨missing, rfl⟩
  · have same : (l.conversation n).sender e = c.sender := Conversation.sender_of_some found
    exact ⟨labelled c found, same ▸ chronicle⟩
  · have begun : Chronicle (l.clock e) total m ks (settledIds taken) (sent ++ [])
        (Channel.create (l.key e n) (l.side e).table.nextGeneration (l.side e).table.config
          l.now).sender := chronicle.rest numbered nofun nofun nofun
    rw [List.append_nil] at begun
    exact ⟨labelled_create _ _ _ _, begun⟩

/-- What a channel says in moves that lead to the one that is there afterwards. -/
theorem chronicle_of_moves {asked : Channel.Op} {d c' : Channel} {log : List Effect}
    {ws : List ParkedWrite} (sound : d.Sound) (known : asked.Sound d.key) (labelled : d.Labelled)
    (own : d.key.channel = n) (moves : Moves (l.context e) asked d log ws c')
    (quiet : ∀ y ∈ voice n log, y.isReset = false) (few : total + ws.length ≤ horizon)
    (chronicle : Chronicle (l.clock e) total m ks (settledIds taken) sent d.sender) :
    ∃ m' ks', Chronicle (l.clock e) (total + ws.length) m' ks' (settledIds taken)
      (sent ++ timed l.now (packets (voice n log))) c'.sender := by
  have speaks := moves.speaks sound known
  have all : packets (voice n log) = packets log := packets_voice speaks own
  rw [all]
  exact moves.chronicle sound known labelled (not_isReset_of_voice speaks own quiet) few chronicle

theorem chronicle_of_sampling (sampling : Sampling n l e op s c)
    (labelled : ∀ c, l.channel? e n = some c → c.Labelled)
    (quiet : ∀ y ∈ said e n (l.apply op).log, y.isReset = false) (few : total ≤ horizon)
    (chronicle : Chronicle (l.clock e) total m ks (settledIds taken) sent
      ((l.conversation n).sender e)) :
    ∃ m' ks', Chronicle (l.clock e) total m' ks' (settledIds (taken ++ [s]))
      (sent ++ l.sends e n op) (((l.apply op).value.conversation n).sender e) := by
  have own : c.key.channel = n := by
    rw [(Table.mem_of_find? sampling.found).2]
    rfl
  have before : (l.conversation n).sender e = c.sender :=
    Conversation.sender_of_some sampling.found
  have after : ((l.apply op).value.conversation n).sender e = _ :=
    Conversation.sender_of_some sampling.after
  rw [before] at chronicle
  rw [sends, after]
  rw [sampling.speech] at quiet ⊢
  obtain ⟨_, kind | ⟨kind, entry, unacked, found, first⟩⟩ := of_sample? sampling.sampled
  · have same : settledIds (taken ++ [s]) = settledIds taken := by simp [settledIds, kind]
    rw [same]
    exact chronicle_of_moves sampling.sound sampling.known (labelled c sampling.found) own
      (moves_onPacket _ c _) quiet few chronicle
  · have same : settledIds (taken ++ [s]) = settledIds taken ++ [s.answer.header.id] := by
      simp [settledIds, kind]
    obtain ⟨d, key, receiver, sender, moves⟩ := moves_onPacket_ack (l.context e) kind found
    obtain ⟨ks', settled⟩ := chronicle.settle few found first
    have smaller : ∀ y ∈ d.sender.unacked.contents, y ∈ c.sender.unacked.contents := by
      rw [sender]
      exact fun y held => SendQueue.mem_contents_of_remove? found held
    have dSound : d.Sound := sampling.sound.mono key smaller
      (fun r pending => ⟨r, by rwa [← receiver], rfl⟩) (by rw [sender]; exact fun _ waits => waits)
    have dLabelled : d.Labelled :=
      ⟨fun y held => (labelled c sampling.found).unacked y (smaller y held),
        fun r pending => (labelled c sampling.found).request r (by rwa [← receiver])⟩
    rw [← sender, ← same] at settled
    exact chronicle_of_moves dSound (by rw [key]; exact sampling.known) dLabelled (by rw [key, own])
      moves quiet few settled

theorem chronicle_apply (sound : l.Sound) (known : op.Sound) (regular : op.isRestart = false)
    (keeps : ∀ e, (l.channel? e n).isSome → ((l.apply op).value.channel? e n).isSome)
    (quiet : ∀ y ∈ said e n (l.apply op).log, y.isReset = false)
    (labelled : ∀ c, l.channel? e n = some c → c.Labelled)
    (few : total + (l.accepts e n op).length ≤ horizon)
    (chronicle : Chronicle (l.clock e) total m ks (settledIds taken) sent
      ((l.conversation n).sender e)) :
    ∃ m' ks', Chronicle (l.clock e) (total + (l.accepts e n op).length) m' ks'
      (settledIds (taken ++ (l.sample? e n op).toList))
      (sent ++ l.sends e n op) (((l.apply op).value.conversation n).sender e) := by
  cases given : l.sample? e n op with
  | some s =>
    obtain ⟨c, sampling⟩ := sampling sound known given
    rw [sampling.accepts] at few ⊢
    exact chronicle_of_sampling sampling labelled quiet few chronicle
  | none =>
    rw [Option.toList_none, List.append_nil]
    have still (silent : said e n (l.apply op).log = []) (accepts : l.accepts e n op = [])
        (same : ((l.apply op).value.conversation n).sender e = (l.conversation n).sender e) :
        ∃ m' ks', Chronicle (l.clock e) (total + (l.accepts e n op).length) m' ks'
          (settledIds taken) (sent ++ l.sends e n op)
          (((l.apply op).value.conversation n).sender e) := by
      rw [sends_eq_nil silent, accepts, same, List.append_nil]
      exact ⟨m, ks, chronicle⟩
    cases episode sound known n with
    | still view silent accepts => exact still (silent e) (accepts e) (view.sender e)
    | @act x asked c c' log ws offered heard own knownOp _ moves view speech accepts =>
      by_cases here : e = x
      · subst here
        have key := offered.key_eq
        have accepts := accepts e
        have speech := speech e
        rw [if_pos rfl] at accepts speech
        obtain ⟨labelled, begun⟩ := chronicle_of_offers labelled chronicle offered
        rw [accepts, List.length_map] at few ⊢
        rw [sends, view.sender, Conversation.sender_turn_self]
        rw [speech] at quiet ⊢
        exact chronicle_of_moves own (by rwa [key]) labelled (by rw [key]; rfl) moves quiet few begun
      · have other : x = e.other := End.eq_other (Ne.symm here)
        refine still ((speech e).trans (if_neg here)) ((accepts e).trans (if_neg here)) ?_
        rw [view.sender, other, Conversation.sender_turn_back]
    | @leave x c c' log reason found _ _ view =>
      exact (not_kept view (keeps x (by rw [found]; rfl))).elim
    | forget restart =>
      rw [restart] at regular
      cases regular

end Chronicles

section Truth

variable {total m start : Nat} {ks : List Nat} {settled : List PacketId} {clock : Clock}
variable {sent more : List (Nat × Packet)} {sents : End → List (Nat × Packet)} {c : Channel}

/-- The sample is the time by which the clock went on between a transmission and its answer. -/
def Traced (clock : Clock) (sent : List (Nat × Packet)) (s : Sample) : Prop :=
  ∃ x ∈ sent, x.1 ≤ s.time ∧ s.answer.Answers x.2 ∧
    s.value = (clock.reading s.time - clock.reading x.1) * millisecond

theorem Traced.append (traced : Traced clock sent s) (more : List (Nat × Packet)) :
    Traced clock (sent ++ more) s := by
  obtain ⟨x, mem, rest⟩ := traced
  exact ⟨x, List.mem_append_left _ mem, rest⟩

theorem traced_of_sampling (sampling : Sampling n l e op s c)
    (sourced : Sourced start l.now l.clock (l.conversation n) sents)
    (chronicle : Chronicle (l.clock e) total m ks settled (sents e) ((l.conversation n).sender e))
    (near : l.now < start + stampRange * millisecond) : Traced (l.clock e) (sents e) s := by
  obtain ⟨value, cause⟩ := of_sample? sampling.sampled
  obtain ⟨x, mem, answers⟩ := sourced.answers e s.answer sampling.heard
    (cause.symm.imp And.left id)
  obtain ⟨late, early⟩ := sourced.times e x mem
  have stamp : x.2.header.timestamp = (l.clock e).timestamp x.1 := by
    rcases cause with kind | ⟨kind, entry, unacked, found, first⟩
    · exact sourced.pings e x mem (answers.of_ackPing kind)
    · obtain ⟨held, own, _⟩ := SendQueue.of_remove? found
      rw [Conversation.sender_of_some sampling.found] at chronicle
      obtain ⟨t, q, all, stamp⟩ := chronicle.once entry held first
      obtain ⟨data, id⟩ := answers.of_ack kind
      have copy : x ∈ copies entry.id (sents e) := mem_copies.mpr ⟨mem, data, id.trans own.symm⟩
      rw [all] at copy
      rwa [List.mem_singleton.mp copy]
  refine ⟨x, mem, by rwa [sampling.time], answers, ?_⟩
  rw [value, answers.timestamp, stamp, sampling.time]
  exact (l.clock e).elapsedSince_timestamp early
    (Nat.lt_of_lt_of_le near (Nat.add_le_add_right late _))

/-- What a sample says is true: it is the time by which the clock went on between any transmission
that is answered and the answer. There is such a transmission, and it is the only one of its data. -/
structure Truthful (clock : Clock) (sent : List (Nat × Packet)) (s : Sample) : Prop where
  answered : ∃ x ∈ sent, x.1 ≤ s.time ∧ s.answer.Answers x.2
  value : ∀ x ∈ sent, s.answer.Answers x.2 →
    s.value = (clock.reading s.time - clock.reading x.1) * millisecond
  once : s.answer.header.kind = .ack → ∃ x, copies s.answer.header.id sent = [x]

theorem Truthful.of_traced (traced : Traced (l.clock e) (sents e) s)
    (sourced : Sourced start l.now l.clock (l.conversation n) sents)
    (chronicle : Chronicle (l.clock e) total m ks settled (sents e) ((l.conversation n).sender e))
    (mem : s.answer.header.kind = .ack → s.answer.header.id ∈ settled)
    (near : l.now < start + stampRange * millisecond) : Truthful (l.clock e) (sents e) s := by
  obtain ⟨x, sent, before, answers, value⟩ := traced
  have copied {y : Nat × Packet} (here : y ∈ sents e) (answers : s.answer.Answers y.2)
      (kind : s.answer.header.kind = .ack) : y ∈ copies s.answer.header.id (sents e) :=
    mem_copies.mpr ⟨here, answers.of_ack kind⟩
  refine ⟨⟨x, sent, before, answers⟩, fun y here answers' => ?_, fun kind => ?_⟩
  · suffices same : (l.clock e).reading x.1 = (l.clock e).reading y.1 by rw [value, same]
    rcases answers.kind with kind | kind
    · obtain ⟨_, _, t, q, all, _⟩ := chronicle.done _ (mem kind)
      have first := copied sent answers kind
      have second := copied here answers' kind
      rw [all] at first second
      rw [List.mem_singleton.mp first, List.mem_singleton.mp second]
    · have stamp : (l.clock e).timestamp x.1 = (l.clock e).timestamp y.1 := by
        rw [← sourced.pings e x sent (answers.of_ackPing kind),
          ← sourced.pings e y here (answers'.of_ackPing kind), ← answers.timestamp,
          ← answers'.timestamp]
      obtain ⟨late, early⟩ := sourced.times e x sent
      obtain ⟨late', early'⟩ := sourced.times e y here
      rcases Nat.le_total x.1 y.1 with order | order
      · exact (l.clock e).reading_eq_of_timestamp order (by omega) stamp
      · exact ((l.clock e).reading_eq_of_timestamp order (by omega) stamp.symm).symm
  · obtain ⟨_, _, t, q, all, _⟩ := chronicle.done _ (mem kind)
    exact ⟨(t, q), all⟩

end Truth

section Diaries

/-- What one end took in, sent and measured so far. -/
structure Diary where
  taken : Nat := 0
  sent : List (Nat × Packet) := []
  samples : List Sample := []

/-- The diaries of both ends after an operation. -/
def enter (d : End → Diary) (l : Link) (n : UInt8) (op : Op) (e : End) : Diary where
  taken := (d e).taken + (l.accepts e n op).length
  sent := (d e).sent ++ l.sends e n op
  samples := (d e).samples ++ (l.sample? e n op).toList

def enterAll (d : End → Diary) (l : Link) (n : UInt8) (ops : List Op) (e : End) : Diary where
  taken := (d e).taken + (accepted e n ops l).length
  sent := (d e).sent ++ transmissions e n ops l
  samples := (d e).samples ++ samples e n ops l

theorem enterAll_cons (d : End → Diary) (l : Link) (n : UInt8) (op : Op) (ops : List Op) :
    enterAll d l n (op :: ops) = enterAll (enter d l n op) (l.apply op).value n ops := by
  funext e
  simp [enterAll, enter, accepted, transmissions, samples, Nat.add_assoc]

theorem enterAll_nil (d : End → Diary) (l : Link) (n : UInt8) : enterAll d l n [] = d := by
  funext e
  simp [enterAll, accepted, transmissions, samples]

variable {d : End → Diary} {start : Nat}

def estimate (samples : List Sample) : RttEstimator :=
  (samples.map (·.value)).foldl RttEstimator.onSample {}

/-- The diaries agree with the conversation on a number. -/
structure Agrees (n : UInt8) (start : Nat) (l : Link) (d : End → Diary) : Prop where
  sourced : Sourced start l.now l.clock (l.conversation n) fun e => (d e).sent
  chronicle : ∀ e, ∃ m ks, Chronicle (l.clock e) (d e).taken m ks (settledIds (d e).samples)
    (d e).sent ((l.conversation n).sender e)
  labelled : ∀ e c, l.channel? e n = some c → c.Labelled
  traced : ∀ e, ∀ s ∈ (d e).samples, Traced (l.clock e) (d e).sent s
  estimator : ∀ e, l.estimator e n = estimate (d e).samples
  present : ∀ e, (d e).samples ≠ [] → (l.channel? e n).isSome

theorem abides_labelled (l : Link) : l.Abides fun _ c => c.Labelled := by
  constructor
  · exact fun e key generation now => labelled_create key generation (l.config e) now
  · intro e ctx asked c c' log ws _ _ _ exact _ labelled
    have after := labelled.apply ctx asked
    rwa [exact] at after

theorem Agrees.apply (agrees : Agrees n start l d) (sound : l.Sound) (known : op.Sound)
    (regular : op.isRestart = false)
    (keeps : ∀ e, (l.channel? e n).isSome → ((l.apply op).value.channel? e n).isSome)
    (quiet : ∀ e, ∀ y ∈ said e n (l.apply op).log, y.isReset = false) (order : start ≤ l.now)
    (near : (l.apply op).value.now < start + stampRange * millisecond)
    (few : ∀ e, (enter d l n op e).taken ≤ horizon) :
    Agrees n start (l.apply op).value (enter d l n op) := by
  have clocks (e : End) : (l.apply op).value.clock e = l.clock e := clock_apply regular e
  constructor
  · exact agrees.sourced.apply sound known regular keeps order
  · intro e
    obtain ⟨m, ks, chronicle⟩ := agrees.chronicle e
    rw [clocks]
    exact chronicle_apply sound known regular keeps (quiet e) (agrees.labelled e) (few e) chronicle
  · exact channels_apply (abides_labelled l) sound known agrees.labelled
  · intro e s mem
    rw [clocks]
    refine Traced.append ?_ _
    rcases List.mem_append.mp mem with old | new
    · exact agrees.traced e s old
    · obtain ⟨c, sampling⟩ := sampling sound known (Option.mem_toList.mp new)
      obtain ⟨m, ks, chronicle⟩ := agrees.chronicle e
      exact traced_of_sampling sampling agrees.sourced chronicle
        (Nat.lt_of_le_of_lt (now_apply_le l op) near)
  · intro e
    rw [estimator_apply sound regular (keeps e), agrees.estimator, enter, estimate, estimate]
    cases l.sample? e n op <;> simp
  · intro e taken
    by_cases old : (d e).samples = []
    · have new : (l.sample? e n op).toList ≠ [] := by simpa [enter, old] using taken
      obtain ⟨s, mem⟩ := List.exists_mem_of_ne_nil _ new
      obtain ⟨c, sampling⟩ := sampling sound known (Option.mem_toList.mp mem)
      rw [sampling.after]
      rfl
    · exact keeps e (agrees.present e old)

theorem Agrees.run (agrees : Agrees n start l d) (sound : l.Sound) {ops : List Op}
    (regular : ∀ op ∈ ops, op.Regular) (keeps : ∀ e, Keeps e n ops l)
    (quiet : ∀ e, ∀ y ∈ said e n (run ops l).log, y.isReset = false) (order : start ≤ l.now)
    (near : (Link.run ops l).value.now < start + stampRange * millisecond)
    (few : ∀ e, (enterAll d l n ops e).taken ≤ horizon) :
    Agrees n start (Link.run ops l).value (enterAll d l n ops) := by
  induction ops generalizing l d with
  | nil =>
    rw [enterAll_nil]
    exact agrees
  | cons op ops ih =>
    obtain ⟨known, runs⟩ := regular op List.mem_cons_self
    rw [enterAll_cons] at few ⊢
    have parts (e : End) : ∀ y, y ∈ said e n (l.apply op).log ∨
        y ∈ said e n (Link.run ops (l.apply op).value).log → y.isReset = false := by
      intro y logged
      refine quiet e y ?_
      rw [log_run_cons, said_append]
      exact List.mem_append.mpr logged
    have fewer (e : End) : (enter d l n op e).taken ≤ horizon :=
      Nat.le_trans (Nat.le_add_right _ _) (few e)
    have next := agrees.apply sound known runs (fun e => (keeps e).1)
      (fun e y logged => parts e y (.inl logged)) order
      (Nat.lt_of_le_of_lt (now_run_le ops _) near) fewer
    exact ih next (sound.apply known) (fun op mem => regular op (List.mem_cons_of_mem _ mem))
      (fun e => (keeps e).2) (fun e y logged => parts e y (.inr logged))
      (Nat.le_trans order (now_apply_le l op)) near few

theorem Fresh.agrees (fresh : l.Fresh) (n : UInt8) : Agrees n l.now l fun _ => {} := by
  have missing (e : End) : l.channel? e n = none := fresh.channel? e n
  constructor
  · refine ⟨nofun, nofun, fun e p mem => ?_, fun e p mem => ?_⟩
    · rw [show (l.conversation n).air e = [] from fresh.air e n] at mem
      cases mem
    · rw [show (l.conversation n).air e.other = [] from fresh.air e.other n] at mem
      cases mem
  · intro e
    refine ⟨0, [], chronicle_nil (fresh.numbered e n) ?_⟩
    simp only [Conversation.sender, conversation, missing]
  · intro e c found
    rw [missing] at found
    cases found
  · exact fun e => List.forall_mem_nil _
  · intro e
    rw [estimator, missing]
    rfl
  · exact fun e taken => absurd rfl taken

/-- Until a channel is destroyed, its samples of the round trip time are truthful, its estimator is
what the samples make of it, and as soon as there is one, the smoothed time is less than a millisecond
longer than the longest time from a transmission to its answer. -/
theorem samples_truthful {l : Link} {ops : List Op} (n : UInt8) (fresh : l.Fresh)
    (regular : ∀ op ∈ ops, op.Regular) (keeps : ∀ e, Keeps e n ops l)
    (near : (run ops l).value.now < l.now + stampRange * millisecond)
    (few : ∀ e, (accepted e n ops l).length < horizon) (e : End) :
    (∀ s ∈ samples e n ops l, Truthful (l.clock e) (transmissions e n ops l) s) ∧
      (∀ c, (run ops l).value.channel? e n = some c → c.rtt = estimate (samples e n ops l)) ∧
      (samples e n ops l ≠ [] → ∃ c, (run ops l).value.channel? e n = some c ∧
        ∃ s ∈ samples e n ops l, ∀ x ∈ transmissions e n ops l, s.answer.Answers x.2 →
          c.rtt.smoothed < s.time - x.1 + millisecond) := by
  obtain ⟨quiet, _⟩ := flows_of_fresh fresh regular keeps near few
  have agrees := (fresh.agrees n).run fresh.sound regular keeps quiet (Nat.le_refl _) near
    fun e => by simpa [enterAll] using Nat.le_of_lt (few e)
  have clocks : (run ops l).value.clock e = l.clock e := clock_run regular l e
  have sent : (enterAll (fun _ => {}) l n ops e).sent = transmissions e n ops l := List.nil_append _
  have taken : (enterAll (fun _ => {}) l n ops e).samples = samples e n ops l := List.nil_append _
  have truthful : ∀ s ∈ samples e n ops l, Truthful (l.clock e) (transmissions e n ops l) s := by
    intro s mem
    rw [← taken] at mem
    obtain ⟨m, ks, chronicle⟩ := agrees.chronicle e
    have traced := agrees.traced e s mem
    have truthful := Truthful.of_traced traced agrees.sourced chronicle
      (fun kind => mem_settledIds mem kind) near
    rwa [clocks, sent] at truthful
  have estimated (c : Channel) (found : (run ops l).value.channel? e n = some c) :
      c.rtt = estimate (samples e n ops l) := by
    have estimator := agrees.estimator e
    rwa [taken, Link.estimator, found] at estimator
  refine ⟨truthful, estimated, fun some => ?_⟩
  have present := agrees.present e (by rwa [taken])
  obtain ⟨c, found⟩ := Option.isSome_iff_exists.mp present
  refine ⟨c, found, ?_⟩
  have measured : (samples e n ops l).map (·.value) ≠ [] := by simpa using some
  obtain ⟨v, value, bound⟩ := RttEstimator.exists_smoothed_le measured
  obtain ⟨s, mem, rfl⟩ := List.mem_map.mp value
  refine ⟨s, mem, fun x sent answers => ?_⟩
  rw [estimated c found]
  refine Nat.lt_of_le_of_lt bound ?_
  rw [(truthful s mem).value x sent answers]
  exact (l.clock e).reading_sub_lt x.1 s.time

/-- The pair, but the clock of the end `a` is about to wrap. -/
def wrapping : Link := { pair with a.table.clock := ⟨0, 0xFFFFFFFF⟩ }

/-- The end `a` pings and writes, and data and ping are answered, the data twice. -/
def roundTrips : List Op :=
  [.connect .a 1, .write .a 1 1 ⟨0, [1]⟩, .pass (3 * millisecond / 2), .copy .a 1,
    .pass (3 * millisecond / 4), .deliver .b 0, .pass (2 * millisecond), .deliver .a 0,
    .deliver .a 0, .deliver .b 0, .deliver .b 0]

theorem samples_truthful_of_roundTrips :
    (samples .a 1 roundTrips wrapping).map (fun s => (s.time, s.answer.header.kind, s.value)) =
        [(9 * millisecond / 4, .ack, 2 * millisecond),
          (17 * millisecond / 4, .ackPing, 4 * millisecond)] ∧
      (∀ s ∈ samples .a 1 roundTrips wrapping,
        Truthful (wrapping.clock .a) (transmissions .a 1 roundTrips wrapping) s) ∧
      ∃ c, (run roundTrips wrapping).value.channel? .a 1 = some c ∧
        c.rtt = estimate (samples .a 1 roundTrips wrapping) ∧
        ∃ s ∈ samples .a 1 roundTrips wrapping,
          ∀ x ∈ transmissions .a 1 roundTrips wrapping, s.answer.Answers x.2 →
            c.rtt.smoothed < s.time - x.1 + millisecond := by
  have fresh : wrapping.Fresh := fun e => by cases e <;> exact ⟨rfl, rfl⟩
  have regular : ∀ op ∈ roundTrips, op.Regular := by decide
  have keeps (e : End) : Keeps e 1 roundTrips wrapping := by cases e <;> decide +kernel
  have near : (run roundTrips wrapping).value.now < wrapping.now + stampRange * millisecond := by
    decide +kernel
  have few (e : End) : (accepted e 1 roundTrips wrapping).length < horizon := by
    cases e <;> decide +kernel
  have taken : samples .a 1 roundTrips wrapping ≠ [] := by decide +kernel
  obtain ⟨truthful, estimated, bounded⟩ := samples_truthful 1 fresh regular keeps near few .a
  obtain ⟨c, found, bound⟩ := bounded taken
  exact ⟨by decide +kernel, truthful, c, found, estimated c found, bound⟩

end Diaries

end ReliableDatagram.Link
