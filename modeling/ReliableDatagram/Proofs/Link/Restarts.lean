import ReliableDatagram.Proofs.Channel.Restarts
import ReliableDatagram.Proofs.Link.Writer

/-!
# Order across restarts

One end of a link sends stream after stream, because its channel is closed and opened again, its
table is restarted or the peer asks for it. As long as the network brings no start of an older
stream after that of a newer one, the other end's channel delivers in the order of the writes. If it
does bring one, then something is delivered again or too late.
-/

namespace ReliableDatagram.Link

open Channel PacketId

variable {n : UInt8} {l : Link} {e x : End} {op : Op} {low start : Nat}
variable {past : List (List Packet)} {st : List Packet} {written : List Bytes}
variable {streams streams' : List (List Packet)} {arrived new : List Packet}
variable {delivers : List Bytes} {r : Receiver}

/-- What the end `e` sent and when, and what its clock shows. -/
structure Writing (n : UInt8) (l : Link) (e : End) (low start : Nat) (past : List (List Packet))
    (st : List Packet) (written : List Bytes) : Prop where
  writes : Writes n (l.conversation n) e past st written
  dated : Dated l e low start (past ++ [st]).flatten

theorem Writing.apply (writing : Writing n l e low start past st written) (sound : l.Sound)
    (known : op.Sound) (continues : op.Continues l e) (order : start ≤ l.now) :
    ∃ past' st', Writing n (l.apply op).value e low start past' st' (written ++ l.accepts e n op) ∧
      Grows (past ++ [st]) (sent e n (l.apply op).log) (past' ++ [st']) := by
  obtain ⟨past', st', writes, grows, stamped⟩ := writing.writes.apply sound known
  refine ⟨past', st', ⟨writes, ?_⟩, grows⟩
  rw [grows.flatten]
  exact writing.dated.apply order continues stamped

theorem Writing.run (writing : Writing n l e low start past st written) (sound : l.Sound)
    {ops : List Op} (known : ∀ op ∈ ops, op.Sound) (continues : Continues e ops l)
    (order : start ≤ l.now) :
    ∃ past' st', Writing n (Link.run ops l).value e low start past' st'
        (written ++ accepted e n ops l) ∧
      (past' ++ [st']).flatten = (past ++ [st]).flatten ++ sent e n (Link.run ops l).log := by
  induction ops generalizing l past st written with
  | nil =>
    refine ⟨past, st, ?_, (List.append_nil _).symm⟩
    rw [accepted, List.append_nil]
    exact writing
  | cons op ops ih =>
    obtain ⟨past', st', writing', grows⟩ :=
      writing.apply sound (known op List.mem_cons_self) continues.1 order
    obtain ⟨past'', st'', writing'', flatten⟩ := ih writing' (sound.apply (known op List.mem_cons_self))
      (fun op mem => known op (List.mem_cons_of_mem _ mem)) continues.2
      (Nat.le_trans order (now_apply_le l op))
    refine ⟨past'', st'', ?_, ?_⟩
    · rw [accepted, ← List.append_assoc]
      exact writing''
    · rw [flatten, grows.flatten, log_run_cons, sent_append, List.append_assoc]

theorem writing_fresh (fresh : l.Fresh) (n : UInt8) (e : End) :
    Writing n l e ((l.clock e).reading l.now) l.now [] [] [] := by
  constructor
  · exact .silent n (fresh.channel? e n) (fresh.air e n)
  · exact dated_start l e

/-- What a receiver made of its packets stays when more is sent. -/
theorem outcome_grows (outcome : Outcome streams arrived delivers r)
    (grows : Grows streams new streams') : Outcome streams' arrived delivers r := by
  rcases outcome with ⟨receiving, order⟩ | inverted
  · refine .inl ⟨?_, order⟩
    cases receiving with
    | waiting waits none silent => exact .waiting waits none silent
    | @following before after st earlier q d along place same =>
      obtain ⟨more, after', place'⟩ := grows.keeps before st after place
      obtain ⟨first, heard, newest, follows, going, older⟩ := along
      refine .following ⟨getElem?_append_some first more, heard, newest, follows.append more, going,
        older⟩ place' ?_
      rw [List.take_append_of_le_length follows.within]
      exact same
  · rw [Outcome, grows.flatten]
    have more := inverted.more new [] []
    rw [List.append_nil, List.append_nil] at more
    exact .inr more

/-- An operation of the link, as the receiver at the end `e.other` sees it. -/
theorem outcome_apply (outcome : Outcome streams arrived delivers
      ((l.conversation n).receiver e.other)) (sound : l.Sound) (known : op.Sound)
    (keeps : (l.channel? e.other n).isSome → ((l.apply op).value.channel? e.other n).isSome)
    (numbered : ∀ st ∈ streams, Stream n st) (short : ∀ st ∈ streams, st.length ≤ horizon)
    (inTime : InTime streams.flatten)
    (air : ∀ p ∈ (l.conversation n).air e, p.header.kind = .data → p ∈ streams.flatten)
    (introduced : ∀ p ∈ l.brings e.other n op, Introduces streams.flatten arrived p) :
    Outcome streams (arrived ++ l.brings e.other n op)
      (delivers ++ delivered e.other n (l.apply op).log)
      (((l.apply op).value.conversation n).receiver e.other) := by
  cases listening sound known keeps with
  | still same silent brings =>
    rw [same, brings, delivered, silent, payloads_nil, List.append_nil, List.append_nil]
    exact outcome
  | @act asked c c' log ws begun heard own knownOp applied moves after delivers' utters brings =>
    rw [brings] at introduced ⊢
    rw [delivers', after]
    rcases outcome with ⟨receiving, order⟩ | inverted
    · rw [← begun] at receiving
      refine receiving.moves order moves applied own knownOp numbered short inTime ?_ introduced
      intro p brought
      obtain ⟨rfl, kind⟩ := Channel.Op.mem_data.mp brought
      have flies := heard p rfl
      rw [End.other_other] at flies
      exact air p flies kind
    · have more := inverted.more [] asked.data (payloads log)
      rw [List.append_nil] at more
      exact .inr more

theorem brings_cases (l : Link) (x : End) (n : UInt8) (op : Op) :
    l.brings x n op = [] ∨ ∃ p, l.brings x n op = [p] := by
  unfold brings
  split
  · next e request _ =>
    split
    · unfold Table.hears
      split
      · split
        · split
          · exact .inr ⟨_, rfl⟩
          · exact .inl rfl
        · exact .inl rfl
      · exact .inl rfl
    · exact .inl rfl
  · exact .inl rfl

theorem introduced_append {sent seen rest : List Packet} (l : Link) (x : End) (n : UInt8) (op : Op)
    (introduced : Introduced sent seen (l.brings x n op ++ rest)) :
    (∀ p ∈ l.brings x n op, Introduces sent seen p) ∧
      Introduced sent (seen ++ l.brings x n op) rest := by
  rcases brings_cases l x n op with none | ⟨p, one⟩
  · rw [none] at introduced ⊢
    rw [List.append_nil]
    exact ⟨fun p mem => (List.not_mem_nil mem).elim, introduced⟩
  · rw [one] at introduced ⊢
    refine ⟨fun q mem => ?_, introduced.2⟩
    rcases List.mem_singleton.mp mem with rfl
    exact introduced.1

/-- In a run through which the receiver keeps its channel, the writer writes and the receiver goes
on with what it hears. -/
theorem outcome_run (writing : Writing n l e low start past st written)
    (outcome : Outcome (past ++ [st]) arrived delivers ((l.conversation n).receiver e.other))
    (sound : l.Sound) {ops : List Op} (known : ∀ op ∈ ops, op.Sound)
    (continues : Continues e ops l) (keeps : Keeps e.other n ops l) (order : start ≤ l.now)
    (near : (Link.run ops l).value.now < start + (stampRange - 1) * millisecond)
    (few : (written ++ accepted e n ops l).length ≤ horizon)
    (apart : StartsApart ((past ++ [st]).flatten ++ sent e n (Link.run ops l).log))
    (introduced : Introduced ((past ++ [st]).flatten ++ sent e n (Link.run ops l).log) arrived
      (arrivals e.other n ops l)) :
    ∃ streams, (contentsOf streams.flatten).Sublist (written ++ accepted e n ops l) ∧
      Outcome streams (arrived ++ arrivals e.other n ops l)
        (delivers ++ delivered e.other n (Link.run ops l).log)
        (((Link.run ops l).value.conversation n).receiver e.other) := by
  induction ops generalizing l past st written arrived delivers with
  | nil =>
    refine ⟨past ++ [st], ?_, ?_⟩
    · rw [accepted, List.append_nil]
      exact (List.sublist_append_left _ _).trans writing.writes.carries
    · rw [arrivals, List.append_nil]
      have silent : delivered e.other n (Link.run [] l).log = [] := rfl
      rw [silent, List.append_nil]
      exact outcome
  | cons op ops ih =>
    have known' := known op List.mem_cons_self
    obtain ⟨past', st', writing', grows⟩ := writing.apply sound known' continues.1 order
    have passes := now_run_le (op :: ops) l
    have inTime : InTime (past ++ [st]).flatten :=
      writing.dated.inTime (Nat.lt_of_le_of_lt passes near) (List.pairwise_append.mp apart).1
    have short : ∀ σ ∈ past ++ [st], σ.length ≤ horizon := by
      intro σ mem
      have part := (List.sublist_flatten_of_mem mem).length_le
      have carried := ((List.sublist_append_left _ _).trans writing.writes.carries).length_le
      rw [contentsOf, List.length_map] at carried
      rw [List.length_append] at few
      omega
    rw [arrivals] at introduced ⊢
    obtain ⟨here, later⟩ := introduced_append l e.other n op introduced
    have outcome' := outcome_grows (outcome_apply outcome sound known' keeps.1 writing.writes.streams
      short inTime writing.writes.data fun p mem => (here p mem).of_append) grows
    rw [log_run_cons, sent_append, ← List.append_assoc, ← grows.flatten] at apart later
    rw [accepted, ← List.append_assoc] at few ⊢
    obtain ⟨streams, carries, after⟩ := ih writing' outcome' (sound.apply known')
      (fun op mem => known op (List.mem_cons_of_mem _ mem)) continues.2 keeps.2
      (Nat.le_trans order (now_apply_le l op)) near few apart later
    refine ⟨streams, carries, ?_⟩
    rw [log_run_cons, delivered_append, ← List.append_assoc, ← List.append_assoc]
    exact after

/-- Within the life of one channel at the end `e.other`, whatever became of the channels and tables
at the end `e` before and since: if no stream starts in the same millisecond as an earlier packet,
and no other packet of a stream overtakes its start, then the deliveries are in the order of the
writes, each at most once, as long as no start of an older stream comes after that of a newer one.
If one does, they are not. -/
theorem delivered_in_order_iff_starts_in_order {l : Link} {before life : List Op} (n : UInt8)
    (e : End) (fresh : l.Fresh) (known : ∀ op ∈ before ++ life, op.Sound)
    (continues : Continues e (before ++ life) l)
    (unborn : (run before l).value.channel? e.other n = none)
    (keeps : Keeps e.other n life (run before l).value)
    (near : (run (before ++ life) l).value.now < l.now + (stampRange - 1) * millisecond)
    (few : (accepted e n (before ++ life) l).length < horizon)
    (apart : StartsApart (sent e n (run (before ++ life) l).log))
    (introduced : Introduced (sent e n (run (before ++ life) l).log) []
      (arrivals e.other n life (run before l).value)) :
    (StartsInOrder (arrivals e.other n life (run before l).value) →
        (delivered e.other n (run life (run before l).value).log).Sublist
          (accepted e n (before ++ life) l)) ∧
      ((accepted e n (before ++ life) l).Nodup →
        (delivered e.other n (run life (run before l).value).log).Sublist
          (accepted e n (before ++ life) l) →
        StartsInOrder (arrivals e.other n life (run before l).value)) := by
  obtain ⟨continuesBefore, continuesLife⟩ := continues_append.mp continues
  have knownBefore : ∀ op ∈ before, op.Sound := fun op mem => known op (List.mem_append_left _ mem)
  obtain ⟨past, st, writing, flatten⟩ := (writing_fresh fresh n e).run fresh.sound knownBefore
    continuesBefore (Nat.le_refl _)
  have flatten : (past ++ [st]).flatten = sent e n (run before l).log := flatten
  have writing : Writing n (run before l).value e _ l.now past st (accepted e n before l) := writing
  have outcome : Outcome (past ++ [st]) [] []
      (((run before l).value.conversation n).receiver e.other) := by
    have receiver : ((run before l).value.conversation n).receiver e.other = {} := by
      simp only [Conversation.receiver, conversation, unborn]
    rw [receiver]
    exact .inl ⟨.waiting waiting_fresh (fun _ mem => (List.not_mem_nil mem).elim) rfl, .nil⟩
  rw [value_run_append] at near
  rw [accepted_append] at few ⊢
  rw [log_run_append, sent_append, ← flatten] at apart introduced
  obtain ⟨streams, carries, after⟩ := outcome_run writing outcome (fresh.sound.run knownBefore)
    (fun op mem => known op (List.mem_append_right _ mem)) continuesLife keeps (now_run_le before l)
    near (Nat.le_of_lt few) apart introduced
  exact after.ordered_iff carries

/-- The table at the end `a` is restarted between two writes, and a copy of the first one's packet
stays in the air. -/
def renewal : List Op :=
  [.connect .a 1, .write .a 1 1 ⟨0, [1]⟩, .copy .a 1, .pass millisecond, .restart .a 1,
    .connect .a 1, .write .a 1 1 ⟨1, [2]⟩, .deliver .a 3]

theorem delivered_in_order_of_renewal :
    (delivered .b 1 (run renewal pair).log).Sublist (accepted .a 1 renewal pair) ∧
      delivered .b 1 (run renewal pair).log = [[1], [2]] := by
  have known : ∀ op ∈ [] ++ renewal, op.Sound := by decide
  refine ⟨(delivered_in_order_iff_starts_in_order 1 .a fresh_pair known ?_ ?_ ?_ ?_ ?_ ?_ ?_).1 ?_,
    by decide +kernel⟩
  all_goals decide +kernel

/-- When the copy arrives after all, its payload is delivered again. -/
theorem not_delivered_in_order_of_old_start :
    ¬∀ (l : Link) (ops : List Op) (n : UInt8) (e : End), l.Fresh → (∀ op ∈ ops, op.Sound) →
      Continues e ops l → Keeps e.other n ops l →
      (delivered e.other n (run ops l).log).Sublist (accepted e n ops l) := by
  intro ordered
  have again := ordered pair (renewal ++ [.copy .a 1]) 1 .a fresh_pair (by decide) (by decide +kernel)
    (by decide +kernel)
  revert again
  decide +kernel

end ReliableDatagram.Link
