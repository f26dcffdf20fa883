import ReliableDatagram.Proofs.Channel.LastStart
import ReliableDatagram.Proofs.Link.Writer

/-!
# New streams and copies of old starts

An end begins one stream after the other, because its channel is closed and opened again, its table
is restarted or the peer asks for it. `start_delivered_iff` says which of their starts a channel at
the other end delivers: those that do not have the timestamp of the last start before them. As long
as all starts are stamped differently, this tells new streams from copies of old starts, but a stream
that begins in the millisecond of the one before loses its first packet.
-/

namespace ReliableDatagram.Link

open Channel

variable {n : UInt8} {l : Link} {e x : End} {op : Op} {ops : List Op}
variable {arrived : List Packet} {delivers : List Bytes} {p : Packet}

theorem goesBy_apply (goes : GoesBy arrived delivers ((l.conversation n).receiver x))
    (sound : l.Sound) (known : op.Sound)
    (keeps : (l.channel? x n).isSome → ((l.apply op).value.channel? x n).isSome) :
    GoesBy (arrived ++ l.brings x n op) (delivers ++ delivered x n (l.apply op).log)
      (((l.apply op).value.conversation n).receiver x) := by
  cases listening sound known keeps with
  | still same silent brings =>
    rw [same, brings, delivered, silent, payloads_nil, List.append_nil, List.append_nil]
    exact goes
  | act begun heard own knownOp applied moves after delivers' utters brings =>
    rw [← begun] at goes
    rw [brings, delivers', after]
    exact goes.apply applied moves own knownOp

theorem goesBy_run (goes : GoesBy arrived delivers ((l.conversation n).receiver x))
    (sound : l.Sound) (known : ∀ op ∈ ops, op.Sound) (keeps : Keeps x n ops l) :
    GoesBy (arrived ++ arrivals x n ops l) (delivers ++ delivered x n (run ops l).log)
      (((run ops l).value.conversation n).receiver x) := by
  induction ops generalizing l arrived delivers with
  | nil =>
    rw [arrivals, List.append_nil]
    have silent : delivered x n (run [] l).log = [] := rfl
    rw [silent, List.append_nil]
    exact goes
  | cons op ops ih =>
    have first := known op List.mem_cons_self
    have goes' := ih (goesBy_apply goes sound first keeps.1) (sound.apply first)
      (fun op mem => known op (List.mem_cons_of_mem _ mem)) keeps.2
    rw [arrivals, log_run_cons, delivered_append, ← List.append_assoc, ← List.append_assoc]
    exact goes'

/-- An operation that brings a stream start. -/
theorem brings_start (goes : GoesBy arrived delivers ((l.conversation n).receiver x))
    (sound : l.Sound) (known : op.Sound)
    (keeps : (l.channel? x n).isSome → ((l.apply op).value.channel? x n).isSome)
    (brought : l.brings x n op = [p]) (start : p.header.id = .streamStart) :
    delivered x n (l.apply op).log =
        (if (lastStart? arrived).map (·.header.timestamp) = some p.header.timestamp then []
        else [p.payload]) ∧
      p.ack ∈ packets (said x n (l.apply op).log) := by
  cases listening sound known keeps with
  | still same silent brings =>
    rw [brings] at brought
    cases brought
  | @act asked c c' log ws begun heard own knownOp applied moves after delivers' utters brings =>
    have mem : p ∈ asked.data := by
      rw [← brings, brought]
      exact List.mem_singleton_self p
    obtain ⟨rfl, kind⟩ := Channel.Op.mem_data.mp mem
    rw [← begun] at goes
    have starts := goes.starts kind start knownOp own (l.context x)
    have same : c.onPacket (l.context x) p = ⟨c', log⟩ := applied
    have payloads' := starts.payloads
    have answer := starts.answer
    rw [same] at payloads' answer
    rw [delivers', utters]
    exact ⟨payloads', answer⟩

/-- After `before`, the end `e.other` has no channel. Then it gets one, which hears `seen`, delivers
`told` and lives on through an operation that brings it the start `p` of a stream. -/
structure BringsStart (n : UInt8) (e : End) (l : Link) (before life : List Op) (op : Op) (p : Packet)
    (seen : List Packet) (told : List Bytes) : Prop where
  unborn : (run before l).value.channel? e.other n = none
  keeps : Keeps e.other n (life ++ [op]) (run before l).value
  brought : (run (before ++ life) l).value.brings e.other n op = [p]
  start : p.header.id = .streamStart
  hears : arrivals e.other n life (run before l).value = seen
  tells : delivered e.other n (run life (run before l).value).log = told

variable {before life : List Op} {seen : List Packet} {told : List Bytes}

/-- What arrived at the end `e.other` was sent by the end `e`. -/
theorem BringsStart.sent (brings : BringsStart n e l before life op p seen told) (fresh : l.Fresh)
    (known : ∀ o ∈ before ++ life ++ [op], o.Sound) :
    ∀ q ∈ seen ++ [p], q ∈ Link.sent e n (run (before ++ life) l).log := by
  have silent : Writes n (l.conversation n) e [] [] [] :=
    .silent n (fresh.channel? e n) (fresh.air e n)
  have whole : ∀ o ∈ before ++ life, o.Sound := fun o mem =>
    known o (List.mem_append_left _ mem)
  have early : ∀ o ∈ before, o.Sound := fun o mem => whole o (List.mem_append_left _ mem)
  obtain ⟨past, st, writes, flatten⟩ := silent.run fresh.sound early
  obtain ⟨past', st', writes', flatten'⟩ := silent.run fresh.sound whole
  rw [show ([] ++ [[]] : List (List Packet)).flatten = [] from rfl, List.nil_append] at flatten flatten'
  intro q mem
  rcases List.mem_append.mp mem with old | new
  · rw [← brings.hears] at old
    have arrived := writes.arrivals (fresh.sound.run early)
      (fun o mem => whole o (List.mem_append_right _ mem)) q old
    rwa [flatten, ← sent_append, ← log_run_append] at arrived
  · have last : op.Sound := known op List.mem_concat_self
    have arrived := writes'.brings (fresh.sound.run whole) last q (by rwa [brings.brought])
    rwa [flatten'] at arrived

/-- The receiver goes by the last start that it heard in the life of its channel. -/
theorem BringsStart.goesBy (brings : BringsStart n e l before life op p seen told) (fresh : l.Fresh)
    (known : ∀ o ∈ before ++ life, o.Sound) :
    GoesBy seen told (((run (before ++ life) l).value.conversation n).receiver e.other) := by
  have early : (run before l).value.Sound :=
    fresh.sound.run fun o mem => known o (List.mem_append_left _ mem)
  have born : GoesBy [] [] (((run before l).value.conversation n).receiver e.other) := by
    rw [receiver_of_none brings.unborn]
    exact goesBy_fresh
  have goes := goesBy_run born early (fun o mem => known o (List.mem_append_right _ mem))
    (keeps_append.mp brings.keeps).1
  rwa [List.nil_append, List.nil_append, brings.hears, brings.tells, ← value_run_append] at goes

/-- A channel delivers the start of a stream exactly if its timestamp is not that of the last start
before it, and acknowledges it in any case. So if all starts that were sent are stamped differently,
then the first copy of each is delivered, and what is acknowledged only was delivered before. -/
theorem start_delivered_iff (n : UInt8) (e : End) (fresh : l.Fresh)
    (known : ∀ o ∈ before ++ life ++ [op], o.Sound)
    (brings : BringsStart n e l before life op p seen told) :
    ((lastStart? seen).map (·.header.timestamp) ≠ some p.header.timestamp →
        delivered e.other n ((run (before ++ life) l).value.apply op).log = [p.payload]) ∧
      ((lastStart? seen).map (·.header.timestamp) = some p.header.timestamp →
        delivered e.other n ((run (before ++ life) l).value.apply op).log = [] ∧
          Began p.header.timestamp seen told) ∧
      p.ack ∈ packets (said e.other n ((run (before ++ life) l).value.apply op).log) ∧
      (StartsDiffer (sent e n (run (before ++ life) l).log) →
        (p ∉ seen →
          delivered e.other n ((run (before ++ life) l).value.apply op).log = [p.payload]) ∧
        (delivered e.other n ((run (before ++ life) l).value.apply op).log = [] →
          p ∈ seen ∧ p.payload ∈ told)) := by
  have whole : ∀ o ∈ before ++ life, o.Sound := fun o mem =>
    known o (List.mem_append_left _ mem)
  have goes := brings.goesBy fresh whole
  have lives := (keeps_append.mp brings.keeps).2
  rw [← value_run_append] at lives
  obtain ⟨delivers, answer⟩ := brings_start goes (fresh.sound.run whole)
    (known op List.mem_concat_self) lives.1 brings.brought brings.start
  rw [delivers]
  refine ⟨fun other => if_neg other, fun same => ⟨if_pos same, goes.began same⟩, answer,
    fun differ => ?_⟩
  have again := goes.mem_of_same differ (brings.sent fresh known) brings.start
  constructor
  · exact fun new => if_neg fun same => new (again same).1
  · refine fun silent => again (by_contra fun other => ?_)
    rw [if_neg other] at silent
    cases silent

/-- The channel at the end `a` is closed and, after a pause, opened again to begin a new stream. -/
def reopening (pause : Nat) : List Op :=
  [.connect .a 1, .write .a 1 1 ⟨0, [1]⟩, .deliver .a 1, .close .a 1 1, .pass pause, .connect .a 1,
    .write .a 1 2 ⟨1, [2]⟩]

theorem bringsStart_reopening :
    BringsStart 1 .a pair [] (reopening millisecond) (.deliver .a 2) (.data 1 .streamStart 1 [2])
      [.data 1 .streamStart 0 [1]] [[1]] := by
  constructor
  all_goals decide +kernel

/-- After a millisecond, the new stream is told from the old one. -/
theorem start_delivered_of_reopening :
    delivered .b 1 ((run (reopening millisecond) pair).value.apply (.deliver .a 2)).log = [[2]] ∧
      StartsDiffer (sent .a 1 (run (reopening millisecond) pair).log) := by
  have differ : StartsDiffer (sent .a 1 (run (reopening millisecond) pair).log) := by decide +kernel
  have told := start_delivered_iff 1 .a fresh_pair (by decide) bringsStart_reopening
  exact ⟨(told.2.2.2 differ).1 (by decide), differ⟩

/-- Without the pause, the start of the new stream is taken for a copy of the old one, although it is
the first start after it and no copy of it came before. -/
theorem not_new_start_delivered :
    ¬∀ (n : UInt8) (e : End) (l : Link) (before life : List Op) (op : Op) (p : Packet)
        (seen earlier : List Packet) (told : List Bytes), l.Fresh →
      (∀ o ∈ before ++ life ++ [op], o.Sound) → Continues e (before ++ life ++ [op]) l →
      BringsStart n e l before life op p seen told →
      sent e n (run (before ++ life) l).log = earlier ++ [p] → p ∉ earlier →
      (∃ s ∈ seen, s.header.id = .streamStart) → (∀ s ∈ seen, s ∈ earlier) →
      delivered e.other n ((run (before ++ life) l).value.apply op).log = [p.payload] := by
  intro all
  have lost := all 1 .a pair [] (reopening 0) (.deliver .a 2) (.data 1 .streamStart 0 [2])
    [.data 1 .streamStart 0 [1]] [.data 1 .streamStart 0 [1]] [[1]] fresh_pair (by decide)
    (by decide +kernel) ⟨by decide +kernel, by decide +kernel, by decide +kernel, rfl,
      by decide +kernel, by decide +kernel⟩ (by decide +kernel) (by decide) (by decide) (by decide)
  revert lost
  decide +kernel

end ReliableDatagram.Link
