import ReliableDatagram.Proofs.Channel.Alignment
import ReliableDatagram.Proofs.Channel.Initiative

/-!
# Starting a stream over

A receiver without a stream hears the start of one, or data that goes on with a stream it does not
know. Then it asks for a reset, and the sender answers and starts over. When nothing in the air is
lost, copied or overtaken, that is all that can be in the air on the way to the stream start.
-/

namespace ReliableDatagram.Channel

variable {lost lost' : Prop} {s s' : Sender} {pending : Bool} {p q : Packet}
variable {air asks sent : List Packet}
variable {ctx : Context} {c c' : Channel} {log : List Effect}

/-- A packet that is not about the stream of its sender leaves the receive direction alone. -/
theorem onPacket_overheard (exact : c.onPacket ctx p = ⟨c', log⟩) (sound : c.Sound)
    (known : (Op.packet p).Sound c.key)
    (other : ¬(p.header.kind = .data ∨ p.header.kind = .ackReset)) :
    c'.receiver = c.receiver ∧ back (packets log) = [] ∧ payloads log = [] := by
  have value : c' = (c.onPacket ctx p).value := by rw [exact]
  have log' : log = (c.onPacket ctx p).log := by rw [exact]
  rw [value, log']
  cases kind : p.header.kind with
  | data | ackReset => simp [kind] at other
  | ack | reset =>
    obtain ⟨same, sent, silent⟩ := onPacket_sending ctx sound known (by simp [kind])
    exact ⟨same, back_eq_nil sent, silent⟩
  | ping =>
    obtain ⟨_, same, sent, silent⟩ := onPacket_ping ctx known kind
    exact ⟨same, by rw [sent]; rfl, silent⟩
  | ackPing =>
    obtain ⟨_, same, sent, silent⟩ := onPacket_ackPing ctx c kind
    exact ⟨same, by rw [sent]; rfl, silent⟩

/-- A packet that is about the stream of its sender leaves the send direction alone, unless the
receiver leaves its stream. -/
theorem onPacket_overlooked (exact : c.onPacket ctx p = ⟨c', log⟩) (sound : c.Sound)
    (known : (Op.packet p).Sound c.key) (stays : Stays (.packet p) c.receiver)
    (other : ¬(p.header.kind = .ack ∨ p.header.kind = .reset)) :
    c'.sender = c.sender ∧ forth (packets log) = [] := by
  have value : c' = (c.onPacket ctx p).value := by rw [exact]
  have log' : log = (c.onPacket ctx p).log := by rw [exact]
  rw [value, log']
  cases kind : p.header.kind with
  | ack | reset => simp [kind] at other
  | data =>
    obtain ⟨same, sent⟩ := onPacket_data kind known sound (stays.place ctx kind)
    refine ⟨same, ?_⟩
    rcases sent with sent | sent | sent
    · rw [sent]
      rfl
    · rw [sent]
      rfl
    · rw [sent]
      rfl
  | ackReset =>
    obtain ⟨same, _, sent, _⟩ := onPacket_ackReset ctx c kind
    exact ⟨same, by rw [sent]; rfl⟩
  | ping =>
    obtain ⟨same, _, sent, _⟩ := onPacket_ping ctx known kind
    exact ⟨same, by rw [sent]; rfl⟩
  | ackPing =>
    obtain ⟨same, _, sent, _⟩ := onPacket_ackPing ctx c kind
    exact ⟨same, by rw [sent]; rfl⟩

/-- Data that goes on with a stream. -/
def Later (p : Packet) : Prop := p.header.kind = .data ∧ p.header.id ≠ .streamStart

/-- Nothing but the start of the sender's stream is in the air. -/
inductive Begins (s : Sender) : List Packet → Prop
  | blank (blank : Blank s) : Begins s []
  | opening {p : Packet} {air : List Packet} (opening : Opening p s) (only : ∀ q ∈ air, q = p) :
    Begins s air

/-- The way to the stream start, with what is in the air about the stream in both directions. A
request to start over counts as lost when it is pending without a trace of it in the air. -/
inductive Handshake (lost : Prop) (s : Sender) (pending : Bool) :
    List Packet → List Packet → Prop
  | starting {air : List Packet} (begins : Begins s air) (asked : pending = true → lost) :
    Handshake lost s pending air []
  | astray {air : List Packet} (running : Running s) (later : ∀ q ∈ air, Later q)
    (asked : pending = true → lost) : Handshake lost s pending air []
  | asked {air : List Packet} {q : Packet} (open' : pending = true) (later : ∀ q ∈ air, Later q)
    (kind : q.header.kind = .reset) (known : s.nextId ≠ .streamStart ∨ lost ∧ air = []) :
    Handshake lost s pending air [q]
  | answered {old air : List Packet} {p : Packet} (open' : pending = true)
    (later : ∀ q ∈ old, Later q) (kind : p.header.kind = .ackReset) (begins : Begins s air) :
    Handshake lost s pending (old ++ p :: air) []

theorem Begins.data (begins : Begins s air) :
    ∀ q ∈ air, q.header.kind = .data ∧ q.header.id = .streamStart := by
  intro q mem
  cases begins with
  | blank => cases mem
  | opening opening only =>
    rw [only q mem]
    exact ⟨opening.kind, opening.id⟩

theorem Begins.of_same (begins : Begins s air) (nextId : s'.nextId = s.nextId)
    (contents : s'.unacked.contents = s.unacked.contents) : Begins s' air := by
  cases begins with
  | blank blank => exact .blank (blank.of_same nextId contents)
  | opening opening only => exact .opening (opening.of_same nextId contents) only

theorem Begins.steady (begins : Begins s air) : Steady s := by
  cases begins with
  | blank blank => exact .blank blank
  | opening opening => exact .opening opening

/-- A sender without a stream says nothing but the start of one. -/
theorem Proceeds.begins (proceeds : Proceeds s sent s') (blank : Blank s)
    (data : ∀ q ∈ sent, q.header.kind = .data) : Begins s' sent := by
  cases proceeds with
  | rest _ blank' silent =>
    have nothing : sent = [] := List.eq_nil_iff_forall_not_mem.mpr fun q mem =>
      silent q mem (data q mem)
    rw [nothing]
    exact .blank blank'
  | start _ opening first only => exact .opening opening fun q mem => only q mem (data q mem)
  | wait opening => exact (blank.not_opening opening).elim
  | run running => exact (blank.not_running running).elim

theorem Proceeds.ne_nil (proceeds : Proceeds s sent s') (blank : Blank s)
    (begun : s'.nextId ≠ .streamStart) : sent ≠ [] := by
  cases proceeds with
  | rest _ blank' => exact absurd blank'.nextId begun
  | start _ opening first => exact List.ne_nil_of_mem first
  | wait opening => exact (blank.not_opening opening).elim
  | run running => exact (blank.not_running running).elim

theorem Proceeds.forth (proceeds : Proceeds s sent s') : Proceeds s (forth sent) s' := by
  have fewer {P : Packet → Prop} (all : ∀ q ∈ sent, P q) : ∀ q ∈ Channel.forth sent, P q :=
    fun q mem => all q (mem_forth.mp mem).1
  cases proceeds with
  | rest blank blank' silent => exact .rest blank blank' (fewer silent)
  | start blank opening first only =>
    exact .start blank opening (mem_forth.mpr ⟨first, .inl opening.kind⟩) (fewer only)
  | wait opening opening' only => exact .wait opening opening' (fewer only)
  | run running running' later => exact .run running running' (fewer later)

namespace Handshake

theorem mono (handshake : Handshake lost s pending air asks) (weaker : lost → lost') :
    Handshake lost' s pending air asks := by
  cases handshake with
  | starting begins asked => exact .starting begins fun pending => weaker (asked pending)
  | astray running later asked => exact .astray running later fun pending => weaker (asked pending)
  | asked open' later kind known =>
    exact .asked open' later kind (known.imp_right fun both => ⟨weaker both.1, both.2⟩)
  | answered open' later kind begins => exact .answered open' later kind begins

theorem of_same (handshake : Handshake lost s pending air asks) (nextId : s'.nextId = s.nextId)
    (contents : s'.unacked.contents = s.unacked.contents) :
    Handshake lost s' pending air asks := by
  cases handshake with
  | starting begins asked => exact .starting (begins.of_same nextId contents) asked
  | astray running later asked =>
    exact .astray (running.of_same nextId (by simp [contents])) later asked
  | asked open' later kind known =>
    rw [← nextId] at known
    exact .asked open' later kind known
  | answered open' later kind begins => exact .answered open' later kind (begins.of_same nextId contents)

/-- With nothing in the air, a stream is still to be started, or the peer does not know it. -/
theorem quiet (handshake : Handshake lost s pending air []) (none : air = []) :
    (Begins s [] ∨ Running s) ∧ (pending = true → lost) := by
  cases handshake with
  | starting begins asked =>
    rw [none] at begins
    exact ⟨.inl begins, asked⟩
  | astray running later asked => exact ⟨.inr running, asked⟩
  | answered => exact (List.append_ne_nil_of_right_ne_nil _ (List.cons_ne_nil _ _) none).elim

/-- What the sender says of its own accord while nothing is in the air. -/
theorem own (handshake : Handshake lost s pending [] []) (proceeds : Proceeds s sent s')
    (data : ∀ q ∈ sent, q.header.kind = .data) : Handshake lost s' pending sent [] := by
  obtain ⟨begins | running, asked⟩ := handshake.quiet rfl
  · refine .starting ?_ asked
    cases begins with
    | blank blank => exact proceeds.begins blank data
    | @opening p _ opening only =>
      cases proceeds with
      | rest blank => exact (blank.not_opening opening).elim
      | start blank => exact (blank.not_opening opening).elim
      | wait opening' opening'' only' =>
        exact .opening opening'' fun q mem => only' q mem (data q mem)
      | run running => exact (opening.not_running running).elim
  · cases proceeds with
    | rest blank => exact (blank.not_running running).elim
    | start blank => exact (blank.not_running running).elim
    | wait opening => exact (opening.not_running running).elim
    | run _ running' later' =>
      exact .astray running' (fun q mem => ⟨data q mem, later' q mem (data q mem)⟩) asked

/-- The receiver repeats its request while nothing is in the air. -/
theorem ask (handshake : Handshake lost s pending [] []) (open' : pending = true)
    (kind : q.header.kind = .reset) : Handshake lost s pending [] [q] :=
  .asked open' nofun kind (.inr ⟨(handshake.quiet rfl).2 open', rfl⟩)

/-- The oldest packet to reach the sender is the only one, and a request to start over. -/
theorem reset (handshake : Handshake lost s pending air (q :: asks)) :
    q.header.kind = .reset ∧ asks = [] ∧ pending = true ∧ (∀ q ∈ air, Later q) ∧
      (s.nextId ≠ .streamStart ∨ lost ∧ air = []) := by
  cases handshake with
  | asked open' later kind known => exact ⟨kind, rfl, open', later, known⟩

theorem answer (handshake : Handshake lost s pending air (q :: asks))
    (proceeds : Proceeds s.startOver sent s') (kind : p.header.kind = .ackReset)
    (data : ∀ q ∈ sent, q.header.kind = .data) :
    Handshake lost s' pending (air ++ p :: sent) asks := by
  obtain ⟨_, rfl, open', later, _⟩ := handshake.reset
  exact .answered open' later kind (proceeds.begins (blank_startOver s) data)

/-- A request to start over reaches nobody. -/
theorem miss (handshake : Handshake lost s pending air (q :: asks)) (blank : Blank s) :
    Handshake lost s pending air asks := by
  obtain ⟨_, rfl, open', later, known⟩ := handshake.reset
  obtain ⟨lost, rfl⟩ := known.resolve_left fun other => other blank.nextId
  exact .starting (.blank blank) fun _ => lost

/-- Data of a stream that the receiver does not know makes it ask, but not twice. -/
theorem hear_later (handshake : Handshake lost s pending (p :: air) asks) (later : Later p)
    (kind : q.header.kind = .reset) :
    Handshake lost s true air (asks ++ if pending then [] else [q]) := by
  generalize all : p :: air = heard at handshake
  cases handshake with
  | starting begins asked =>
    subst all
    exact absurd (begins.data p List.mem_cons_self).2 later.2
  | astray running others asked =>
    subst all
    have others : ∀ q ∈ air, Later q := fun q mem => others q (List.mem_cons_of_mem _ mem)
    cases pending with
    | false => exact .asked rfl others kind (.inl running.nextId)
    | true => exact .astray running others asked
  | @asked _ r open' others kind' known =>
    subst all
    have known := known.resolve_right fun both => List.cons_ne_nil _ _ both.2
    rw [if_pos open', List.append_nil]
    exact .asked rfl (fun q mem => others q (List.mem_cons_of_mem _ mem)) kind' (.inl known)
  | @answered old air' r open' others kind' begins =>
    rw [if_pos open', List.append_nil]
    cases old with
    | nil =>
      obtain ⟨rfl, rfl⟩ := List.cons.inj all
      have data := later.1
      rw [kind'] at data
      cases data
    | cons first old =>
      obtain ⟨rfl, rfl⟩ := List.cons.inj all
      exact .answered rfl (fun q mem => others q (List.mem_cons_of_mem _ mem)) kind' begins

/-- The stream start that a receiver hears is the one that the sender waits for, and nothing else is
in the air but copies of it. -/
theorem hear_start (handshake : Handshake lost s pending (p :: air) asks)
    (kind : p.header.kind = .data) (id : p.header.id = .streamStart) :
    Opening p s ∧ (∀ q ∈ air, q = p) ∧ asks = [] := by
  generalize all : p :: air = heard at handshake
  cases handshake with
  | starting begins asked =>
    cases begins with
    | blank => cases all
    | opening opening only =>
      subst all
      obtain rfl := only p List.mem_cons_self
      exact ⟨opening, fun q mem => only q (List.mem_cons_of_mem _ mem), rfl⟩
  | astray running others asked =>
    subst all
    exact absurd id (others p List.mem_cons_self).2
  | asked open' others kind' known =>
    subst all
    exact absurd id (others p List.mem_cons_self).2
  | @answered old air' r open' others kind' begins =>
    cases old with
    | nil =>
      obtain ⟨rfl, rfl⟩ := List.cons.inj all
      rw [kind'] at kind
      cases kind
    | cons first old =>
      obtain ⟨rfl, rfl⟩ := List.cons.inj all
      exact absurd id (others _ List.mem_cons_self).2

/-- The answer to a request to start over closes it. -/
theorem hear_answer (handshake : Handshake lost s pending (p :: air) asks)
    (kind : p.header.kind = .ackReset) :
    pending = true ∧ Handshake lost s false air asks := by
  generalize all : p :: air = heard at handshake
  have data {P : Prop} (data : p.header.kind = .data) : P := by
    rw [kind] at data
    cases data
  cases handshake with
  | starting begins asked =>
    subst all
    exact data (begins.data p List.mem_cons_self).1
  | astray running others asked =>
    subst all
    exact data (others p List.mem_cons_self).1
  | asked open' others kind' known =>
    subst all
    exact data (others p List.mem_cons_self).1
  | @answered old air' r open' others kind' begins =>
    cases old with
    | nil =>
      obtain ⟨rfl, rfl⟩ := List.cons.inj all
      exact ⟨open', .starting begins nofun⟩
    | cons first old =>
      obtain ⟨rfl, rfl⟩ := List.cons.inj all
      exact data (others _ List.mem_cons_self).1

end Handshake

end ReliableDatagram.Channel
