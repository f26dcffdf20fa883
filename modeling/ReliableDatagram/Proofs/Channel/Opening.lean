import ReliableDatagram.Proofs.Channel.Directions
import ReliableDatagram.Proofs.PacketId

/-!
# The opening of a stream

A sender has sent nothing of its stream, or waits for the acknowledgement of the stream start, or is
past it. As long as it hears nothing, it goes on from there in one direction only.
-/

namespace ReliableDatagram.Channel

open PacketId

variable {ctx : Context} {op : Op} {c c' : Channel} {log : List Effect} {ws : List ParkedWrite}
variable {s s' s'' : Sender} {p : Packet} {sent sent' : List Packet}

/-- Nothing of the stream was sent. -/
structure Blank (s : Sender) : Prop where
  nextId : s.nextId = .streamStart
  unacked : s.unacked.contents = []

/-- This stream start waits for its acknowledgement, and nothing else does. -/
structure Opening (p : Packet) (s : Sender) : Prop where
  nextId : s.nextId ≠ .streamStart
  unacked : s.unacked.contents = [(p.header.id, p.encode)]
  wellFormed : p.WellFormed
  kind : p.header.kind = .data
  id : p.header.id = .streamStart

/-- No stream start waits for its acknowledgement. -/
structure Running (s : Sender) : Prop where
  nextId : s.nextId ≠ .streamStart
  unacked : ∀ x ∈ s.unacked.contents, ∃ p : Packet, p.WellFormed ∧ x = (p.header.id, p.encode) ∧
    p.header.id ≠ .streamStart

inductive Steady (s : Sender) : Prop
  | blank (blank : Blank s)
  | opening {p : Packet} (opening : Opening p s)
  | running (running : Running s)

/-- What a sender makes of its stream without hearing anything, and the packets that it sends. -/
inductive Proceeds (s : Sender) (sent : List Packet) (s' : Sender) : Prop
  | rest (blank : Blank s) (blank' : Blank s') (silent : ∀ q ∈ sent, q.header.kind ≠ .data)
  | start {p : Packet} (blank : Blank s) (opening : Opening p s') (first : p ∈ sent)
      (only : ∀ q ∈ sent, q.header.kind = .data → q = p)
  | wait {p : Packet} (opening : Opening p s) (opening' : Opening p s')
      (only : ∀ q ∈ sent, q.header.kind = .data → q = p)
  | run (running : Running s) (running' : Running s')
      (later : ∀ q ∈ sent, q.header.kind = .data → q.header.id ≠ .streamStart)

theorem blank_startOver (s : Sender) : Blank s.startOver := ⟨rfl, rfl⟩

theorem Blank.not_opening (blank : Blank s) (opening : Opening p s) : False :=
  opening.nextId blank.nextId

theorem Blank.not_running (blank : Blank s) (running : Running s) : False :=
  running.nextId blank.nextId

theorem Opening.not_running (opening : Opening p s) (running : Running s) : False := by
  obtain ⟨q, _, same, other⟩ := running.unacked _ (by
    rw [opening.unacked]
    exact List.mem_cons_self)
  exact other ((Prod.mk.inj same).1.symm.trans opening.id)

theorem Opening.packet_eq {q : Packet} (opening : Opening p s) (opening' : Opening q s) : p = q := by
  have same := opening.unacked.symm.trans opening'.unacked
  have bytes := (Prod.mk.inj (List.singleton_inj.mp same)).2
  exact Packet.encode_inj opening.wellFormed opening'.wellFormed bytes

theorem Proceeds.trans (first : Proceeds s sent s') (second : Proceeds s' sent' s'') :
    Proceeds s (sent ++ sent') s'' := by
  have both {P : Packet → Prop} (old : ∀ q ∈ sent, P q) (new : ∀ q ∈ sent', P q) :
      ∀ q ∈ sent ++ sent', P q := by
    intro q mem
    rcases List.mem_append.mp mem with here | there
    · exact old q here
    · exact new q there
  cases first with
  | rest blank blank' silent =>
    cases second with
    | rest _ blank'' silent' => exact .rest blank blank'' (both silent silent')
    | start _ opening first only =>
      refine .start blank opening (List.mem_append_right _ first) (both ?_ only)
      exact fun q mem data => absurd data (silent q mem)
    | wait opening => exact (blank'.not_opening opening).elim
    | run running => exact (blank'.not_running running).elim
  | start blank opening first only =>
    cases second with
    | rest blank' => exact (blank'.not_opening opening).elim
    | start blank' => exact (blank'.not_opening opening).elim
    | wait opening' opening'' only' =>
      obtain rfl := opening.packet_eq opening'
      exact .start blank opening'' (List.mem_append_left _ first) (both only only')
    | run running => exact (opening.not_running running).elim
  | wait opening opening' only =>
    cases second with
    | rest blank' => exact (blank'.not_opening opening').elim
    | start blank' => exact (blank'.not_opening opening').elim
    | wait opening'' opening''' only' =>
      obtain rfl := opening'.packet_eq opening''
      exact .wait opening opening''' (both only only')
    | run running => exact (opening'.not_running running).elim
  | run running running' later =>
    cases second with
    | rest blank' => exact (blank'.not_running running').elim
    | start blank' => exact (blank'.not_running running').elim
    | wait opening => exact (opening.not_running running').elim
    | run _ running'' later' => exact .run running running'' (both later later')

theorem Proceeds.steady (proceeds : Proceeds s sent s') : Steady s' := by
  cases proceeds with
  | rest _ blank => exact .blank blank
  | start _ opening => exact .opening opening
  | wait _ opening => exact .opening opening
  | run _ running => exact .running running

theorem Blank.of_same (blank : Blank s) (nextId : s'.nextId = s.nextId)
    (contents : s'.unacked.contents = s.unacked.contents) : Blank s' :=
  ⟨nextId.trans blank.nextId, contents.trans blank.unacked⟩

theorem Opening.of_same (opening : Opening p s) (nextId : s'.nextId = s.nextId)
    (contents : s'.unacked.contents = s.unacked.contents) : Opening p s' :=
  ⟨fun start => opening.nextId (nextId.symm.trans start), contents.trans opening.unacked,
    opening.wellFormed, opening.kind, opening.id⟩

theorem Running.of_same (running : Running s) (nextId : s'.nextId = s.nextId)
    (contents : ∀ x ∈ s'.unacked.contents, x ∈ s.unacked.contents) : Running s' :=
  ⟨fun start => running.nextId (nextId.symm.trans start), fun x held =>
    running.unacked x (contents x held)⟩

/-- What stays as it is or is sent again changes nothing about the stream. -/
theorem Steady.proceeds (steady : Steady s) (nextId : s'.nextId = s.nextId)
    (contents : s'.unacked.contents = s.unacked.contents)
    (wellFormed : ∀ q ∈ sent, q.WellFormed)
    (again : ∀ q ∈ sent, q.header.kind = .data → ∃ id, (id, q.encode) ∈ s.unacked.contents) :
    Proceeds s sent s' := by
  cases steady with
  | blank blank =>
    refine .rest blank (blank.of_same nextId contents) fun q mem data => ?_
    obtain ⟨id, held⟩ := again q mem data
    rw [blank.unacked] at held
    cases held
  | opening opening =>
    refine .wait opening (opening.of_same nextId contents) fun q mem data => ?_
    obtain ⟨id, held⟩ := again q mem data
    rw [opening.unacked] at held
    exact Packet.encode_inj (wellFormed q mem) opening.wellFormed
      (Prod.mk.inj (List.mem_singleton.mp held)).2
  | running running =>
    refine .run running (running.of_same nextId (by simp [contents])) fun q mem data => ?_
    obtain ⟨id, held⟩ := again q mem data
    obtain ⟨x, xWellFormed, same, other⟩ := running.unacked _ held
    have same := Packet.encode_inj (wellFormed q mem) xWellFormed (Prod.mk.inj same).2
    rw [same]
    exact other

theorem Steady.of_same (steady : Steady s) (nextId : s'.nextId = s.nextId)
    (contents : s'.unacked.contents = s.unacked.contents) : Steady s' := by
  cases steady with
  | blank blank => exact .blank (blank.of_same nextId contents)
  | opening opening => exact .opening (opening.of_same nextId contents)
  | running running => exact .running (running.of_same nextId (by simp [contents]))

theorem wellFormed_of_mem_packets {q : Packet} (mem : q ∈ packets log) : q.WellFormed := by
  obtain ⟨e, _, seen⟩ := List.mem_filterMap.mp mem
  exact Effect.wellFormed_of_packet? seen

/-- One move on the occasion of an operation that brings no packet. -/
theorem Outward.proceeds (outward : Outward ctx op c log c' ws) (own : ∀ q, op ≠ .packet q)
    (steady : Steady c.sender) : Proceeds c.sender (packets log) c'.sender := by
  cases outward with
  | rest nextId contents _ _ again =>
    exact steady.proceeds nextId contents (fun _ => wellFormed_of_mem_packets) again
  | park nextId contents _ silent =>
    subst silent
    exact steady.proceeds nextId contents nofun nofun
  | settle asked => exact absurd asked (own _)
  | startOver asked => exact absurd asked (own _)
  | @send w p first room packet wellFormed nextId contents sent new =>
    have id : p.header.id = c.sender.nextId := by rw [packet]; rfl
    have kind : p.header.kind = .data := by rw [packet]; rfl
    have later : c'.sender.nextId ≠ .streamStart := by
      rw [nextId]
      exact next_ne_streamStart _
    rw [sent]
    cases steady with
    | blank blank =>
      refine .start blank ⟨later, ?_, wellFormed, kind, id.trans blank.nextId⟩ List.mem_cons_self
        fun q mem _ => List.mem_singleton.mp mem
      rw [contents, blank.unacked, id]
      rfl
    | @opening q opening =>
      have waits : c.sender.unacked.contains .streamStart = true := by
        refine SendQueue.contains_iff.mpr ⟨q.encode, ?_⟩
        rw [opening.unacked, opening.id]
        exact List.mem_cons_self
      simp [Sender.canSend, waits] at room
    | running running =>
      refine .run running ⟨later, fun x held => ?_⟩ fun q mem _ => ?_
      · rw [contents] at held
        rcases List.mem_append.mp held with old | latest
        · exact running.unacked x old
        · rcases List.mem_singleton.mp latest with rfl
          exact ⟨p, wellFormed, by rw [id], by rw [id]; exact running.nextId⟩
      · rcases List.mem_singleton.mp mem with rfl
        rw [id]
        exact running.nextId

theorem Moves.proceeds (moves : Moves ctx op c log ws c') (own : ∀ q, op ≠ .packet q)
    (sound : c.Sound) (known : op.Sound c.key) (steady : Steady c.sender) :
    Proceeds c.sender (packets log) c'.sender := by
  induction moves with
  | none => exact steady.proceeds rfl rfl nofun nofun
  | snoc before last ih =>
    have key := before.key
    have outward := last.outward (before.sound sound known) (by rwa [key])
    rw [packets_append]
    exact ih.trans (outward.proceeds own ih.steady)

/-- A sender is always in one of the three states. -/
theorem Outward.steady (outward : Outward ctx op c log c' ws) (steady : Steady c.sender) :
    Steady c'.sender := by
  cases outward with
  | rest nextId contents _ _ again =>
    exact (steady.proceeds nextId contents (fun _ => wellFormed_of_mem_packets) again).steady
  | park nextId contents => exact steady.of_same nextId contents
  | @settle x asked kind nextId contents =>
    cases steady with
    | blank blank =>
      refine .blank ⟨nextId.trans blank.nextId, ?_⟩
      rw [contents, blank.unacked]
      rfl
    | @opening q opening =>
      have later : c'.sender.nextId ≠ .streamStart := by
        rw [nextId]
        exact opening.nextId
      rw [opening.unacked] at contents
      by_cases answers : q.header.id = x.header.id
      · rw [List.eraseP_cons_of_pos (by simpa using answers)] at contents
        exact .running ⟨later, by simp [contents]⟩
      · rw [List.eraseP_cons_of_neg (by simpa using answers)] at contents
        exact .opening ⟨later, contents, opening.wellFormed, opening.kind, opening.id⟩
    | running running =>
      refine .running (running.of_same nextId fun x held => ?_)
      rw [contents] at held
      exact List.mem_of_mem_eraseP held
  | startOver _ _ nextId contents => exact .blank ⟨nextId, contents⟩
  | send first room packet wellFormed nextId contents sent new =>
    have outward : Outward ctx .ping c log c' [] :=
      .send first room packet wellFormed nextId contents sent new
    exact (outward.proceeds nofun steady).steady

/-- A receiver with a stream asks for nothing. -/
def Idle (r : Receiver) : Prop := r.expected ≠ .streamStart → r.pendingReset.isSome = false

theorem Inward.idle (inward : Inward ctx op c log c') (idle : Idle c.receiver) :
    Idle c'.receiver := by
  intro started
  cases inward with
  | rest expected startedAt early pending =>
    rw [expected] at started
    exact pending.trans (idle started)
  | @accept x asked kind place receiver =>
    have begun : c.receiver.expected ≠ .streamStart := by
      intro waiting
      rw [placeOf] at place
      by_cases id : x.header.id = .streamStart
      · rw [id, Receiver.place_streamStart, if_pos waiting] at place
        cases place
      · rw [Receiver.place_of_ne id, if_pos waiting] at place
        cases place
    rw [receiver]
    exact idle begun
  | acceptStart asked kind place receiver =>
    rw [receiver]
    rfl
  | restart asked kind place receiver =>
    rw [receiver]
    rfl
  | confirm asked kind place receiver =>
    rw [receiver] at started ⊢
    exact idle started
  | keep asked kind place receiver =>
    rw [receiver] at started ⊢
    exact idle started
  | requestReset asked kind place expected =>
    rw [expected] at started
    exact absurd (Receiver.place_eq_unplaced place).2 started
  | resetAnswered asked kind pending receiver =>
    rw [receiver]
    rfl

theorem Moves.idle (moves : Moves ctx op c log ws c') (sound : c.Sound) (known : op.Sound c.key)
    (idle : Idle c.receiver) : Idle c'.receiver := by
  induction moves with
  | none => exact idle
  | snoc before last ih =>
    have key := before.key
    exact (last.inward (before.sound sound known) (by rwa [key])).idle ih

theorem Moves.steady (moves : Moves ctx op c log ws c') (sound : c.Sound) (known : op.Sound c.key)
    (steady : Steady c.sender) : Steady c'.sender := by
  induction moves with
  | none => exact steady
  | snoc before last ih =>
    have key := before.key
    exact (last.outward (before.sound sound known) (by rwa [key])).steady ih

end ReliableDatagram.Channel
