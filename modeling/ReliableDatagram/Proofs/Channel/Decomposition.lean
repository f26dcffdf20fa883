import ReliableDatagram.Proofs.Channel.Frame
import ReliableDatagram.Proofs.Channel.Placement
import ReliableDatagram.Proofs.Effect

/-!
# Operations as chains of moves

Each function of a channel is taken apart once. The main statements are `moves_onPacket`,
`moves_write`, `moves_ping` and `moves_tick`, together `apply_cases`.
-/

namespace ReliableDatagram.Channel

variable {ctx : Context}

theorem moves_transmit {c : Channel} {op : Op} {q : Packet} (speech : Says c ctx op q) :
    Moves ctx op c (c.transmit ctx q).log [] (c.transmit ctx q).value :=
  .one (.say speech)

theorem moves_checkConnected (c : Channel) (op : Op) :
    Moves ctx op c c.checkConnected.log [] c.checkConnected.value := by
  unfold checkConnected
  split
  · next ready => exact .one (.connect ready)
  · exact .none

theorem moves_ping (ctx : Context) (c : Channel) (op : Op) (own : op = .ping ∨ op = .tick) :
    Moves ctx op c (c.ping ctx).log [] (c.ping ctx).value :=
  (moves_transmit (.ping own)).bind (m := id) (r := id) (moves_checkConnected _ op)

@[simp] theorem withParked_parked (c : Channel) : c.withParked c.sender.parked = c := rfl

/-- Sending reads nothing of the parked writes. -/
theorem sendWrite_withParked (c : Channel) (w : ParkedWrite) (parked : List ParkedWrite) :
    (c.withParked parked).sendWrite ctx w =
      ⟨(c.sendWrite ctx w).value.withParked parked, (c.sendWrite ctx w).log⟩ := rfl

theorem release_withParked (ws parked : List ParkedWrite) (c : Channel) :
    release ctx ws (c.withParked parked) = release ctx ws c := by
  induction ws generalizing c with
  | nil => rfl
  | cons w ws ih =>
    have room : (c.withParked parked).sender.canSend = c.sender.canSend := rfl
    simp only [release, room, sendWrite_withParked]
    split
    · show Logged.mk (release ctx ws ((c.sendWrite ctx w).value.withParked parked)).value
          ((c.sendWrite ctx w).log ++
            (release ctx ws ((c.sendWrite ctx w).value.withParked parked)).log) = _
      rw [ih]
      rfl
    · rfl

theorem moves_release (op : Op) (ws : List ParkedWrite) (c : Channel)
    (parked : c.sender.parked = ws) :
    Moves ctx op c (release ctx ws c).log [] (release ctx ws c).value := by
  induction ws generalizing c with
  | nil =>
    have same : c.withParked [] = c := by rw [← parked, withParked_parked]
    show Moves ctx op c [] [] (c.withParked [])
    rw [same]
    exact .none
  | cons w ws ih =>
    simp only [release]
    split
    · next room =>
      have first : Moves ctx op c _ [] _ := .one (.send parked room)
      have rest := ih ((c.withParked ws).sendWrite ctx w).value rfl
      rw [sendWrite_withParked] at rest first
      rw [release_withParked] at rest
      exact first.trans rest
    · have same : c.withParked (w :: ws) = c := by rw [← parked, withParked_parked]
      show Moves ctx op c [] [] (c.withParked (w :: ws))
      rw [same]
      exact .none

theorem moves_flush (c : Channel) (op : Op) :
    Moves ctx op c (c.flush ctx).log [] (c.flush ctx).value :=
  moves_release op c.sender.parked c rfl

/-- Sending leaves the receive direction alone. -/
theorem release_receiver (ws : List ParkedWrite) (c : Channel) :
    (release ctx ws c).value.receiver = c.receiver := by
  induction ws generalizing c with
  | nil => rfl
  | cons w ws ih =>
    simp only [release]
    split
    · exact ih _
    · rfl

theorem flush_receiver (c : Channel) : (c.flush ctx).value.receiver = c.receiver :=
  release_receiver _ c

/-- A channel that starts over goes on to accept the packet as the first of its new stream. -/
theorem moves_restart {c : Channel} {p : Packet} (kind : p.header.kind = .data)
    (place : c.placeOf ctx p = .restart) :
    Moves ctx (.packet p) c (c.startOver ctx >>= (·.acceptStart ctx p)).log []
      (c.startOver ctx >>= (·.acceptStart ctx p)).value := by
  have id := (Receiver.place_eq_restart place).1
  have started : ((c.startOver ctx).value.placeOf ctx p) = .start := by
    have fresh : (c.startOver ctx).value.receiver = {} := flush_receiver _
    simp only [placeOf, fresh, Receiver.place, id, if_true]
  exact ((Moves.one (.restart kind place)).trans (moves_flush _ _)).trans
    (.one (.acceptStart kind started))

theorem moves_onData {c : Channel} {p : Packet} (kind : p.header.kind = .data) :
    Moves ctx (.packet p) c (c.onData ctx p).log [] (c.onData ctx p).value := by
  unfold onData
  split
  · next place => exact .one (.acceptStart kind place)
  · next place => exact moves_restart kind place
  · next place =>
    cases idle : c.receiver.pendingReset with
    | none => exact .one (.requestReset kind place idle)
    | some r =>
      rw [requestReset_pending idle]
      exact .none
  · next place => exact .one (.accept kind place)
  · next place => exact .one (.keep kind place)
  · next place => exact .one (.confirm kind (.inl place))
  · next place => exact .one (.confirm kind (.inr (.inl place)))
  · next place => exact .one (.confirm kind (.inr (.inr place)))
  · next place => exact .one (.drop kind (.inl place))
  · next place => exact .one (.drop kind (.inr place))

theorem moves_onAck {c : Channel} {p : Packet} (kind : p.header.kind = .ack) :
    Moves ctx (.packet p) c (c.onAck ctx p.header).log [] (c.onAck ctx p.header).value := by
  unfold onAck
  dsimp only
  split
  · next lost => exact .one (.strayAck kind lost)
  · next entry unacked found =>
    exact (Moves.one (.settle kind found rfl)).trans (moves_flush _ _)

theorem moves_onReset {c : Channel} {p : Packet} (kind : p.header.kind = .reset) :
    Moves ctx (.packet p) c (c.onReset ctx p).log [] (c.onReset ctx p).value :=
  (moves_transmit (.ackReset kind)).bind (m := id) (r := id)
    ((Moves.one (.startOver kind)).trans (moves_flush _ _))

theorem moves_onAckReset {c : Channel} {p : Packet} (kind : p.header.kind = .ackReset) :
    Moves ctx (.packet p) c c.onAckReset.log [] c.onAckReset.value := by
  unfold onAckReset
  split
  · next pending => exact .one (.resetAnswered kind pending)
  · exact .none

theorem moves_dispatch (c : Channel) (p : Packet) :
    Moves ctx (.packet p) c (c.dispatch ctx p).log [] (c.dispatch ctx p).value := by
  unfold dispatch
  split
  · next kind => exact moves_onData kind
  · next kind => exact moves_onAck kind
  · next kind => exact moves_onReset kind
  · next kind => exact moves_onAckReset kind
  · next kind => exact moves_transmit (.ackPing kind)
  · next kind => exact .one (.measure kind)

theorem moves_onPacket (ctx : Context) (c : Channel) (p : Packet) :
    Moves ctx (.packet p) c (c.onPacket ctx p).log [] (c.onPacket ctx p).value :=
  (Moves.one .hear).trans
    ((moves_dispatch _ p).bind (m := id) (r := id) (moves_checkConnected _ _))

theorem checkConnected_refuses_nothing (c : Channel) (ticket : Nat) :
    c.checkConnected.log.any (Effect.refuses ticket) = false := by
  unfold checkConnected
  split <;> rfl

/-- A write that is not turned away is taken in, whether it is sent at once or parked. -/
theorem moves_sendOrPark (ctx : Context) (c : Channel) (w : ParkedWrite) :
    Moves ctx (.write w) c (c.sendOrPark ctx w).log
      (if (c.sendOrPark ctx w).log.any (Effect.refuses w.ticket) then [] else [w])
      (c.sendOrPark ctx w).value := by
  unfold sendOrPark
  split
  · next room =>
    obtain ⟨noneParked, room⟩ := Bool.and_eq_true_iff.mp room
    have noneParked : c.sender.parked = [] := List.isEmpty_iff.mp noneParked
    have parked : Moves ctx (.write w) c [] [w] (c.withParked [w]) := by
      have first : Moves ctx (.write w) c [] [w] (c.withParked (c.sender.parked ++ [w])) :=
        .one (.park (.inl ⟨noneParked, room⟩))
      rwa [noneParked] at first
    have last : Move ctx (.write w) (c.withParked [w]) _ [] _ := .send rfl room
    have sent := parked.snoc last
    have same : (c.withParked [w]).withParked [] = c := by
      show c.withParked [] = c
      rw [← noneParked, withParked_parked]
    rw [same] at sent
    exact sent
  · split
    · next room => exact .one (.park (.inr room))
    · have refused : Effect.refuses w.ticket (.reply w.ticket (.error (.queueFull c.key))) = true :=
        by simp [Effect.refuses]
      simp only [List.any_cons, refused, Bool.true_or, if_true]
      exact .one .refuse

theorem moves_write (ctx : Context) (c : Channel) (w : ParkedWrite) :
    Moves ctx (.write w) c (c.write ctx w).log
      (if (c.write ctx w).log.any (Effect.refuses w.ticket) then [] else [w])
      (c.write ctx w).value := by
  unfold write
  split
  · have refused : Effect.refuses w.ticket (.reply w.ticket (.error (.connectionClosed c.key))) =
        true := by simp [Effect.refuses]
    simp only [List.any_cons, refused, Bool.true_or, if_true]
    exact .one .refuse
  · have parts := (moves_sendOrPark ctx c w).trans
      (moves_checkConnected (c.sendOrPark ctx w).value (.write w))
    simpa [List.any_append, checkConnected_refuses_nothing] using parts

theorem moves_closeWindow (c : Channel) :
    Moves ctx .tick c (c.closeWindow ctx).log [] (c.closeWindow ctx).value := by
  unfold closeWindow
  split
  · exact .none
  · next meter complete =>
    have rolled := Moves.one (Move.roll (c := c) complete)
    dsimp only
    split
    · exact (rolled.snoc .tune).trans (moves_flush _ _)
    · exact rolled

theorem moves_keepAlive (c : Channel) :
    Moves ctx .tick c (c.keepAlive ctx).log [] (c.keepAlive ctx).value := by
  unfold keepAlive
  split
  · exact moves_ping ctx c .tick (.inr rfl)
  · exact .none

theorem moves_tick (ctx : Context) (c : Channel) :
    Moves ctx .tick c (c.tick ctx).log [] (c.tick ctx).value.1 := by
  unfold tick
  split
  · exact .none
  · refine (Moves.one .resendData).bind (m := Prod.fst) ?_
    have timeout : (c.resendData ctx (ctx.now + c.retransmitTimeout ctx.config)).value.1.retransmitTimeout
        ctx.config = c.retransmitTimeout ctx.config := by
      simp only [retransmitTimeout, resendData_rtt]
    generalize (c.resendData ctx (ctx.now + c.retransmitTimeout ctx.config)).value = resent at timeout ⊢
    obtain ⟨d, exhausted⟩ := resent
    dsimp only at timeout ⊢
    split
    · exact .none
    · rw [← timeout]
      refine (Moves.one .resendReset).bind (m := Prod.fst) ?_
      generalize (d.resendReset ctx (ctx.now + d.retransmitTimeout ctx.config)).value = asked
      obtain ⟨f, exhausted⟩ := asked
      dsimp only
      split
      · exact .none
      · exact (moves_keepAlive f).bind (m := id) (r := Prod.fst)
          ((moves_closeWindow _).bind (m := id) (r := Prod.fst) .none)

theorem apply_cases (ctx : Context) (op : Op) (c : Channel) :
    (∃ ws, Moves ctx op c (c.apply ctx op).log ws (c.apply ctx op).value) ∨
      ∃ reason, op = .destroy reason := by
  cases op with
  | packet p => exact .inl ⟨_, moves_onPacket ctx c p⟩
  | write w => exact .inl ⟨_, moves_write ctx c w⟩
  | ping => exact .inl ⟨_, moves_ping ctx c .ping (.inl rfl)⟩
  | tick => exact .inl ⟨_, moves_tick ctx c⟩
  | destroy reason => exact .inr ⟨reason, rfl⟩

end ReliableDatagram.Channel
