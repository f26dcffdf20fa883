import ReliableDatagram.Proofs.Channel.Sound

/-!
# Parked writes and their answers

A channel answers writes that it was asked for now or that it parked before, and a parked write
waits until it is answered.
-/

namespace ReliableDatagram.Channel

variable {ctx : Context} {op : Op} {c c' : Channel} {log : List Effect} {ws : List ParkedWrite}
  {ticket : Nat} {result : Except TransportError Nat}

theorem not_reply_mem_accept (c : Channel) (p : Packet) :
    .reply ticket result ∉ (c.accept ctx p).log := by
  intro mem
  rcases mem_accept_log c p mem with same | same | ⟨_, same⟩ <;> cases same

theorem not_reply_mem_onAckPing (c : Channel) (header : Packet.Header) :
    .reply ticket result ∉ (c.onAckPing ctx header).log := by
  intro mem
  obtain ⟨_, same⟩ := mem_onAckPing_log mem
  cases same

/-- Only the first parked write and the present one are answered. -/
theorem Move.replies (move : Move ctx op c log ws c') (mem : .reply ticket result ∈ log) :
    ∃ w ∈ c.sender.parked ++ op.writes, w.ticket = ticket := by
  cases move with
  | @refuse w =>
    cases List.mem_singleton.mp mem
    exact ⟨w, List.mem_append_right _ List.mem_cons_self, rfl⟩
  | @send _ _ w rest first =>
    simp only [log_sendWrite, List.mem_cons, List.not_mem_nil, or_false, reduceCtorEq,
      false_or] at mem
    cases mem
    exact ⟨w, List.mem_append_left _ (first ▸ List.mem_cons_self), rfl⟩
  | accept => exact absurd mem (not_reply_mem_accept c _)
  | acceptStart => exact absurd mem (not_reply_mem_accept _ _)
  | measure => exact absurd mem (not_reply_mem_onAckPing c _)
  | requestReset _ _ idle =>
    rw [requestReset_idle idle] at mem
    simp at mem
  | resendData =>
    obtain ⟨_, _, same⟩ := mem_resendData_log _ _ mem
    cases same
  | resendReset =>
    obtain ⟨_, _, same⟩ := mem_resendReset_log _ _ _ mem
    cases same
  | connect | startOver | restart | resetAnswered | say | confirm | keep =>
    cases List.mem_singleton.mp mem
  | _ => cases mem

/-- A parked write waits until it is answered. -/
theorem Move.waits (move : Move ctx op c log ws c') {w : ParkedWrite}
    (waits : w ∈ c.sender.parked) :
    w ∈ c'.sender.parked ∨ .reply w.ticket (.ok w.payload.length) ∈ log := by
  cases move with
  | park => exact .inl (List.mem_append_left _ waits)
  | send first =>
    rw [first] at waits
    rcases List.mem_cons.mp waits with rfl | later
    · exact .inr (List.mem_cons_of_mem _ List.mem_cons_self)
    · exact .inl later
  | accept => exact .inl (by rwa [accept_sender])
  | acceptStart => exact .inl (by rwa [acceptStart_sender])
  | requestReset _ _ idle => exact .inl (by rwa [requestReset_idle idle])
  | resendData => exact .inl (by rwa [resendData_parked])
  | resendReset => exact .inl (by rwa [resendReset_sender])
  | tune => exact .inl (by rwa [tune_parked])
  | _ => exact .inl waits

namespace Moves

theorem parked (moves : Moves ctx op c log ws c') :
    ∀ w ∈ c'.sender.parked, w ∈ c.sender.parked ++ op.writes := by
  induction moves with
  | none => exact fun w waits => List.mem_append_left _ waits
  | snoc _ last ih =>
    intro w waits
    rcases List.mem_append.mp (last.parked w waits) with earlier | asked
    · exact ih w earlier
    · exact List.mem_append_right _ asked

theorem replies (moves : Moves ctx op c log ws c') (mem : .reply ticket result ∈ log) :
    ∃ w ∈ c.sender.parked ++ op.writes, w.ticket = ticket := by
  induction moves with
  | none => cases mem
  | snoc before last ih =>
    rcases List.mem_append.mp mem with early | late
    · exact ih early
    · obtain ⟨w, known, same⟩ := last.replies late
      rcases List.mem_append.mp known with waited | asked
      · exact ⟨w, before.parked w waited, same⟩
      · exact ⟨w, List.mem_append_right _ asked, same⟩

theorem waits (moves : Moves ctx op c log ws c') {w : ParkedWrite}
    (waits : w ∈ c.sender.parked) :
    w ∈ c'.sender.parked ∨ .reply w.ticket (.ok w.payload.length) ∈ log := by
  induction moves with
  | none => exact .inl waits
  | snoc _ last ih =>
    rcases ih with still | answered
    · rcases last.waits still with still | answered
      · exact .inl still
      · exact .inr (List.mem_append_right _ answered)
    · exact .inr (List.mem_append_left _ answered)

end Moves

theorem ticket_of_mem_destroy {reason : DisconnectReason}
    (mem : .reply ticket result ∈ (c.destroy reason).log) :
    ∃ w ∈ c.sender.parked, w.ticket = ticket := by
  rcases mem_destroy_log mem with ⟨w, waits, same⟩ | same
  · cases same
    exact ⟨w, waits, rfl⟩
  · cases same

end ReliableDatagram.Channel
