import ReliableDatagram.Proofs.Channel.Chronicle
import ReliableDatagram.Proofs.Channel.Samples
import ReliableDatagram.Proofs.Link.Episode
import ReliableDatagram.Proofs.Link.History

/-!
# Where packets come from

All that is in the air on a number was sent by one of the two channels, and an acknowledgement or the
answer to a ping answers a packet that the other end has sent.
-/

namespace ReliableDatagram.Link

open Channel

variable {l : Link} {e x : End} {n : UInt8} {op : Op}

/-- The packets that the end `e` sends in an operation, for the first time or again, with the time. -/
def sends (l : Link) (e : End) (n : UInt8) (op : Op) : List (Nat × Packet) :=
  timed l.now (packets (said e n (l.apply op).log))

/-- All packets that the end `e` sends in a run, with the times. -/
def transmissions (e : End) (n : UInt8) : List Op → Link → List (Nat × Packet)
  | [], _ => []
  | op :: ops, l => l.sends e n op ++ transmissions e n ops (l.apply op).value

theorem sends_eq_nil (silent : said e n (l.apply op).log = []) : l.sends e n op = [] := by
  rw [sends, silent]
  rfl

variable {clock : End → Clock} {start now : Nat} {v w : Conversation} {ctx : Context}
variable {sent : End → List (Nat × Packet)} {asked : Channel.Op} {c : Channel} {new : List Packet}

/-- All that is in the air was sent, answers answer what the other end has sent, and pings were
stamped when they were sent. -/
structure Sourced (start now : Nat) (clock : End → Clock) (v : Conversation)
    (sent : End → List (Nat × Packet)) : Prop where
  times : ∀ e, ∀ x ∈ sent e, start ≤ x.1 ∧ x.1 ≤ now
  pings : ∀ e, ∀ x ∈ sent e, x.2.header.kind = .ping →
    x.2.header.timestamp = (clock e).timestamp x.1
  air : ∀ e, ∀ p ∈ v.air e, ∃ x ∈ sent e, x.2 = p
  answers : ∀ e, ∀ p ∈ v.air e.other, p.header.kind = .ack ∨ p.header.kind = .ackPing →
    ∃ x ∈ sent e, p.Answers x.2

namespace Sourced

theorem within (sourced : Sourced start now clock w sent) (within : v.Within w) {now' : Nat}
    (order : now ≤ now') : Sourced start now' clock v sent := by
  refine ⟨fun e x mem => ?_, sourced.pings, fun e p mem => sourced.air e p ((within.air e).subset mem),
    fun e p mem => sourced.answers e p ((within.air _).subset mem)⟩
  obtain ⟨after, before⟩ := sourced.times e x mem
  exact ⟨after, Nat.le_trans before order⟩

/-- An end sends something on the occasion of an operation of its channel. -/
theorem turn (sourced : Sourced start now clock v sent) (order : start ≤ now)
    (genuine : ∀ q ∈ new, Genuine ctx asked q)
    (heard : ∀ p, asked = .packet p → p ∈ v.air x.other)
    (time : ctx.timestamp = (clock x).timestamp now) (c? : Option Channel) :
    Sourced start now clock (v.turn x c? new)
      fun e => sent e ++ timed now (if e = x then new else []) := by
  refine ⟨fun e y mem => ?_, fun e y mem kind => ?_, fun e p mem => ?_, fun e p mem kind => ?_⟩
  · rcases List.mem_append.mp mem with old | latest
    · exact sourced.times e y old
    · rw [(mem_timed latest).1]
      exact ⟨order, Nat.le_refl now⟩
  · rcases List.mem_append.mp mem with old | latest
    · exact sourced.pings e y old kind
    · obtain ⟨moment, spoken⟩ := mem_timed latest
      split at spoken
      · next own => rw [(genuine _ spoken).stamp kind, moment, own, time]
      · cases spoken
  · by_cases own : e = x
    · subst own
      rw [Conversation.turn_air_self] at mem
      rcases List.mem_append.mp mem with old | latest
      · obtain ⟨y, mem, same⟩ := sourced.air e p old
        exact ⟨y, List.mem_append_left _ mem, same⟩
      · refine ⟨(now, p), List.mem_append_right _ ?_, rfl⟩
        rw [if_pos rfl]
        exact List.mem_map_of_mem latest
    · obtain rfl := End.eq_other own
      rw [Conversation.turn_air_other] at mem
      obtain ⟨y, mem, same⟩ := sourced.air _ p mem
      exact ⟨y, List.mem_append_left _ mem, same⟩
  · have answered : ∃ y ∈ sent e, p.Answers y.2 := by
      by_cases own : e = x
      · subst own
        rw [Conversation.turn_air_other] at mem
        exact sourced.answers e p mem kind
      · obtain rfl := End.eq_other own
        rw [End.other_other, Conversation.turn_air_self] at mem
        rcases List.mem_append.mp mem with old | latest
        · exact sourced.answers _ p (by rwa [End.other_other]) kind
        · obtain ⟨q, asked, answers⟩ := (genuine p latest).answers kind
          obtain ⟨y, mem, rfl⟩ := sourced.air _ q (heard q asked)
          exact ⟨y, mem, answers⟩
    obtain ⟨y, mem, answers⟩ := answered
    exact ⟨y, List.mem_append_left _ mem, answers⟩

end Sourced

theorem Sourced.apply (sourced : Sourced start l.now l.clock (l.conversation n) sent)
    (sound : l.Sound) (known : op.Sound) (regular : op.isRestart = false)
    (keeps : ∀ e, (l.channel? e n).isSome → ((l.apply op).value.channel? e n).isSome)
    (order : start ≤ l.now) :
    Sourced start (l.apply op).value.now (l.apply op).value.clock
      ((l.apply op).value.conversation n)
      fun e => sent e ++ l.sends e n op := by
  have passes := now_apply_le l op
  have clocks : (l.apply op).value.clock = l.clock := funext fun e => clock_apply regular e
  rw [clocks]
  cases episode sound known n with
  | still view silent =>
    have same : (fun e => sent e ++ l.sends e n op) = sent := by
      funext e
      rw [sends_eq_nil (silent e), List.append_nil]
    rw [same]
    exact sourced.within view passes
  | @act x asked c c' log ws offered heard own knownOp _ moves view speech =>
    have key := offered.key_eq
    have known' : asked.Sound c.key := by rwa [key]
    have same : (fun e => sent e ++ l.sends e n op) =
        fun e => sent e ++ timed l.now (if e = x then packets log else []) := by
      funext e
      have all : packets (voice n log) = packets log :=
        packets_voice (moves.speaks own known') (by rw [key]; rfl)
      rw [sends, speech]
      split
      · rw [all]
      · rfl
    rw [same]
    exact (sourced.turn order (moves.genuine own known') heard rfl _).within view passes
  | @leave x c c' log reason found _ _ view =>
    exact (not_kept view (keeps x (by rw [found]; rfl))).elim
  | forget restart =>
    rw [restart] at regular
    cases regular

end ReliableDatagram.Link
