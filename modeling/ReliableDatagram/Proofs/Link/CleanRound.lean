import ReliableDatagram.Proofs.Link.Energy
import ReliableDatagram.Proofs.Link.Repair

/-!
# One clean round repairs everything

However lossy a run of two fresh tables was: after both ends have ticked once with everything due,
the delivery of all datagrams in order completes both directions of every conversation that lives
on. The ticks begin the repair of both directions, every delivery goes on with it, and when nothing
flies any more nothing is left to repair.
-/

namespace ReliableDatagram.Link

open Channel PacketId

variable {n : UInt8} {l : Link} {e x : End} {op : Op} {clock : End → Clock} {start now : Nat}
variable {v : Conversation} {a : End → Account}

/-- Time passes, and both ends tick once, first the end `x` and then, perhaps later, the other. -/
def cleanRound (x : End) (duration wait : Nat) : List Op :=
  [.pass duration, .tick x, .pass wait, .tick x.other]

/-- After the run no write waits for anything on this channel number, and either end has delivered
just what the other end accepted. -/
structure Repaired (n : UInt8) (ops : List Op) (l : Link) : Prop where
  drained : ∀ e c, (run ops l).value.channel? e n = some c →
    c.sender.unacked.entries = [] ∧ c.sender.parked = [] ∧ c.receiver.early.payloads = []
  /-- Every write that was parked at any point of the run is answered in the rest of it. -/
  answered : ∀ before after, ops = before ++ after → ∀ e c w,
    (run before l).value.channel? e n = some c → w ∈ c.sender.parked →
    (e, .reply w.ticket (.ok w.payload.length)) ∈ (run after (run before l).value).log
  delivered : ∀ e, delivered e.other n (run ops l).log = accepted e n ops l

theorem Flows.short (flows : Flows n clock start now v a)
    (few : ∀ e, (a e).accepted.length ≤ horizon) (e : End) :
    ∃ st d, Flow n (clock e) start now v e st d ∧ st.length ≤ horizon ∧
      (a e).accepted = contentsOf st ++ parkedBytes (v.sender e) ∧
      (a e.other).delivered = contentsOf (st.take d) := by
  obtain ⟨st, d, flow, accepted, delivered, _⟩ := flows e
  refine ⟨st, d, flow, ?_, accepted, delivered⟩
  have few := few e
  rw [accepted] at few
  simp only [List.length_append, contentsOf, List.length_map] at few
  omega

section Deliver

theorem repairing_deliver (sound : l.Sound) (flows : Flows n clock start now (l.conversation n) a)
    (few : ∀ e, (a e).accepted.length ≤ horizon)
    (repairing : ∀ e, Repairing (l.conversation n) e) (x e : End) :
    Repairing ((l.apply (.deliver x 0)).value.conversation n) e := by
  obtain ⟨st, d, flow, short, _⟩ := flows.short few x
  cases landing sound x n with
  | still view =>
    rw [view]
    exact repairing e
  | hear first offered own known exact view =>
    have stands := Conversation.stands_of_offers (v := l.conversation n) rfl offered
    rw [view]
    by_cases here : e = x
    · subst here
      exact (repairing e).receive flow short first stands known exact
    · obtain rfl : x = e.other := End.eq_other (Ne.symm here)
      rw [End.other_other] at stands ⊢
      exact (repairing e).attend flow short first stands own known exact
  | miss first missing closed view =>
    rw [view]
    by_cases here : e = x
    · subst here
      refine (repairing e).land first fun kind => ?_
      rw [kind] at closed
      cases closed
    · obtain rfl : x = e.other := End.eq_other (Ne.symm here)
      rw [End.other_other] at missing
      exact (repairing e).miss missing

theorem keeps_deliver (sound : l.Sound) (x e : End) (lives : (l.channel? e n).isSome) :
    ((l.apply (.deliver x 0)).value.channel? e n).isSome := by
  show (((l.apply (.deliver x 0)).value.conversation n).channel? e).isSome
  cases landing sound x n with
  | still view =>
    rw [view]
    exact lives
  | hear first offered own known exact view =>
    rw [view]
    by_cases here : e = x.other
    · subst here
      rw [Conversation.turn_channel?_self]
      rfl
    · obtain rfl : e = x := by rw [End.eq_other here, End.other_other]
      rw [Conversation.turn_channel?_back]
      exact lives
  | miss first missing closed view =>
    rw [view]
    exact lives

/-- Deliveries in order go on with the repair. They take in no writes and destroy no channel. -/
theorem repairing_drains {deliveries : List Op} (drains : Drains deliveries l) (sound : l.Sound)
    (flows : Flows n l.clock start l.now (l.conversation n) a) (order : start ≤ l.now)
    (near : (run deliveries l).value.now < start + stampRange * millisecond)
    (few : ∀ e, (a e).accepted.length ≤ horizon)
    (repairing : ∀ e, Repairing (l.conversation n) e) :
    (∀ e, accepted e n deliveries l = []) ∧ (∀ e, Keeps e n deliveries l) ∧
      (∀ op ∈ deliveries, op.Regular) ∧ (run deliveries l).value.isQuiet = true ∧
      ∀ e, Repairing ((run deliveries l).value.conversation n) e := by
  induction deliveries generalizing l a with
  | nil => exact ⟨fun _ => rfl, fun _ => trivial, nofun, drains, repairing⟩
  | cons op deliveries ih =>
    obtain ⟨first, rest⟩ := drains
    have order' := Nat.le_trans order (now_apply_le l op)
    have near' := Nat.lt_of_le_of_lt (now_run_le deliveries (l.apply op).value) near
    cases op with
    | pass duration =>
      have sound' : (l.pass duration).Sound := sound
      obtain ⟨silent, lives, regular, quiet, repaired⟩ :=
        ih rest sound' (flows.later (Nat.le_add_right _ _)) order' near few repairing
      exact ⟨silent, fun e => ⟨fun there => there, lives e⟩,
        List.forall_mem_cons.mpr ⟨⟨trivial, rfl⟩, regular⟩, quiet, repaired⟩
    | deliver x i =>
      obtain ⟨rfl, _⟩ := first
      have known : (Op.deliver x 0).Sound := trivial
      have keeps := keeps_deliver (n := n) sound x
      have few' (e : End) : (settle a l n (.deliver x 0) e).accepted.length ≤ horizon := by
        have same : (settle a l n (.deliver x 0) e).accepted = (a e).accepted := List.append_nil _
        rw [same]
        exact few e
      obtain ⟨_, flows'⟩ := flows.apply sound known rfl keeps order near' few'
      obtain ⟨silent, lives, regular, quiet, repaired⟩ :=
        ih rest (sound.apply known) flows' order' near few'
          (repairing_deliver sound flows few repairing x)
      exact ⟨silent, fun e => ⟨keeps e, lives e⟩,
        List.forall_mem_cons.mpr ⟨⟨trivial, rfl⟩, regular⟩, quiet, repaired⟩
    | _ => exact first.elim

end Deliver

section Tick

/-- What a tick does to a conversation whose channel it does not destroy. -/
theorem view_tick (sound : l.Sound) (x : End) (n : UInt8)
    (keeps : (l.channel? x n).isSome → ((l.apply (.tick x)).value.channel? x n).isSome) :
    l.channel? x n = none ∧ (l.apply (.tick x)).value.conversation n = l.conversation n ∨
      ∃ c, l.channel? x n = some c ∧ c.Sound ∧ (c.tick (l.context x)).value.2 = none ∧
        (l.apply (.tick x)).value.conversation n =
          (l.conversation n).turn x (some (c.tick (l.context x)).value.1)
            (packets (c.tick (l.context x)).log) := by
  have known : (Op.tick x).Sound := trivial
  obtain ⟨view, _⟩ := conversation_apply sound known rfl n
  have view : (l.apply (.tick x)).value.conversation n = (l.conversation n).turn x
      ((l.side x).table.slot l.now (l.key x n) .tick).value
      (packets (voice n ((l.side x).table.slot l.now (l.key x n) .tick).log)) := view
  cases found : l.channel? x n with
  | none =>
    have missing : (l.side x).table.find? (l.key x n) = none := found
    simp only [Table.slot, missing] at view
    have same := (l.conversation n).turn_self x
    rw [show (l.conversation n).channel? x = none from found] at same
    exact .inl ⟨rfl, view.trans same⟩
  | some c =>
    have there : (l.side x).table.find? (l.key x n) = some c := found
    obtain ⟨mem, key⟩ := Table.mem_of_find? there
    have own := (sound x).channels c mem
    simp only [Table.slot, there] at view
    cases outcome : (c.tick ((l.side x).table.context l.now)).value.2 with
    | none =>
      rw [Table.tickOne_kept outcome] at view
      have speaks := (moves_tick ((l.side x).table.context l.now) c).speaks own trivial
      refine .inr ⟨c, rfl, own, outcome, view.trans ?_⟩
      exact congrArg _ (packets_voice speaks (by rw [key]; rfl))
    | some reason =>
      rw [Table.tickOne_gone outcome] at view
      have gone : (l.apply (.tick x)).value.channel? x n = none :=
        (congrArg (·.channel? x) view).trans (Conversation.turn_channel?_self _ x _ _)
      have lost := keeps (by rw [found]; rfl)
      rw [gone] at lost
      cases lost

theorem repairing_tick_other (sound : l.Sound)
    (keeps : (l.channel? x.other n).isSome →
      ((l.apply (.tick x.other)).value.channel? x.other n).isSome)
    (repairing : Repairing (l.conversation n) x) :
    Repairing ((l.apply (.tick x.other)).value.conversation n) x := by
  rcases view_tick sound x.other n keeps with ⟨_, view⟩ | ⟨c, _, _, _, view⟩
  · rw [view]
    exact repairing
  · rw [view]
    exact repairing.turn_other _ _

/-- A tick of the end `x` on which everything is due begins the repair. -/
theorem repairing_tick (sound : l.Sound) (flows : Flows n clock start now (l.conversation n) a)
    (keeps : (l.channel? x n).isSome → ((l.apply (.tick x)).value.channel? x n).isSome)
    {total m : Nat} {ks : List Nat} (few : total ≤ horizon)
    (numbered : Numbered total m ks ((l.conversation n).sender x))
    (due : ∀ c, l.channel? x n = some c → ∀ entry ∈ c.sender.unacked.entries,
      entry.deadline ≤ l.now) : Repairing ((l.apply (.tick x)).value.conversation n) x := by
  rcases view_tick sound x n keeps with ⟨missing, view⟩ | ⟨c, found, own, kept, view⟩
  · rw [view]
    have none : ((l.conversation n).sender x).unackedIds = [] := by
      have missing : (l.conversation n).channel? x = none := missing
      simp only [Conversation.sender, missing]
      rfl
    have ranked := numbered.unacked
    rw [none] at ranked
    obtain rfl := ranked.eq_nil
    exact .intro _ [] few numbered (List.append_nil _).symm (.nil m)
      (List.forall_mem_nil _)
  · obtain ⟨st, d, flow, _⟩ := flows x
    obtain ⟨st', d', back, _⟩ := flows x.other
    have there : (l.conversation n).channel? x = some c := found
    have sender := Conversation.sender_of_some there
    have idle : c.receiver.pendingReset = none := by
      have follows := back.follows
      rw [End.other_other, Conversation.receiver_of_some there] at follows
      exact follows.idle
    have stored : ∀ y ∈ c.sender.unacked.contents, ∃ p : Packet, p.WellFormed ∧
        p.header.kind = .data ∧ y = (p.header.id, p.encode) := by
      intro y held
      rw [← sender] at held
      obtain ⟨k, p, known, rfl⟩ := flow.sends.unacked y held
      obtain ⟨wellFormed, _, kind, id⟩ := flow.stream k p known
      exact ⟨p, wellFormed, kind, by rw [id]⟩
    obtain ⟨sent, advances, ids⟩ := tick_resends own idle kept (due c found) stored
    rw [← sender] at advances ids
    obtain ⟨_, places⟩ := advances.places m numbered.nextId
    have ranked := numbered.unacked.append_range sent.length
    rw [view]
    refine .intro ((l.conversation n).air x) _ few
      (by simpa using numbered.advance advances) (Conversation.turn_air_self ..) ?_
      fun k held => .inl held
    rw [ids, places]
    exact ranked

/-- A clean round begins the repair of both directions. -/
theorem repairing_cleanRound {duration wait : Nat} (sound : l.Sound)
    (flows : Flows n l.clock start l.now (l.conversation n) a) (order : start ≤ l.now)
    (near : l.now + duration + wait < start + stampRange * millisecond)
    (few : ∀ e, (a e).accepted.length ≤ horizon)
    (numbered : ∀ e, ∃ m ks, Numbered (a e).accepted.length m ks ((l.conversation n).sender e))
    (keeps : ∀ e, Keeps e n (cleanRound x duration wait) l)
    (due : ∀ e c, l.channel? e n = some c → ∀ entry ∈ c.sender.unacked.entries,
      entry.deadline ≤ l.now + duration) (e : End) :
    Repairing ((run (cleanRound x duration wait) l).value.conversation n) e := by
  have passed : Flows n (l.pass duration).clock start (l.pass duration).now
      ((l.pass duration).conversation n) a := flows.later (Nat.le_add_right _ _)
  have sound' : (l.pass duration).Sound := sound
  have known : (Op.tick x).Sound := trivial
  have counts (e : End) : (settle a (l.pass duration) n (.tick x) e).accepted = (a e).accepted :=
    List.append_nil _
  have still : ((l.pass duration).apply (.tick x)).value.now = l.now + duration :=
    now_perform _ _ _
  obtain ⟨_, ticked⟩ := passed.apply sound' known rfl (fun e => (keeps e).2.1)
    (Nat.le_trans order (Nat.le_add_right _ _)) (by rw [still]; omega) fun e => by
      rw [counts]
      exact few e
  obtain ⟨m, ks, first⟩ := numbered x
  obtain ⟨m', ks', second⟩ := numbered x.other
  have repairing := repairing_tick sound' passed (keeps x).2.1 (few x) first (due x)
  have other := channel?_tick_other sound' x n
  generalize ticks : ((l.pass duration).apply (.tick x)).value = l' at ticked repairing other still
  have sound'' : (l'.pass wait).Sound := by
    rw [← ticks]
    exact sound'.apply known
  have keeps' (e : End) : ((l'.pass wait).channel? e n).isSome →
      (((l'.pass wait).apply (.tick x.other)).value.channel? e n).isSome := by
    rw [← ticks]
    exact (keeps e).2.2.2.1
  have sender : ((l'.pass wait).conversation n).sender x.other =
      (l.conversation n).sender x.other := by
    have same : ((l'.pass wait).conversation n).channel? x.other =
        (l.conversation n).channel? x.other := other
    simp only [Conversation.sender, same]
  have waited : Flows n (l'.pass wait).clock start (l'.pass wait).now
      ((l'.pass wait).conversation n) (settle a (l.pass duration) n (.tick x)) :=
    ticked.later (Nat.le_add_right _ _)
  have repairing' := repairing_tick sound'' waited (keeps' x.other) (few x.other)
    (by rwa [sender]) fun c found entry held => by
      have soon := due x.other c (other.symm.trans found) entry held
      show entry.deadline ≤ l'.now + wait
      omega
  have whole : (run (cleanRound x duration wait) l).value =
      ((l'.pass wait).apply (.tick x.other)).value := by
    rw [← ticks]
    rfl
  rw [whole]
  by_cases here : e = x
  · subst here
    exact repairing_tick_other sound'' (keeps' e.other) repairing
  · obtain rfl : e = x.other := End.eq_other here
    exact repairing'

end Tick

section Done

variable {clock : Clock} {st : List Packet} {d : Nat}

/-- When nothing flies any more, the repair has left nothing unacknowledged. -/
theorem unacked_of_repairing (repairing : Repairing v e) (quiet : ∀ e, v.air e = []) :
    (v.sender e).unacked.contents = [] := by
  obtain @⟨total, m, ks, js, old, new, few, numbered, air, flying, covered⟩ := repairing
  rw [quiet e] at air
  obtain ⟨_, rfl⟩ := List.append_eq_nil_iff.mp air.symm
  obtain rfl := flying.eq_nil
  have none : ks = [] := by
    refine List.eq_nil_iff_forall_not_mem.mpr fun k held => ?_
    rcases covered k held with flies | ⟨p, mem, _⟩
    · cases flies
    · rw [quiet e.other] at mem
      cases mem
  have ids := numbered.unacked.ids
  rw [none] at ids
  exact List.map_eq_nil_iff.mp ids

/-- A direction with nothing unacknowledged is complete: all is delivered, and nothing is kept. -/
theorem complete_of_unacked (flow : Flow n clock start now v e st d) (short : st.length ≤ horizon)
    (empty : (v.sender e).unacked.contents = []) :
    d = st.length ∧ (v.receiver e.other).early.payloads = [] := by
  have within := flow.follows.within
  have all : d = st.length := by
    refine Nat.le_antisymm within (Nat.le_of_not_lt fun behind => ?_)
    have held := flow.held d st[d] (List.getElem?_eq_getElem behind)
    rw [empty] at held
    exact flow.follows.not_has short (held.resolve_left List.not_mem_nil)
  refine ⟨all, ?_⟩
  cases kept : (v.receiver e.other).early.payloads with
  | nil => rfl
  | cons y payloads =>
    obtain ⟨id, payload⟩ := y
    have there : (v.receiver e.other).early.get? id = some payload := by
      simp [ReceiveQueue.get?, kept]
    obtain ⟨j, p, ahead, found, _⟩ := flow.follows.early _ _ there
    have bound := (List.getElem?_eq_some_iff.mp found).1
    omega

theorem parkedBytes_eq_nil (none : ∀ c, v.channel? e = some c → c.sender.parked = []) :
    parkedBytes (v.sender e) = [] := by
  unfold Conversation.sender
  cases found : v.channel? e with
  | none => rfl
  | some c => simp [parkedBytes, none c found]

end Done

/-- What a repair comes to when nothing flies any more. -/
theorem repaired_of_repairing {ops : List Op} (fresh : l.Fresh)
    (valid : ∀ e, (l.config e).validate = .ok ()) (regular : ∀ op ∈ ops, op.Regular)
    (keeps : ∀ e, Keeps e n ops l)
    (near : (run ops l).value.now < l.now + stampRange * millisecond)
    (few : ∀ e, (accepted e n ops l).length < horizon)
    (repairing : ∀ e, Repairing ((run ops l).value.conversation n) e)
    (quiet : (run ops l).value.isQuiet = true) : Repaired n ops l := by
  obtain ⟨_, flows⟩ := flows_of_fresh fresh regular keeps near few
  have few' (e : End) : (settleAll (fun _ => {}) l n ops e).accepted.length ≤ horizon :=
    Nat.le_of_lt (few e)
  have patience := (abides_patient fun e => Config.defaultQueueSize_pos (valid e)).channels_of_fresh
    fresh (fun op mem => (regular op mem).1) n
  have silent (e : End) : ((run ops l).value.conversation n).air e = [] := air_of_quiet quiet e n
  have unacked (e : End) := unacked_of_repairing (repairing e) silent
  have parked (e : End) (c : Channel) (found : (run ops l).value.channel? e n = some c) :
      c.sender.parked = [] := by
    refine (patience e c found).parked_eq_nil ?_
    have there : ((run ops l).value.conversation n).channel? e = some c := found
    rw [← Conversation.sender_of_some there]
    exact unacked e
  constructor
  · intro e c found
    have there : ((run ops l).value.conversation n).channel? e = some c := found
    obtain ⟨st, d, flow, short, _⟩ := Flows.short flows few' e.other
    have kept := (complete_of_unacked flow short (unacked e.other)).2
    rw [End.other_other, Conversation.receiver_of_some there] at kept
    have sent := unacked e
    rw [Conversation.sender_of_some there] at sent
    exact ⟨List.map_eq_nil_iff.mp sent, parked e c found, kept⟩
  · intro before after split e c w found waits
    subst split
    have known : ∀ op ∈ before, op.Sound := fun op mem =>
      (regular op (List.mem_append_left _ mem)).1
    rcases waits_run (fresh.sound.run known)
      (fun op mem => regular op (List.mem_append_right _ mem)) (keeps_append.mp (keeps e)).2 found
      waits with ⟨c', there, still⟩ | answered
    · rw [← value_run_append] at there
      rw [parked e c' there] at still
      cases still
    · exact answered
  · intro e
    obtain ⟨st, d, flow, short, accepts, delivers⟩ := Flows.short flows few' e
    obtain ⟨rfl, _⟩ := complete_of_unacked flow short (unacked e)
    have nothing : parkedBytes (((run ops l).value.conversation n).sender e) = [] :=
      parkedBytes_eq_nil (parked e)
    have accepts : accepted e n ops l = contentsOf st ++ _ := accepts
    have delivers : delivered e.other n (run ops l).log = contentsOf (st.take st.length) := delivers
    rw [accepts, delivers, nothing, List.append_nil, List.take_length]

theorem regular_cleanRound {duration wait : Nat} :
    ∀ op ∈ cleanRound x duration wait, op.Regular := by
  simp [cleanRound, Op.Regular, Op.Sound, Op.isRestart]

/-- After any run of two fresh tables in which no channel with a number is destroyed: if time passes
until everything is due, and both ends tick once and keep their channels, then the datagrams in
flight can be delivered in order until nothing flies, and however that is done, the conversation is
repaired. -/
theorem clean_round_repairs {l : Link} {ops : List Op} {x : End} {duration wait : Nat} (n : UInt8)
    (fresh : l.Fresh) (valid : ∀ e, (l.config e).validate = .ok ())
    (regular : ∀ op ∈ ops, op.Regular)
    (keeps : ∀ e, Keeps e n (ops ++ cleanRound x duration wait) l)
    (few : ∀ e, (accepted e n ops l).length < horizon)
    (due : ∀ e c, (run ops l).value.channel? e n = some c →
      ∀ entry ∈ c.sender.unacked.entries, entry.deadline ≤ (run ops l).value.now + duration) :
    (∃ deliveries, Drains deliveries (run (ops ++ cleanRound x duration wait) l).value ∧
        (run (ops ++ cleanRound x duration wait ++ deliveries) l).value.now =
          (run (ops ++ cleanRound x duration wait) l).value.now) ∧
      ∀ deliveries, Drains deliveries (run (ops ++ cleanRound x duration wait) l).value →
        (run (ops ++ cleanRound x duration wait ++ deliveries) l).value.now <
          l.now + stampRange * millisecond →
        Repaired n (ops ++ cleanRound x duration wait ++ deliveries) l := by
  have regular' : ∀ op ∈ ops ++ cleanRound x duration wait, op.Regular :=
    List.forall_mem_append.mpr ⟨regular, regular_cleanRound⟩
  have sound := fresh.sound.run fun op mem => (regular op mem).1
  have sound' := fresh.sound.run fun op mem => (regular' op mem).1
  constructor
  · obtain ⟨deliveries, drains, still⟩ := exists_drains sound'
    exact ⟨deliveries, drains, by rw [value_run_append, still]⟩
  intro deliveries drains near
  have now : (run (ops ++ cleanRound x duration wait) l).value.now =
      (run ops l).value.now + duration + wait := by
    rw [value_run_append]
    exact (now_perform _ _ _).trans (congrArg (· + wait) (now_perform _ _ _))
  have silent (e : End) :
      accepted e n (ops ++ cleanRound x duration wait) l = accepted e n ops l := by
    rw [accepted_append]
    exact List.append_nil _
  have few' (e : End) : (accepted e n (ops ++ cleanRound x duration wait) l).length < horizon := by
    rw [silent]
    exact few e
  have keeps' (e : End) := keeps_append.mp (keeps e)
  rw [value_run_append] at near
  have near' := Nat.lt_of_le_of_lt (now_run_le deliveries _) near
  have early : (run ops l).value.now < l.now + stampRange * millisecond := by omega
  -- Everything up to the round, and then the round itself, is a run of two fresh tables.
  obtain ⟨quiet, flows⟩ := flows_of_fresh fresh regular (fun e => (keeps' e).1) early few
  obtain ⟨_, flows'⟩ := flows_of_fresh fresh regular' keeps near' few'
  have numbered (e : End) : ∃ m ks, Numbered (accepted e n ops l).length m ks
      (((run ops l).value.conversation n).sender e) := by
    have numbered := numbered_run fresh.sound regular (fun e => (keeps' e).1) quiet
      (fresh.numbered e n)
    rwa [Nat.zero_add] at numbered
  have repairing := repairing_cleanRound sound flows (now_run_le ops l) (by rwa [← now])
    (fun e => Nat.le_of_lt (few e)) numbered (fun e => (keeps' e).2) due
  rw [← value_run_append] at repairing
  obtain ⟨nothing, lives, regular'', finished, repaired⟩ :=
    repairing_drains drains sound' flows' (now_run_le _ l) near
      (fun e => Nat.le_of_lt (few' e)) repairing
  rw [← value_run_append] at near finished repaired
  refine repaired_of_repairing fresh valid (List.forall_mem_append.mpr ⟨regular', regular''⟩)
    (fun e => keeps_append.mpr ⟨keeps e, lives e⟩) near (fun e => ?_) repaired finished
  rw [accepted_append, nothing, List.append_nil]
  exact few' e

/-- Both ends write, and all that `b` sends is lost: the acknowledgement of the first packet from
`a`, behind which another write of `a` is parked, and the first packet of its own. -/
def lossy : List Op :=
  [.connect .a 1, .deliver .a 0, .deliver .b 0, .write .a 1 1 ⟨0, [1]⟩, .write .a 1 1 ⟨1, [2]⟩,
    .copy .a 0, .lose .b 0, .write .b 1 1 ⟨2, [3]⟩, .lose .b 0]

theorem lossy_keeps (e : End) : Keeps e 1 (lossy ++ cleanRound .a second millisecond) pair := by
  cases e <;> decide +kernel

theorem lossy_due (e : End) (c : Channel) (found : (run lossy pair).value.channel? e 1 = some c) :
    ∀ entry ∈ c.sender.unacked.entries, entry.deadline ≤ (run lossy pair).value.now + second := by
  have all : ((run lossy pair).value.channel? e 1).all (fun c => c.sender.unacked.entries.all
      fun entry => decide (entry.deadline ≤ (run lossy pair).value.now + second)) = true := by
    cases e <;> decide +kernel
  rw [found] at all
  simpa using all

/-- The deliveries after a clean round. -/
def mending : List Op :=
  [.deliver .a 0, .deliver .a 0, .deliver .b 0, .pass millisecond, .deliver .a 0, .deliver .b 0,
    .deliver .a 0, .deliver .b 0, .deliver .b 0]

theorem clean_round_repairs_lossy :
    Repaired 1 (lossy ++ cleanRound .a second millisecond ++ mending) pair ∧
      delivered .b 1 (run (lossy ++ cleanRound .a second millisecond ++ mending) pair).log =
        [[1], [2]] ∧
      ((run lossy pair).value.channel? .a 1).map (fun c =>
        (c.sender.unacked.length, c.sender.parked)) = some (1, [⟨1, [2]⟩]) := by
  have repairs := (clean_round_repairs 1 fresh_pair (fun e => by cases e <;> rfl)
    (by decide : ∀ op ∈ lossy, op.Regular) lossy_keeps (fun e => by cases e <;> decide +kernel)
    lossy_due).2
  exact ⟨repairs mending (by decide +kernel) (by decide +kernel), by decide +kernel,
    by decide +kernel⟩

end ReliableDatagram.Link
