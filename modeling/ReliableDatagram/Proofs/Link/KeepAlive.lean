import ReliableDatagram.Proofs.Channel.KeepAlive
import ReliableDatagram.Proofs.Link.Pump
import Mathlib.Algebra.GroupWithZero.Nat

/-!
# Keep-alive packets prevent timeouts

Each end that ticks has sent something not longer than a keep-alive interval ago. As long as nothing
is lost, whatever it sent is heard by the other end in the same stroke of the pump. So if the other
end waits for a keep-alive interval and a stroke at least, it never finds its peer silent for too
long: `no_timeout`.
-/

namespace ReliableDatagram

/-- The same channel, not earlier. -/
structure Channel.Ages (c c' : Channel) : Prop where
  generation : c'.generation = c.generation
  sent : c.lastSent ≤ c'.lastSent
  received : c.lastReceived ≤ c'.lastReceived

theorem Channel.Ages.refl (c : Channel) : c.Ages c := ⟨rfl, Nat.le_refl _, Nat.le_refl _⟩

theorem Channel.Ages.trans {c c' c'' : Channel} (first : c.Ages c') (second : c'.Ages c'') :
    c.Ages c'' :=
  ⟨second.generation.trans first.generation, Nat.le_trans first.sent second.sent,
    Nat.le_trans first.received second.received⟩

namespace Conversation

open Link Channel

/-- Both ends have their channels, and what each sent last was heard by the other, unless something
of it still flies. -/
structure Lossless (now : Nat) (v : Conversation) (c : End → Channel) : Prop where
  here : ∀ e, v.channel? e = some (c e)
  sent : ∀ e, (c e).lastSent ≤ now
  received : ∀ e, (c e).lastReceived ≤ now
  heard : ∀ e, (c e).lastSent ≤ (c e.other).lastReceived ∨ v.air e ≠ []

variable {now : Nat} {v w : Conversation} {c : End → Channel} {x : End} {d : Channel}
  {ctx : Context} {log : List Effect}

/-- What is sent at all is sent as packets. -/
theorem packets_ne_nil {key : Key} (speaks : ∀ y ∈ log, y.Speaks key)
    (sends : ∃ y ∈ log, y.datagram?.isSome = true) : packets log ≠ [] := by
  obtain ⟨y, logged, datagram⟩ := sends
  have seen : ∃ p, y.packet? = some p := by
    cases y with
    | send target bytes =>
      obtain ⟨_, p, rfl, wellFormed, _⟩ := speaks _ logged
      exact ⟨p, Effect.packet?_send target wellFormed⟩
    | resend target bytes =>
      obtain ⟨_, p, rfl, wellFormed, _⟩ := speaks _ logged
      exact ⟨p, Effect.packet?_resend target wellFormed⟩
    | emit | reply => cases datagram
  obtain ⟨p, seen⟩ := seen
  exact List.ne_nil_of_mem (List.mem_filterMap.mpr ⟨y, logged, seen⟩)

/-- The end `x` acts. The other end's packets still fly as before, or `x` hears from it now. -/
theorem Lossless.turn (lossless : Lossless now v c) (channels : w.channel? = v.channel?)
    (own : w.air x = v.air x)
    (other : w.air x.other = v.air x.other ∨ d.lastReceived = now)
    (dates : Dates ctx (c x) log d) (present : ctx.now = now)
    (speaks : ∀ y ∈ log, y.Speaks (c x).key) :
    Lossless now (w.turn x (some d) (packets log)) fun y => if y = x then d else c y := by
  have sent : (c x).lastSent ≤ d.lastSent ∧ d.lastSent ≤ now := by
    have before := lossless.sent x
    rcases dates.sent with same | ⟨same, _⟩ <;> omega
  have received : (c x).lastReceived ≤ d.lastReceived ∧ d.lastReceived ≤ now := by
    have before := lossless.received x
    rcases dates.received with same | same <;> omega
  constructor
  · intro e
    by_cases acts : e = x
    · rw [acts, if_pos rfl, turn_channel?_self]
    · rw [if_neg acts, End.eq_other acts, turn_channel?_other, channels]
      exact lossless.here _
  · intro e
    split
    · exact sent.2
    · exact lossless.sent e
  · intro e
    split
    · exact received.2
    · exact lossless.received e
  · intro e
    by_cases acts : e = x
    · subst acts
      rw [if_pos rfl, if_neg e.other_ne, turn_air_self, own]
      rcases dates.sent with same | ⟨_, sends⟩
      · rw [same]
        rcases lossless.heard e with heard | flies
        · exact .inl heard
        · exact .inr (List.append_ne_nil_of_left_ne_nil flies _)
      · exact .inr (List.append_ne_nil_of_right_ne_nil _ (packets_ne_nil speaks sends))
    · obtain rfl : e = x.other := End.eq_other acts
      rw [if_neg acts, End.other_other, if_pos rfl, turn_air_other]
      rcases other with same | now
      · rw [same]
        rcases lossless.heard x.other with heard | flies
        · rw [End.other_other] at heard
          exact .inl (Nat.le_trans heard received.1)
        · exact .inr flies
      · rw [now]
        exact .inl (lossless.sent x.other)

end Conversation

namespace Link

open Channel

variable {l : Link} {n : UInt8} {c : End → Channel} {x e : End} {op : Op}

/-- What the channel at an end would be destroyed for if the end ticked now. -/
def verdict? (l : Link) (e : End) (n : UInt8) : Option DisconnectReason :=
  (l.channel? e n).bind fun c => (c.tick (l.context e)).value.2

/-- Nothing is lost, and no channel is destroyed. -/
def Op.isGentle : Op → Bool
  | .pass _ | .write _ _ _ _ | .deliver _ 0 => true
  | _ => false

theorem ages_of_dates {ctx : Context} {d d' : Channel} {log : List Effect}
    (dates : Dates ctx d log d') (sent : d.lastSent ≤ ctx.now) (received : d.lastReceived ≤ ctx.now)
    (generation : d'.generation = d.generation) : d.Ages d' := by
  refine ⟨generation, ?_, ?_⟩
  · rcases dates.sent with same | ⟨now, _⟩ <;> omega
  · rcases dates.received with same | now <;> omega

theorem ages_update {d : Channel} (ages : (c x).Ages d) (y : End) :
    (c y).Ages (if y = x then d else c y) := by
  split
  · next own => rwa [own]
  · exact .refl _

/-- The end `x` acts on its own. -/
theorem lossless_of_request (sound : l.Sound) (lossless : (l.conversation n).Lossless l.now c)
    (known : op.Sound) {r : Table.Request} (asked : l.request? op = some (x, r))
    (prepared : (l.prepare op).conversation n = l.conversation n) {d : Channel} {log : List Effect}
    (slot : (l.side x).table.slot l.now (l.key x n) r = ⟨some d, log⟩) {cop : Channel.Op}
    {ws : List ParkedWrite} (moves : Moves (l.context x) cop (c x) log ws d)
    (suits : cop.Sound (c x).key) :
    ((l.apply op).value.conversation n).Lossless (l.apply op).value.now
        (fun y => if y = x then d else c y) ∧
      ∀ y, (c y).Ages (if y = x then d else c y) := by
  obtain ⟨mem, key⟩ := Table.mem_of_find? (lossless.here x)
  have speaks := moves.speaks ((sound x).channels _ mem) suits
  have view := (conversation_apply sound known asked n).1
  rw [prepared, slot, packets_voice speaks (by rw [key]; rfl)] at view
  rw [view, now_of_request asked]
  refine ⟨lossless.turn rfl rfl (.inl rfl) moves.dates rfl speaks, ages_update ?_⟩
  exact ages_of_dates moves.dates (lossless.sent x) (lossless.received x) moves.generation

theorem lossless_tick (sound : l.Sound) (lossless : (l.conversation n).Lossless l.now c)
    (kept : l.verdict? x n = none) (positive : 0 < (l.config x).keepAliveInterval) :
    ∃ c', ((l.apply (.tick x)).value.conversation n).Lossless (l.apply (.tick x)).value.now c' ∧
      (∀ y, (c y).Ages (c' y)) ∧ l.now < (c' x).lastSent + (l.config x).keepAliveInterval := by
  have here : l.channel? x n = some (c x) := lossless.here x
  have found : (l.side x).table.find? (l.key x n) = some (c x) := here
  have kept : ((c x).tick (l.context x)).value.2 = none := by
    simpa only [verdict?, here, Option.bind_some] using kept
  have slot : (l.side x).table.slot l.now (l.key x n) .tick =
      ⟨some ((c x).tick (l.context x)).value.1, ((c x).tick (l.context x)).log⟩ := by
    simp only [Table.slot, found]
    exact Table.tickOne_kept kept
  have known : (Op.tick x).Sound := trivial
  obtain ⟨lossless', ages⟩ :=
    lossless_of_request sound lossless known rfl rfl slot (moves_tick _ _) trivial
  refine ⟨_, lossless', ages, ?_⟩
  rw [if_pos rfl]
  exact tick_recent positive kept

theorem lossless_write (sound : l.Sound) (lossless : (l.conversation n).Lossless l.now c)
    (channel : UInt8) (generation : Nat) (w : ParkedWrite) :
    ∃ c', ((l.apply (.write x channel generation w)).value.conversation n).Lossless
        (l.apply (.write x channel generation w)).value.now c' ∧ ∀ y, (c y).Ages (c' y) := by
  have known : (Op.write x channel generation w).Sound := trivial
  have here : (l.side x).table.find? (l.key x n) = some (c x) := lossless.here x
  have idle (slot : (l.side x).table.slot l.now (l.key x n)
      (.write (l.key x channel) generation w) = pure (some (c x))) :
      ∃ c', ((l.apply (.write x channel generation w)).value.conversation n).Lossless
        (l.apply (.write x channel generation w)).value.now c' ∧ ∀ y, (c y).Ages (c' y) :=
    have rest : Moves (l.context x) .tick (c x) [] [] (c x) := .none
    ⟨_, lossless_of_request sound lossless known rfl rfl slot rest trivial⟩
  by_cases reaches : l.key x channel = l.key x n ∧
      w.payload.length ≤ (l.side x).table.config.maxPayloadLength
  · cases live : (l.side x).table.live? (l.key x n) generation with
    | none =>
      refine idle ?_
      simp only [Table.slot, if_pos reaches, live, here]
    | some d =>
      obtain rfl : d = c x := Option.some.inj ((Table.find?_of_live? live).symm.trans here)
      have slot : (l.side x).table.slot l.now (l.key x n)
          (.write (l.key x channel) generation w) = some <$> (c x).write (l.context x) w := by
        simp only [Table.slot, if_pos reaches, live]
        rfl
      exact ⟨_, lossless_of_request sound lossless known rfl rfl slot (moves_write _ _ w)
        (Nat.le_trans reaches.2 (Table.maxPayloadLength_le _))⟩
  · refine idle ?_
    simp only [Table.slot, if_neg reaches, here]

theorem lossless_deliver (sound : l.Sound) (lossless : (l.conversation n).Lossless l.now c)
    (e : End) :
    ∃ c', ((l.apply (.deliver e 0)).value.conversation n).Lossless
        (l.apply (.deliver e 0)).value.now c' ∧ ∀ y, (c y).Ages (c' y) := by
  rw [now_deliver]
  cases landing sound e n with
  | still view =>
    rw [view]
    exact ⟨c, lossless, fun y => .refl _⟩
  | @hear p rest d d' log first offered known suits exact view =>
    have here : (l.side e.other).table.find? (l.key e.other n) = some (c e.other) :=
      lossless.here e.other
    obtain rfl : d = c e.other := by
      rcases offered with found | ⟨missing, _⟩
      · exact Option.some.inj (found.symm.trans here)
      · rw [missing] at here
        cases here
    have moves := moves_onPacket (l.context e.other) (c e.other) p
    have received := onPacket_lastReceived (l.context e.other) (c e.other) p
    rw [exact] at moves received
    rw [view]
    refine ⟨_, lossless.turn rfl ?_ (.inr received) moves.dates rfl (moves.speaks known suits),
      ages_update ?_⟩
    · exact (l.conversation n).air_land_other e
    · exact ages_of_dates moves.dates (lossless.sent _) (lossless.received _) moves.generation
  | miss first missing =>
    have here := lossless.here e.other
    rw [show (l.conversation n).channel? e.other = none from missing] at here
    cases here

theorem lossless_apply (sound : l.Sound) (lossless : (l.conversation n).Lossless l.now c)
    (gentle : op.isGentle = true) :
    (l.apply op).value.Sound ∧ (l.apply op).value.now = l.now + op.duration ∧
      ∃ c', ((l.apply op).value.conversation n).Lossless (l.apply op).value.now c' ∧
        ∀ y, (c y).Ages (c' y) := by
  cases op with
  | pass duration =>
    have later : l.now ≤ l.now + duration := Nat.le_add_right _ _
    exact ⟨sound, rfl, c, ⟨lossless.here, fun e => Nat.le_trans (lossless.sent e) later,
      fun e => Nat.le_trans (lossless.received e) later, lossless.heard⟩, fun y => .refl _⟩
  | write e channel generation w =>
    exact ⟨sound.apply trivial, now_of_request rfl, lossless_write sound lossless _ _ _⟩
  | deliver e i =>
    cases i with
    | zero => exact ⟨sound.apply trivial, now_deliver l e 0, lossless_deliver sound lossless e⟩
    | succ i => cases gentle
  | connect | close | tick | copy | lose | restart => cases gentle

theorem lossless_run {ops : List Op} (sound : l.Sound)
    (lossless : (l.conversation n).Lossless l.now c) (gentle : ∀ op ∈ ops, op.isGentle = true) :
    (run ops l).value.Sound ∧ (run ops l).value.now = l.now + (ops.map Op.duration).sum ∧
      ∃ c', ((run ops l).value.conversation n).Lossless (run ops l).value.now c' ∧
        ∀ y, (c y).Ages (c' y) := by
  induction ops generalizing l c with
  | nil => exact ⟨sound, rfl, c, lossless, fun y => .refl _⟩
  | cons op ops ih =>
    obtain ⟨sound', now, c', lossless', ages⟩ :=
      lossless_apply sound lossless (gentle op List.mem_cons_self)
    obtain ⟨sound'', now', c'', lossless'', ages'⟩ :=
      ih sound' lossless' fun op mem => gentle op (List.mem_cons_of_mem _ mem)
    refine ⟨sound'', ?_, c'', lossless'', fun y => (ages y).trans (ages' y)⟩
    rw [value_run_cons, now', now, List.map_cons, List.sum_cons, Nat.add_assoc]

theorem config_run (ops : List Op) (l : Link) (x : End) :
    (run ops l).value.config x = l.config x := by
  induction ops generalizing l with
  | nil => rfl
  | cons op ops ih => exact (ih _).trans (config_apply l op x)

/-- When all is delivered, the other end has heard what the end `e` sent last. -/
theorem lossless_landings (sound : l.Sound) (lossless : (l.conversation n).Lossless l.now c)
    (e : End) :
    let landed := (run (l.landings e) l).value
    landed.Sound ∧ landed.now = l.now ∧
      ∃ c', (landed.conversation n).Lossless landed.now c' ∧ (∀ y, (c y).Ages (c' y)) ∧
        (c' e).lastSent ≤ (c' e.other).lastReceived := by
  intro landed
  have gentle : ∀ op ∈ l.landings e, op.isGentle = true := by
    intro op mem
    rw [List.eq_of_mem_replicate mem]
    rfl
  obtain ⟨sound', now, c', lossless', ages⟩ := lossless_run sound lossless gentle
  have still : ((l.landings e).map Op.duration).sum = 0 := by
    rw [landings, List.map_replicate]
    exact List.sum_replicate_nat.trans (Nat.mul_zero _)
  refine ⟨sound', by rw [now, still, Nat.add_zero], c', lossless', ages, ?_⟩
  rcases lossless'.heard e with heard | flies
  · exact heard
  · have none : (run (l.landings e) l).value.air e n = [] := by
      rw [air, flying_landings]
      rfl
    exact absurd none flies

/-- When both ends have ticked, each has sent something recently. -/
theorem lossless_ticks (sound : l.Sound) (lossless : (l.conversation n).Lossless l.now c)
    (positive : ∀ e, 0 < (l.config e).keepAliveInterval) (keptA : l.verdict? .a n = none)
    (keptB : (l.apply (.tick .a)).value.verdict? .b n = none) :
    let ticked := (run [.tick .a, .tick .b] l).value
    ticked.Sound ∧ ticked.now = l.now ∧
      ∃ c', (ticked.conversation n).Lossless ticked.now c' ∧ (∀ y, (c y).Ages (c' y)) ∧
        ∀ e, l.now < (c' e).lastSent + (l.config e).keepAliveInterval := by
  intro ticked
  have known (e : End) : (Op.tick e).Sound := trivial
  have stillA : (l.apply (.tick .a)).value.now = l.now := now_of_request rfl
  have stillB : ticked.now = (l.apply (.tick .a)).value.now := now_of_request rfl
  have config := config_apply l (.tick .a) .b
  obtain ⟨c', lossless', ages, sentA⟩ := lossless_tick sound lossless keptA (positive .a)
  have sound' := sound.apply (known .a)
  obtain ⟨c'', lossless'', ages', sentB⟩ :=
    lossless_tick sound' lossless' keptB (by rw [config]; exact positive .b)
  refine ⟨sound'.apply (known .b), stillB.trans stillA, c'', lossless'',
    fun y => (ages y).trans (ages' y), fun e => ?_⟩
  cases e with
  | a => exact Nat.lt_of_lt_of_le sentA (Nat.add_le_add_right (ages' .a).sent _)
  | b => rwa [stillA, config] at sentB

/-- What each end has sent before a round is heard by the other one in the round. -/
theorem lossless_roundTrip (sound : l.Sound) (lossless : (l.conversation n).Lossless l.now c) :
    let carried := (run l.roundTrip l).value
    carried.Sound ∧ carried.now = l.now ∧
      ∃ c', (carried.conversation n).Lossless carried.now c' ∧ (∀ y, (c y).Ages (c' y)) ∧
        ∀ e, (c e).lastSent ≤ (c' e.other).lastReceived := by
  obtain ⟨sound', still, c', lossless', ages, heardA⟩ := lossless_landings sound lossless .a
  obtain ⟨sound'', still', c'', lossless'', ages', heardB⟩ :=
    lossless_landings sound' lossless' .b
  rw [roundTrip, value_run_append]
  refine ⟨sound'', still'.trans still, c'', lossless'', fun y => (ages y).trans (ages' y),
    fun e => ?_⟩
  cases e with
  | a =>
    calc (c .a).lastSent
      _ ≤ (c' .a).lastSent := (ages .a).sent
      _ ≤ (c' .b).lastReceived := heardA
      _ ≤ (c'' .b).lastReceived := (ages' .b).received
  | b =>
    calc (c .b).lastSent
      _ ≤ (c' .b).lastSent := (ages .b).sent
      _ ≤ (c'' .b).lastSent := (ages' .b).sent
      _ ≤ (c'' .a).lastReceived := heardB

/-- An end that heard from the other one recently does not time out. -/
theorem verdict?_ne_timeout {d : Channel} (here : l.channel? e n = some d)
    (past : d.lastReceived ≤ l.now)
    (recent : l.now < d.lastReceived + (l.config e).disconnectTimeout) :
    l.verdict? e n ≠ some .timeout := by
  intro timeout
  rw [verdict?, here, Option.bind_some] at timeout
  have silent : (l.config e).disconnectTimeout ≤ l.now - d.lastReceived :=
    tick_eq_timeout_iff.mp timeout
  omega

/-- What a stroke's tick of an end would destroy the channel there for. -/
def Stroke.verdict? (s : Stroke) (l : Link) (n : UInt8) : End → Option DisconnectReason
  | .a => (Link.run s.wait l).value.verdict? .a n
  | .b => (Link.run (s.wait ++ [.tick .a]) l).value.verdict? .b n

/-- No stroke destroys a channel with this number for another reason than a timeout. -/
def Lasts (n : UInt8) : List Stroke → Link → Prop
  | [], _ => True
  | s :: ss, l =>
    (∀ e reason, s.verdict? l n e = some reason → reason = .timeout) ∧ Lasts n ss (s.run l).value

/-- Between two strokes, each end has heard from the other one not longer ago than the other's
keep-alive interval. -/
structure InTouch (n : UInt8) (l : Link) (c : End → Channel) : Prop where
  sound : l.Sound
  lossless : (l.conversation n).Lossless l.now c
  recent : ∀ e, l.now < (c e.other).lastReceived + (l.config e).keepAliveInterval

/-- The keep-alive intervals fit the timeouts, when time goes in steps up to a limit. -/
def KeepsAlive (l : Link) (limit : Nat) : Prop :=
  ∀ e, 0 < (l.config e).keepAliveInterval ∧
    (l.config e).keepAliveInterval + limit ≤ (l.config e.other).disconnectTimeout

theorem gentle_wait {s : Stroke} (regular : s.Regular) : ∀ op ∈ s.wait, op.isGentle = true := by
  intro op mem
  rcases List.mem_append.mp mem with early | last
  · have paused := regular op early
    cases op with
    | pass | write => rfl
    | _ => cases paused
  · rw [List.mem_singleton.mp last]
    rfl

section Stroke

variable {s : Stroke} {limit : Nat}

/-- No tick of a stroke finds its peer silent for too long. -/
theorem verdict?_of_inTouch (inTouch : l.InTouch n c) (alive : l.KeepsAlive limit)
    (regular : s.Regular) (timely : s.duration ≤ limit) (e : End) :
    s.verdict? l n e ≠ some .timeout := by
  obtain ⟨sound, now, c', lossless, ages⟩ :=
    lossless_run inTouch.sound inTouch.lossless (gentle_wait regular)
  have config := config_run s.wait l
  have recent : (run s.wait l).value.now < (c' e).lastReceived + (l.config e).disconnectTimeout := by
    have before := inTouch.recent e.other
    have fits := (alive e.other).2
    rw [End.other_other] at before fits
    have later := (ages e).received
    rw [now]
    unfold Stroke.duration at timely
    omega
  cases e with
  | a =>
    rw [← config] at recent
    exact verdict?_ne_timeout (lossless.here .a) (lossless.received .a) recent
  | b =>
    have here := (channel?_tick_other sound .a n).trans (lossless.here .b)
    have still : ((run s.wait l).value.apply (.tick .a)).value.now = (run s.wait l).value.now :=
      now_of_request rfl
    rw [← config, ← config_apply _ (.tick .a), ← still] at recent
    have past := lossless.received .b
    rw [← still] at past
    rw [Stroke.verdict?, value_run_append]
    exact verdict?_ne_timeout here past recent

/-- A stroke that destroys no channel leaves the ends in touch. -/
theorem InTouch.stroke (inTouch : l.InTouch n c) (alive : l.KeepsAlive limit)
    (regular : s.Regular) (kept : ∀ e, s.verdict? l n e = none) :
    ∃ c', (s.run l).value.InTouch n c' ∧ ∀ e, (c e).Ages (c' e) := by
  have keptA := kept .a
  have keptB := kept .b
  rw [Stroke.verdict?] at keptA
  rw [Stroke.verdict?, value_run_append] at keptB
  have config₁ (e : End) : (run s.wait l).value.config e = l.config e := config_run s.wait l e
  have config (e : End) : (s.run l).value.config e = l.config e := by
    rw [s.run_eq]
    exact config_run _ l e
  obtain ⟨sound₁, -, c₁, lossless₁, ages₁⟩ :=
    lossless_run inTouch.sound inTouch.lossless (gentle_wait regular)
  obtain ⟨sound₂, still₂, c₂, lossless₂, ages₂, sent⟩ :=
    lossless_ticks sound₁ lossless₁ (fun e => by rw [config₁]; exact (alive e).1) keptA keptB
  rw [← value_run_append] at sound₂ still₂ lossless₂
  obtain ⟨sound₃, still₃, c₃, lossless₃, ages₃, heard⟩ := lossless_roundTrip sound₂ lossless₂
  rw [← value_run_append, ← s.run_eq] at sound₃ still₃ lossless₃
  refine ⟨c₃, ⟨sound₃, lossless₃, fun e => ?_⟩,
    fun e => ((ages₁ e).trans (ages₂ e)).trans (ages₃ e)⟩
  have sent := sent e
  have heard := heard e
  rw [config₁] at sent
  rw [still₃, still₂, config]
  omega

theorem inTouch_pump {ss : List Stroke} (inTouch : l.InTouch n c) (alive : l.KeepsAlive limit)
    (timely : ∀ s ∈ ss, s.Regular ∧ s.duration ≤ limit) (lasts : Lasts n ss l) :
    ∃ c', (pump ss l).value.InTouch n c' ∧ (pump ss l).value.KeepsAlive limit ∧
      ∀ e, (c e).Ages (c' e) := by
  induction ss generalizing l c with
  | nil => exact ⟨c, inTouch, alive, fun e => .refl _⟩
  | cons s ss ih =>
    obtain ⟨reasons, lasts⟩ := lasts
    obtain ⟨regular, short⟩ := timely s List.mem_cons_self
    -- A channel could only be destroyed by a timeout, and there is none.
    have kept (e : End) : s.verdict? l n e = none := by
      refine Option.eq_none_iff_forall_ne_some.mpr fun reason destroyed => ?_
      have timeout := reasons e reason destroyed
      rw [timeout] at destroyed
      exact verdict?_of_inTouch inTouch alive regular short e destroyed
    obtain ⟨c', inTouch', ages⟩ := inTouch.stroke alive regular kept
    have alive' : (s.run l).value.KeepsAlive limit := by
      intro e
      rw [s.run_eq, config_run, config_run]
      exact alive e
    obtain ⟨c'', inTouch'', alive'', ages'⟩ :=
      ih inTouch' alive' (fun s mem => timely s (List.mem_cons_of_mem _ mem)) lasts
    exact ⟨c'', inTouch'', alive'', fun e => (ages e).trans (ages' e)⟩

end Stroke

/-- Both ends have a channel with this number, and each has just heard from the other one. -/
def Met (n : UInt8) (l : Link) : Prop :=
  ∀ e, ∃ c, l.channel? e n = some c ∧ c.lastSent ≤ l.now ∧ c.lastReceived = l.now

theorem Met.inTouch (met : l.Met n) (sound : l.Sound)
    (positive : ∀ e, 0 < (l.config e).keepAliveInterval) : ∃ c, l.InTouch n c := by
  obtain ⟨c, hereA, sentA, receivedA⟩ := met .a
  obtain ⟨d, hereB, sentB, receivedB⟩ := met .b
  refine ⟨fun e => match e with | .a => c | .b => d, sound, ⟨?_, ?_, ?_, ?_⟩, ?_⟩
  · intro e
    cases e with
    | a => exact hereA
    | b => exact hereB
  · intro e
    cases e with
    | a => exact sentA
    | b => exact sentB
  · intro e
    cases e with
    | a => exact Nat.le_of_eq receivedA
    | b => exact Nat.le_of_eq receivedB
  · intro e
    cases e with
    | a => exact .inl (Nat.le_trans sentA (Nat.le_of_eq receivedB.symm))
    | b => exact .inl (Nat.le_trans sentB (Nat.le_of_eq receivedA.symm))
  · intro e
    have := positive e
    cases e with
    | a =>
      show l.now < d.lastReceived + _
      omega
    | b =>
      show l.now < c.lastReceived + _
      omega

/-- Two ends that have met do not time out, whatever strokes follow, if no stroke takes longer than
a limit that fits between each end's keep-alive interval and the other end's timeout. Their channels
live on through all strokes that destroy none of them for another reason. -/
theorem no_timeout {limit : Nat} {ss : List Stroke} {s : Stroke} (sound : l.Sound) (met : l.Met n)
    (alive : ∀ e, 0 < (l.config e).keepAliveInterval ∧
      (l.config e).keepAliveInterval + limit ≤ (l.config e.other).disconnectTimeout)
    (timely : ∀ s' ∈ ss ++ [s], s'.Regular ∧ s'.duration ≤ limit) (lasts : Lasts n ss l) :
    (∀ e, s.verdict? (pump ss l).value n e ≠ some .timeout) ∧
      ∀ e, ((pump ss l).value.channel? e n).map (·.generation) =
        (l.channel? e n).map (·.generation) := by
  obtain ⟨c, inTouch⟩ := met.inTouch sound fun e => (alive e).1
  obtain ⟨before, last⟩ := List.forall_mem_append.mp timely
  obtain ⟨regular, short⟩ := last s (List.mem_singleton.mpr rfl)
  obtain ⟨c', inTouch', alive', ages⟩ := inTouch_pump inTouch alive before lasts
  refine ⟨verdict?_of_inTouch inTouch' alive' regular short, fun e => ?_⟩
  have here : l.channel? e n = some (c e) := inTouch.lossless.here e
  have here' : (pump ss l).value.channel? e n = some (c' e) := inTouch'.lossless.here e
  rw [here, here', Option.map_some, Option.map_some, (ages e).generation]

/-- Two ends that have pinged each other. -/
def acquainted : Link := (run [.connect .a 1, .deliver .a 0, .deliver .b 0] pair).value

/-- Two strokes that take longer than the timeout. Nothing is sent in the first but pings. -/
def idling : List Stroke :=
  [{ step := 2 * second },
    { pause := [.pass second, .write .a 1 1 ⟨0, [1]⟩], step := second }]

theorem met_acquainted : acquainted.Met 1 := by
  intro e
  have both : (acquainted.channel? e 1).any (fun c =>
      decide (c.lastSent ≤ acquainted.now ∧ c.lastReceived = acquainted.now)) = true := by
    cases e <;> decide +kernel
  obtain ⟨c, here, dates⟩ := (Option.any_eq_true _ _).mp both
  exact ⟨c, here, of_decide_eq_true dates⟩

theorem lasts_idling : Lasts 1 idling acquainted := by
  have none (s : Stroke) (l : Link) (kept : ∀ e, s.verdict? l 1 e = none) :
      ∀ e reason, s.verdict? l 1 e = some reason → reason = .timeout := by
    intro e reason destroyed
    rw [kept e] at destroyed
    cases destroyed
  exact ⟨none _ _ fun e => by cases e <;> decide +kernel,
    none _ _ fun e => by cases e <;> decide +kernel, trivial⟩

theorem no_timeout_of_idling :
    (∀ e, Stroke.verdict? { step := 2 * second } (pump idling acquainted).value 1 e ≠
        some .timeout) ∧
      ∀ e, ((pump idling acquainted).value.channel? e 1).map (·.generation) = some 1 := by
  have sound : acquainted.Sound := fresh_pair.sound.run (by decide)
  have timely : ∀ s ∈ idling ++ [{ step := 2 * second }], s.Regular ∧ s.duration ≤ 2 * second := by
    decide
  obtain ⟨silent, lives⟩ := no_timeout sound met_acquainted (fun e => by cases e <;> decide) timely
    lasts_idling
  refine ⟨silent, fun e => (lives e).trans ?_⟩
  cases e <;> decide +kernel

end Link

end ReliableDatagram
