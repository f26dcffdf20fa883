import ReliableDatagram.Proofs.Channel.Directions
import ReliableDatagram.Proofs.Link.Conversation

/-!
# Episodes of a conversation

Every operation of a link is an episode of the conversation on each channel number: it is about
something else, it makes one of the two channels move, it ends the life of one, or it makes one
end forget everything.
-/

namespace ReliableDatagram.Link

open Channel

variable {l : Link} {e x : End} {n : UInt8}

@[simp] theorem side_setSide_self (l : Link) (e : End) (s : Side) : (l.setSide e s).side e = s := by
  cases e <;> rfl

@[simp] theorem side_setSide_other (l : Link) (e : End) (s : Side) :
    (l.setSide e s).side e.other = l.side e.other := by cases e <;> rfl

theorem side_setSide (l : Link) (e x : End) (s : Side) :
    (l.setSide e s).side x = if x = e then s else l.side x := by
  cases e <;> cases x <;> rfl

@[simp] theorem now_setSide (l : Link) (e : End) (s : Side) : (l.setSide e s).now = l.now := by
  cases e <;> rfl

theorem setSide_side (l : Link) (e : End) : l.setSide e (l.side e) = l := by cases e <;> rfl

/-- What the callers of a link make sure of: channel numbers are in range. -/
def Op.Sound : Op → Prop
  | .connect _ channel => channel ≤ Packet.maxChannel
  | _ => True

def Sound (l : Link) : Prop := ∀ e, (l.side e).table.Sound (l.side e.other).addr

/-- The network's part of an operation. -/
def prepare (l : Link) : Op → Link
  | .pass duration => l.pass duration
  | .deliver e i | .lose e i => (l.lose e i).2
  | .restart e base => (l.restart e base).2
  | _ => l

/-- The request that an operation makes of one end's table. -/
def request? (l : Link) : Op → Option (End × Table.Request)
  | .connect e channel => some (e, .connect (l.key e channel))
  | .write e channel generation w => some (e, .write (l.key e channel) generation w)
  | .close e channel generation => some (e, .close (l.key e channel) generation)
  | .tick e => some (e, .tick)
  | .deliver e i | .copy e i =>
    (l.side e).flying[i]?.map fun bytes => (e.other, .datagram (l.side e).addr bytes)
  | _ => none

@[simp] theorem addr_lose (l : Link) (e x : End) (i : Nat) :
    ((l.lose e i).2.side x).addr = (l.side x).addr := by
  simp only [lose, side_setSide]
  split
  · next own => rw [own]
  · rfl

@[simp] theorem table_lose (l : Link) (e x : End) (i : Nat) :
    ((l.lose e i).2.side x).table = (l.side x).table := by
  simp only [lose, side_setSide]
  split
  · next own => rw [own]
  · rfl

theorem flying_lose (l : Link) (e x : End) (i : Nat) :
    ((l.lose e i).2.side x).flying.Sublist (l.side x).flying := by
  simp only [lose, side_setSide]
  split
  · next own =>
    rw [own]
    exact List.eraseIdx_sublist _ _
  · exact .refl _

theorem apply_of_request {op : Op} {r : Table.Request} (asked : l.request? op = some (e, r)) :
    l.apply op = Prod.snd <$> (l.prepare op).perform e r := by
  cases op with
  | deliver from' i =>
    simp only [request?] at asked
    obtain ⟨bytes, found, same⟩ := Option.map_eq_some_iff.mp asked
    obtain ⟨rfl, rfl⟩ := Prod.mk.inj same
    simp only [apply, deliver, found, prepare, arrive, addr_lose]
    rfl
  | copy from' i =>
    simp only [request?] at asked
    obtain ⟨bytes, found, same⟩ := Option.map_eq_some_iff.mp asked
    obtain ⟨rfl, rfl⟩ := Prod.mk.inj same
    simp only [apply, copy, found, prepare, arrive]
    rfl
  | connect | write | close | tick =>
    simp only [request?, Option.some.injEq, Prod.mk.injEq] at asked
    obtain ⟨rfl, rfl⟩ := asked
    rfl
  | pass | lose | restart => cases asked

theorem lose_missing {i : Nat} (missing : (l.side e).flying[i]? = none) : (l.lose e i).2 = l := by
  have beyond : (l.side e).flying.length ≤ i := List.getElem?_eq_none_iff.mp missing
  simp only [lose, List.eraseIdx_of_length_le beyond]
  exact setSide_side l e

theorem apply_of_no_request {op : Op} (none : l.request? op = none) :
    l.apply op = pure (l.prepare op) := by
  cases op with
  | deliver from' i =>
    have missing : (l.side from').flying[i]? = Option.none := by simpa [request?] using none
    simp only [apply, deliver, missing, prepare, lose_missing missing]
    rfl
  | copy from' i =>
    have missing : (l.side from').flying[i]? = Option.none := by simpa [request?] using none
    simp only [apply, copy, missing, prepare]
    rfl
  | connect | write | close | tick => cases none
  | pass | lose | restart => rfl

@[simp] theorem key_perform (l : Link) (e x : End) (r : Table.Request) (n : UInt8) :
    (l.perform e r).value.2.key x n = l.key x n := by
  cases e <;> cases x <;> rfl

theorem conversation_perform (sound : l.Sound) (e : End) (r : Table.Request) (n : UInt8) :
    (l.perform e r).value.2.conversation n =
      (l.conversation n).turn e ((l.side e).table.slot l.now (l.key e n) r).value
        ((voice n ((l.side e).table.perform l.now r).log).filterMap Effect.packet?) := by
  have channels : ∀ x, (l.perform e r).value.2.channel? x n =
      if x = e then ((l.side e).table.slot l.now (l.key e n) r).value else l.channel? x n := by
    intro x
    unfold channel?
    rw [key_perform]
    simp only [perform, launch, side_setSide]
    by_cases own : x = e
    · subst own
      rw [if_pos rfl, if_pos rfl]
      exact Table.find?_perform (sound x) l.now r _
    · rw [if_neg own, if_neg own]
  have airs : ∀ x, (l.perform e r).value.2.air x n =
      if x = e then l.air e n ++
        (voice n ((l.side e).table.perform l.now r).log).filterMap Effect.packet?
      else l.air x n := by
    intro x
    unfold air
    simp only [perform, launch, side_setSide]
    by_cases own : x = e
    · rw [if_pos own, if_pos own]
      dsimp only
      rw [packetsOn_append, packetsOn_datagrams]
    · rw [if_neg own, if_neg own]
  unfold conversation Conversation.turn
  rw [Conversation.mk.injEq]
  exact ⟨funext channels, funext airs⟩

theorem said_perform (l : Link) (e x : End) (r : Table.Request) (n : UInt8) :
    said x n (l.perform e r).log =
      if x = e then voice n ((l.side e).table.perform l.now r).log else [] :=
  said_map e x n _

theorem Sound.perform (sound : l.Sound) {r : Table.Request}
    (asked : r.Sound (l.side e.other).addr) : (l.perform e r).value.2.Sound := by
  intro x
  have addr : ∀ y, ((l.perform e r).value.2.side y).addr = (l.side y).addr := by
    intro y
    simp only [Link.perform, launch, side_setSide]
    split
    · next own => rw [own]
    · rfl
  rw [addr]
  simp only [Link.perform, launch, side_setSide]
  by_cases own : x = e
  · subst own
    rw [if_pos rfl]
    exact (sound x).perform l.now asked
  · rw [if_neg own]
    exact sound x

theorem prepare_addr (l : Link) (op : Op) (x : End) :
    ((l.prepare op).side x).addr = (l.side x).addr := by
  cases op with
  | deliver | lose => exact addr_lose l _ x _
  | restart e base =>
    simp only [prepare, restart, side_setSide]
    split
    · next own => rw [own]
    · rfl
  | _ => rfl

theorem Sound.prepare (sound : l.Sound) (op : Op) : (l.prepare op).Sound := by
  intro x
  rw [prepare_addr]
  cases op with
  | deliver from' i | lose from' i =>
    show ((l.lose from' i).2.side x).table.Sound _
    rw [table_lose]
    exact sound x
  | restart from' base =>
    simp only [Link.prepare, restart, side_setSide]
    split
    · exact Table.sound_empty _ _ rfl
    · exact sound x
  | _ => exact sound x

theorem sound_request {op : Op} (known : op.Sound) {r : Table.Request}
    (asked : l.request? op = some (e, r)) : r.Sound (l.side e.other).addr := by
  cases op with
  | deliver | copy =>
    obtain ⟨bytes, found, same⟩ := Option.map_eq_some_iff.mp asked
    obtain ⟨rfl, rfl⟩ := Prod.mk.inj same
    show _ = _
    rw [End.other_other]
  | connect =>
    simp only [request?, Option.some.injEq, Prod.mk.injEq] at asked
    obtain ⟨rfl, rfl⟩ := asked
    exact ⟨rfl, known⟩
  | write | close | tick =>
    simp only [request?, Option.some.injEq, Prod.mk.injEq] at asked
    obtain ⟨rfl, rfl⟩ := asked
    trivial
  | pass | lose | restart => cases asked

theorem Sound.apply (sound : l.Sound) {op : Op} (known : op.Sound) : (l.apply op).value.Sound := by
  cases asked : l.request? op with
  | none =>
    rw [apply_of_no_request asked]
    exact sound.prepare op
  | some request =>
    rw [apply_of_request asked]
    refine (sound.prepare op).perform ?_
    rw [prepare_addr]
    exact sound_request known asked

/-- The payload of a write on this channel number at this end, unless the write is turned away. -/
def accepts (l : Link) (x : End) (n : UInt8) : Op → List Bytes
  | .write e channel generation w =>
    if e = x ∧ channel = n ∧ (l.apply (.write e channel generation w)).log.any
        (fun entry => entry.2.refuses w.ticket) = false then [w.payload]
    else []
  | _ => []

/-- The data packets with this channel number that an operation brings to the end `x`. -/
def brings (l : Link) (x : End) (n : UInt8) (op : Op) : List Packet :=
  match l.request? op with
  | some (e, r) => if x = e then Table.hears (l.key e n) r else []
  | none => []

inductive Episode (n : UInt8) (l : Link) (op : Op) : Prop
  | still (view : ((l.apply op).value.conversation n).Within (l.conversation n))
      (silent : ∀ x, said x n (l.apply op).log = []) (accepts : ∀ x, l.accepts x n op = [])
      (brings : ∀ x, l.brings x n op = [])
  | act {e : End} {asked : Channel.Op} {c c' : Channel} {log : List Effect}
      {ws : List ParkedWrite} (offered : (l.side e).table.Offers l.now (l.key e n) c)
      (heard : ∀ p, asked = .packet p → p ∈ l.air e.other n) (sound : c.Sound)
      (known : asked.Sound (l.key e n)) (exact : c.apply (l.context e) asked = ⟨c', log⟩)
      (moves : Moves (l.context e) asked c log ws c')
      (view : ((l.apply op).value.conversation n).Within
        ((l.conversation n).turn e (some c') (log.filterMap Effect.packet?)))
      (speech : ∀ x, said x n (l.apply op).log = if x = e then voice n log else [])
      (accepts : ∀ x, l.accepts x n op = if x = e then ws.map (·.payload) else [])
      (brings : ∀ x, l.brings x n op = if x = e then asked.data else [])
  | leave {e : End} {c c' : Channel} {log : List Effect} {reason : DisconnectReason}
      (found : l.channel? e n = some c) (sound : c.Sound)
      (moves : Moves (l.context e) .tick c log [] c')
      (view : ((l.apply op).value.conversation n).Within
        ((l.conversation n).turn e none (log.filterMap Effect.packet?)))
      (speech : ∀ x, said x n (l.apply op).log =
        if x = e then voice n (log ++ (c'.destroy reason).log) else [])
      (accepts : ∀ x, l.accepts x n op = []) (brings : ∀ x, l.brings x n op = [])
  | forget {e : End} {base : UInt32} (restart : op = .restart e base)
      (view : ((l.apply op).value.conversation n).Within ((l.conversation n).turn e none []))
      (silent : ∀ x, said x n (l.apply op).log = []) (accepts : ∀ x, l.accepts x n op = [])
      (brings : ∀ x, l.brings x n op = [])

theorem prepare_table {op : Op} {r : Table.Request} (asked : l.request? op = some (e, r)) (x : End) :
    ((l.prepare op).side x).table = (l.side x).table := by
  cases op with
  | deliver => exact table_lose l _ x _
  | pass | lose | restart => cases asked
  | _ => rfl

theorem prepare_now {op : Op} {r : Table.Request} (asked : l.request? op = some (e, r)) :
    (l.prepare op).now = l.now := by
  cases op with
  | deliver from' i => exact now_setSide l from' _
  | pass | lose | restart => cases asked
  | _ => rfl

theorem key_prepare (l : Link) (op : Op) (x : End) (n : UInt8) :
    (l.prepare op).key x n = l.key x n := by
  simp only [key, prepare_addr]

theorem air_prepare (l : Link) (op : Op) (x : End) :
    ((l.prepare op).air x n).Sublist (l.air x n) := by
  cases op with
  | deliver | lose => exact packetsOn_sublist (flying_lose l _ x _)
  | restart from' base =>
    refine packetsOn_sublist ?_
    simp only [prepare, restart, side_setSide]
    split
    · next own =>
      subst own
      exact .refl _
    · exact .refl _
  | _ => exact .refl _

theorem within_prepare {op : Op} {r : Table.Request} (asked : l.request? op = some (e, r)) :
    ((l.prepare op).conversation n).Within (l.conversation n) := by
  refine ⟨fun x => ?_, fun x => air_prepare l op x⟩
  show ((l.prepare op).side x).table.find? _ = (l.side x).table.find? _
  rw [prepare_table asked, key_prepare]

theorem any_refuses_perform (l : Link) (e : End) (r : Table.Request) (ticket : Nat) :
    (l.perform e r).log.any (fun entry => entry.2.refuses ticket) =
      ((l.side e).table.perform l.now r).log.any (Effect.refuses ticket) := by
  show (List.map _ _).any _ = _
  rw [List.any_map]
  rfl

theorem accepts_of_request {op : Op} {r : Table.Request} (asked : l.request? op = some (e, r))
    (x : End) :
    l.accepts x n op =
      if x = e then ((l.side e).table.takes l.now (l.key e n) r).map (·.payload) else [] := by
  cases op with
  | write e' channel generation w =>
    simp only [request?, Option.some.injEq, Prod.mk.injEq] at asked
    obtain ⟨rfl, rfl⟩ := asked
    have refusals : (l.apply (.write e' channel generation w)).log.any
        (fun entry => entry.2.refuses w.ticket) =
          ((l.side e').table.write l.now (l.key e' channel) generation w).log.any
            (Effect.refuses w.ticket) :=
      any_refuses_perform l e' (.write (l.key e' channel) generation w) w.ticket
    have keys : l.key e' channel = l.key e' n ↔ channel = n :=
      ⟨fun same => congrArg Key.channel same, fun same => by rw [same]⟩
    simp only [accepts, Table.takes, refusals, keys]
    by_cases own : x = e'
    · subst own
      simp only [true_and, if_true]
      split <;> rfl
    · rw [if_neg own, if_neg fun both => own both.1.symm]
  | deliver | copy =>
    obtain ⟨bytes, _, same⟩ := Option.map_eq_some_iff.mp asked
    obtain ⟨rfl, rfl⟩ := Prod.mk.inj same
    split <;> rfl
  | connect | close | tick =>
    simp only [request?, Option.some.injEq, Prod.mk.injEq] at asked
    obtain ⟨rfl, rfl⟩ := asked
    split <;> rfl
  | pass | lose | restart => cases asked

theorem episode_of_no_request {op : Op} (none : l.request? op = none) : Episode n l op := by
  have apply := apply_of_no_request none
  have silent : ∀ x, said x n (l.apply op).log = [] := by
    intro x
    rw [apply]
    rfl
  have brings : ∀ x, l.brings x n op = [] := by
    intro x
    simp only [Link.brings, none]
  cases op with
  | pass => exact .still (.refl _) silent (fun _ => rfl) brings
  | lose e i | deliver e i =>
    refine .still ?_ silent (fun _ => rfl) brings
    rw [apply]
    refine ⟨fun x => ?_, fun x => air_prepare l _ x⟩
    show ((l.lose e i).2.side x).table.find? ((l.prepare (.lose e i)).key x n) = _
    rw [table_lose, key_prepare]
    rfl
  | copy e i =>
    refine .still ?_ silent (fun _ => rfl) brings
    rw [apply]
    exact .refl _
  | restart e base =>
    refine .forget rfl ?_ silent (fun _ => rfl) brings
    refine ⟨fun x => ?_, fun x => ?_⟩
    · show ((l.restart e base).2.side x).table.find? ((l.prepare (.restart e base)).key x n) = _
      rw [key_prepare]
      simp only [restart, side_setSide, Conversation.turn]
      split
      · rfl
      · rfl
    · have fewer : ((l.restart e base).2.air x n).Sublist (l.air x n) :=
        air_prepare l (.restart e base) x
      simp only [Conversation.turn, List.append_nil]
      split
      · next own =>
        subst own
        exact fewer
      · exact fewer
  | connect | write | close | tick => cases none

/-- A packet that a request is about was in the air. -/
theorem heard_of_request {op : Op} {sender : SocketAddr} {bytes : Bytes} {p : Packet}
    (asked : l.request? op = some (e, .datagram sender bytes)) (parsed : Packet.parse bytes = .ok p)
    (own : p.header.channel = n) : p ∈ l.air e.other n := by
  have found (x : End) (i : Nat) (asked : ((l.side x).flying[i]?.map fun bytes =>
      (x.other, Table.Request.datagram (l.side x).addr bytes)) = some (e, .datagram sender bytes)) :
      p ∈ l.air e.other n := by
    obtain ⟨bytes', found, same⟩ := Option.map_eq_some_iff.mp asked
    obtain ⟨rfl, same⟩ := Prod.mk.inj same
    cases same
    rw [End.other_other, ← own]
    exact mem_packetsOn (List.mem_of_getElem? found) parsed
  cases op with
  | deliver x i => exact found x i asked
  | copy x i => exact found x i asked
  | connect | write | close | tick =>
    simp only [request?, Option.some.injEq, Prod.mk.injEq, reduceCtorEq, and_false] at asked
  | pass | lose | restart => cases asked

/-- What an operation that makes a request does to a conversation is what the request does to the
channel at the end that is asked. -/
theorem conversation_apply (sound : l.Sound) {op : Op} (known : op.Sound) {r : Table.Request}
    (asked : l.request? op = some (e, r)) (n : UInt8) :
    (l.apply op).value.conversation n =
        ((l.prepare op).conversation n).turn e ((l.side e).table.slot l.now (l.key e n) r).value
          ((voice n ((l.side e).table.slot l.now (l.key e n) r).log).filterMap Effect.packet?) ∧
      ∀ x, said x n (l.apply op).log =
        if x = e then voice n ((l.side e).table.slot l.now (l.key e n) r).log else [] := by
  have own := sound_request known asked
  have voices : voice n ((l.side e).table.perform l.now r).log =
      voice n ((l.side e).table.slot l.now (l.key e n) r).log :=
    Table.voice_perform (sound e) l.now own n
  have view := conversation_perform (sound.prepare op) e r n
  have speech : ∀ x, said x n ((l.prepare op).perform e r).log = _ :=
    fun x => said_perform (l.prepare op) e x r n
  have after : (l.apply op).value = ((l.prepare op).perform e r).value.2 := by
    rw [apply_of_request asked]
    rfl
  have log : (l.apply op).log = ((l.prepare op).perform e r).log := by
    rw [apply_of_request asked]
    rfl
  rw [prepare_table asked, prepare_now asked, key_prepare, voices, ← after] at view
  simp only [prepare_table asked, prepare_now asked, voices, ← log] at speech
  exact ⟨view, speech⟩

/-- A tick leaves the channel at the other end alone. -/
theorem channel?_tick_other (sound : l.Sound) (x : End) (n : UInt8) :
    (l.apply (.tick x)).value.channel? x.other n = l.channel? x.other n := by
  have known : (Op.tick x).Sound := trivial
  have view := (conversation_apply sound known rfl n).1
  exact (congrArg (·.channel? x.other) view).trans (Conversation.turn_channel?_other _ x _ _)

/-- What a channel sends is all in its voice. -/
theorem packets_voice {key : Key} {log : List Effect} (speaks : ∀ y ∈ log, y.Speaks key)
    (own : key.channel = n) :
    (voice n log).filterMap Effect.packet? = log.filterMap Effect.packet? :=
  filterMap_voice (fun _ _ => rfl) speaks own

/-- Every operation of a sound link is an episode of the conversation on every number. -/
theorem episode (sound : l.Sound) {op : Op} (known : op.Sound) (n : UInt8) : Episode n l op := by
  cases asked : l.request? op with
  | none => exact episode_of_no_request asked
  | some request =>
    obtain ⟨e, r⟩ := request
    have within := within_prepare (n := n) asked
    have accepts := accepts_of_request (n := n) asked
    have brings : ∀ x, l.brings x n op = if x = e then Table.hears (l.key e n) r else [] := by
      intro x
      simp only [Link.brings, asked]
    obtain ⟨view, speech⟩ := conversation_apply sound known asked n
    have turn := Table.turn_slot (sound e) l.now (l.key e n) (sound_request known asked)
    generalize (l.side e).table.slot l.now (l.key e n) r = x at turn view speech
    generalize (l.side e).table.takes l.now (l.key e n) r = ws at turn accepts
    generalize Table.hears (l.key e n) r = ps at turn brings
    cases turn with
    | idle =>
      refine .still ?_ (fun x => (speech x).trans (by split <;> rfl))
        (fun x => (accepts x).trans (by split <;> rfl))
        fun x => (brings x).trans (by split <;> rfl)
      rw [view]
      have same := within.turn e ((l.conversation n).channel? e) []
      rwa [(l.conversation n).turn_self e] at same
    | @act cop c c' log ws offered asks cSound known exact moves =>
      have speaks := moves.speaks cSound (by rwa [offered.key_eq])
      rw [packets_voice speaks (by rw [offered.key_eq]; rfl)] at view
      refine .act offered ?_ cSound known exact moves ?_ speech accepts brings
      · rintro p rfl
        cases asks with
        | packet parsed => exact heard_of_request asked parsed known.2
      · rw [view]
        exact within.turn e _ _
    | @leave c c' log reason found cSound moves =>
      have key := (Table.mem_of_find? found).2
      have speaks := moves.speaks cSound trivial
      have farewell : (c'.destroy reason).log.filterMap Effect.packet? = [] :=
        packets_destroy c' reason
      have packets : (voice n (log ++ (c'.destroy reason).log)).filterMap Effect.packet? =
          log.filterMap Effect.packet? := by
        rw [voice_append, List.filterMap_append, packets_voice speaks (by rw [key]; rfl),
          packets_voice (Table.speaks_destroy c' reason) (by rw [moves.key, key]; rfl),
          farewell, List.append_nil]
      rw [packets] at view
      refine .leave found cSound moves ?_ speech (fun x => (accepts x).trans (by split <;> rfl))
        fun x => (brings x).trans (by split <;> rfl)
      rw [view]
      exact within.turn e _ _

/-- A channel whose life ended is not there afterwards. -/
theorem not_kept {op : Op} {sent : List Packet}
    (view : ((l.apply op).value.conversation n).Within ((l.conversation n).turn x none sent))
    (kept : ((l.apply op).value.channel? x n).isSome) : False := by
  have gone : (l.apply op).value.channel? x n = none :=
    (view.channel? x).trans (Conversation.turn_channel?_self _ x _ _)
  rw [gone] at kept
  cases kept

end ReliableDatagram.Link
