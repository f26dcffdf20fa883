import ReliableDatagram.Proofs.Channel.Tally
import ReliableDatagram.Proofs.Table.Accounts
import ReliableDatagram.Proofs.Table.Deeds
import ReliableDatagram.Proofs.Table.Generations

/-!
# Statistics add up

The statistics of a channel tell what happened in its life, which began when a table created it. What
a step has the channels do are the parts of its log.
-/

namespace ReliableDatagram.Table

open Channel

variable {config : Config} {clock : Clock} {t : Table} {key : Key} {g now : Nat} {op : Op}

def Concern.packet? : Concern → Option Packet
  | .packet p => some p
  | _ => none

/-- What a step means for the channel with a key, which it may have to create. -/
def scene (key : Key) (t : Table) (now : Nat) (op : Op) : Scene where
  packet? := (t.concern? key op).bind Concern.packet?
  intake := (t.find? key).elim { key := key } Channel.intake
  log := (t.part now key op).log

/-- The scenes in the life of a generation. -/
def scenes (key : Key) (g : Nat) (ops : List (Nat × Op)) (t : Table) : List Scene :=
  overLife key g (fun t now op => [scene key t now op]) ops t

section Life

variable {α : Type} {view : Table → Nat → Op → List α}

theorem overLife_append (ops ops' : List (Nat × Op)) (t : Table) :
    overLife key g view (ops ++ ops') t =
      overLife key g view ops t ++ overLife key g view ops' (run ops t).value := by
  induction ops generalizing t with
  | nil => rfl
  | cons step ops ih =>
    simp only [List.cons_append, overLife, ih, List.append_assoc]
    rfl

/-- A generation to come has no life yet. -/
theorem overLife_of_unborn (ops : List (Nat × Op)) (settled : t.Settled)
    (later : (run ops t).value.nextGeneration ≤ g) : overLife key g view ops t = [] := by
  induction ops generalizing t with
  | nil => rfl
  | cons step ops ih =>
    obtain ⟨now, op⟩ := step
    have settled' := settled_apply settled now op
    have next : (t.apply now op).value.nextGeneration ≤ g :=
      Nat.le_trans (nextGeneration_run_le ops _) later
    have before : t.live? key g = none :=
      settled.unborn (Nat.le_trans (nextGeneration_le t now op) next)
    have after : (t.apply now op).value.live? key g = none := settled'.unborn next
    rw [overLife_cons_of_absent ops (by simp [before, after])]
    exact ih settled' later

end Life

section Run

theorem lasting_labelled (config : Config) (clock : Clock) : Lasting config clock Labelled where
  create key generation now := labelled_create key generation config now
  apply now cop _ labelled := labelled.apply ⟨now, config, clock⟩ cop

theorem lasting_distinct (config : Config) (clock : Clock) :
    Lasting config clock fun c => c.receiver.early.Distinct where
  create _ _ _ := ReceiveQueue.distinct_empty
  apply now cop c distinct := by
    rcases apply_cases ⟨now, config, clock⟩ cop c with ⟨_, moves⟩ | ⟨reason, rfl⟩
    · exact moves.distinct distinct
    · exact ReceiveQueue.distinct_empty

theorem setup_run (ops : List (Nat × Op)) (t : Table) :
    (run ops t).value.config = t.config ∧ (run ops t).value.clock = t.clock := by
  induction ops generalizing t with
  | nil => exact ⟨rfl, rfl⟩
  | cons step ops ih =>
    obtain ⟨now, op⟩ := step
    obtain ⟨config, clock⟩ := setup_apply t now op
    obtain ⟨config', clock'⟩ := ih (t.apply now op).value
    exact ⟨config'.trans config, clock'.trans clock⟩

theorem packet?_of_asks {q : Concern} {cop : Channel.Op} (asks : q.Asks cop) :
    q.packet? = cop.packet? := by
  cases asks <;> rfl

theorem isDestroy_of_asks {q : Concern} {cop : Channel.Op} (asks : q.Asks cop) :
    cop.isDestroy = false := by
  cases asks <;> rfl

theorem generation_apply {ctx : Context} {cop : Channel.Op} (alive : cop.isDestroy = false)
    (c : Channel) : (c.apply ctx cop).value.generation = c.generation := by
  rcases apply_cases ctx cop c with ⟨_, moves⟩ | ⟨reason, rfl⟩
  · exact moves.generation
  · cases alive

/-- A step in which a channel acts is the scene of what it does. -/
theorem scene_eq_sceneOf {q : Concern} {cop : Channel.Op} {c c' : Channel}
    (asked : t.concern? key op = some q) (asks : q.Asks cop)
    (begun : t.find? key = some c ∨
      t.find? key = none ∧ c = Channel.create key t.nextGeneration t.config now)
    (done : c.apply (t.context now) cop = ⟨c', (t.part now key op).log⟩) :
    scene key t now op = sceneOf (t.context now) c cop := by
  have intake : (t.find? key).elim { key := key } Channel.intake = c.intake := by
    rcases begun with found | ⟨missing, rfl⟩
    · rw [found]
      rfl
    · rw [missing]
      rfl
  rw [scene, sceneOf, intake, asked, done, ← packet?_of_asks asks]
  rfl

/-- A step goes on with the life of a channel, or it begins one. -/
theorem addsUp_part {window : Nat} (lives : Nat → List Scene) {c' : Channel}
    (width : t.config.receiveWindow = window)
    (labelled : ∀ c, t.find? key = some c → c.Labelled)
    (distinct : ∀ c, t.find? key = some c → c.receiver.early.Distinct)
    (unborn : lives t.nextGeneration = [])
    (before : ∀ c, t.find? key = some c → AddsUp window (lives c.generation) c.stats)
    (left : (t.part now key op).value = some c') :
    AddsUp window (lives c'.generation ++ [scene key t now op]) c'.stats := by
  subst width
  cases deed_part left with
  | spare found refusals unheard =>
    refine (before c' found).spare ?_ refusals
    show (t.concern? key op).bind Concern.packet? = none
    cases concerned : t.concern? key op with
    | none => rfl
    | some q =>
      cases q with
      | packet p => exact absurd concerned (unheard p)
      | _ => rfl
  | @act q cop c asked asks begun lasts done =>
    have alive := isDestroy_of_asks asks
    have after : (c.apply (t.context now) cop).value = c' := by rw [done]
    have same : c'.generation = c.generation := by rw [← after, generation_apply alive]
    have act : scene key t now op = sceneOf (t.context now) c cop :=
      scene_eq_sceneOf asked asks begun done
    rw [same, act, ← after]
    rcases begun with found | ⟨_, rfl⟩
    · exact (before c found).apply (labelled c found) (distinct c found) alive lasts
    · have first : lives (Channel.create key t.nextGeneration t.config now).generation = [] := unborn
      have created := addsUp_create t.config.receiveWindow key t.nextGeneration t.config now
      rw [← first] at created
      exact created.apply (labelled_create _ _ _ _) ReceiveQueue.distinct_empty alive lasts

theorem find?_empty_ne (config : Config) (clock : Clock) (key : Key) (c : Channel) :
    Table.find? { config, clock } key ≠ some c := by
  rw [find?_empty]
  exact (Option.some_ne_none c).symm

/-- In every run the statistics of each channel tell of its life. -/
theorem addsUp_run (config : Config) (clock : Clock) (ops : List (Nat × Op)) :
    ∀ key c, (run ops { config, clock }).value.find? key = some c →
      AddsUp config.receiveWindow (scenes key c.generation ops { config, clock }) c.stats := by
  induction ops using List.reverseRecOn with
  | nil => exact fun key c found => absurd found (find?_empty_ne config clock key c)
  | append_singleton ops step ih =>
    obtain ⟨now, op⟩ := step
    intro key c' found
    have empty : Settled { config, clock } := settled_empty config clock
    have settled := settled_run ops empty
    rw [value_run_append] at found
    have found : ((run ops { config, clock }).value.apply now op).value.find? key = some c' := found
    have lives := Option.isSome_of_eq_some (live?_self found)
    have life : scenes key c'.generation (ops ++ [(now, op)]) { config, clock } =
        scenes key c'.generation ops { config, clock } ++
          [scene key (run ops { config, clock }).value now op] := by
      rw [scenes, overLife_append, overLife_cons_of_step [] (.inr lives)]
      rfl
    rw [find?_apply settled.order] at found
    have labelled := (lasting_labelled config clock).channels_run ops empty.order fun key c found =>
      absurd found (find?_empty_ne config clock key c)
    have distinct := (lasting_distinct config clock).channels_run ops empty.order fun key c found =>
      absurd found (find?_empty_ne config clock key c)
    have width : (run ops { config, clock }).value.config.receiveWindow = config.receiveWindow := by
      rw [(setup_run ops _).1]
    rw [life]
    exact addsUp_part (fun g => scenes key g ops { config, clock }) width (labelled key)
      (distinct key) (overLife_of_unborn ops empty (Nat.le_refl _)) (ih key) found

end Run

section Parts

/-- The keys that a step visits. -/
def visited (t : Table) (op : Op) : List Key :=
  match op.target? with
  | some key => [key]
  | none => t.channels.map Channel.key

/-- The log of a step consists of its parts for different keys, and no part is left out. -/
structure Parted (t : Table) (now : Nat) (op : Op) (keys : List Key) : Prop where
  distinct : keys.Nodup
  log : (t.apply now op).log = keys.flatMap fun key => (t.part now key op).log
  complete : ∀ key, key ∉ keys → (t.part now key op).log = []

/-- A step that is about no key in particular has nothing to do where there is no channel. -/
theorem log_part_of_missing (target : op.target? = none) (missing : t.find? key = none) :
    (t.part now key op).log = [] := by
  cases op with
  | shutdown reason => simp [part, concern?, serve, missing]
  | request r =>
    cases r with
    | datagram sender bytes =>
      cases parsed : Packet.parse bytes with
      | error _ => simp [part, concern?, parsed]
      | ok p => simp [Op.target?, parsed] at target
    | tick => simp [part, concern?, serve, missing]
    | stats | channelStats => rfl
    | _ => cases target

theorem parted_apply (order : t.Ordered) (now : Nat) (op : Op) :
    Parted t now op (t.visited op) := by
  unfold visited
  cases target : op.target? with
  | some key =>
    refine ⟨List.nodup_singleton key, ?_, fun k other => ?_⟩
    · rw [log_of_target target]
      exact (List.append_nil _).symm
    · have other : key ≠ k := fun same => other (List.mem_singleton.mpr same.symm)
      rw [part_of_unconcerned (concern?_of_target target other)]
      rfl
  | none =>
    refine ⟨List.pairwise_map.mpr order.keys, ?_, fun k other => ?_⟩
    · rw [log_of_untargeted order target, List.flatMap_map]
    · refine log_part_of_missing target ?_
      cases found : t.find? k with
      | none => rfl
      | some c =>
        obtain ⟨mem, rfl⟩ := mem_of_find? found
        exact absurd (List.mem_map_of_mem mem) other

end Parts

/-- In every run of a new table the statistics of each channel add up, counting from its creation:

* as many packets were sent as writes were answered with their length, and as many bytes as they had
  together;
* with the packets that were sent again, that is the number of all data packets that left;
* received packets and bytes are those that were delivered;
* the acknowledgements that came are counted;
* each data packet that came was delivered or dropped, waits in the receive queue, was thrown away
  from it by a reset, or came before its stream and was ignored.

The life of a channel is in the log of the table: this consists of the parts of all channels, in each
step. -/
theorem statistics_add_up (config : Config) (clock : Clock) (ops : List (Nat × Op)) :
    let t : Table := { config, clock }
    (∀ c ∈ (run ops t).value.channels,
      AddsUp config.receiveWindow (scenes c.key c.generation ops t) c.stats) ∧
      ∀ before now op after, ops = before ++ (now, op) :: after →
        ∃ keys, Parted (run before t).value now op keys := by
  intro t
  have order : t.Ordered := ordered_empty config clock
  refine ⟨fun c mem => ?_, fun before now op after _ => ?_⟩
  · exact addsUp_run config clock ops c.key c (find?_of_mem (ordered_run ops order).keys mem)
  · exact ⟨_, parted_apply (ordered_run before order) now op⟩

/-- A packet comes before its stream and is ignored. A stream starts, of which one packet is buffered
and dropped when it comes again, and another stream that starts throws it away. One packet of this is
buffered. A write is acknowledged, and another one is sent twice. -/
def medley : List (Nat × Op) :=
  let data (id timestamp : UInt32) : Op :=
    .request (.datagram friend.addr (Packet.data friend.channel ⟨id⟩ timestamp [7, 7]).encode)
  let ack : Packet := (Packet.data friend.channel .streamStart 0 []).ack
  [(0, data 2 0), (0, data 0 1), (0, data 2 1), (0, data 2 1), (0, data 0 2), (0, data 2 2),
    (0, .request (.write friend 1 ⟨0, [1]⟩)),
    (0, .request (.datagram friend.addr ack.encode)),
    (0, .request (.write friend 1 ⟨1, [2, 2]⟩)),
    (second, .request .tick)]

/-- Every term of the sums is there. -/
theorem statistics_add_up_of_medley :
    ∃ c ∈ (run medley { config := {}, clock := ⟨0, 0⟩ }).value.channels,
      ∃ life, life = scenes c.key c.generation medley { config := {}, clock := ⟨0, 0⟩ } ∧
        AddsUp 1024 life c.stats ∧ c.stats.packetsSent = 2 ∧ c.stats.repeated = 1 ∧
        c.stats.acksReceived = 1 ∧ c.stats.packetsReceived = 2 ∧ c.stats.dropped = 1 ∧
        c.stats.receiveQueueLength = 1 ∧ (life.map (Scene.discarded 1024)).sum = 1 ∧
        life.countP (Scene.ignores 1024) = 1 := by
  have adds := (statistics_add_up {} ⟨0, 0⟩ medley).1
  have counted : ∃ c ∈ (run medley { config := {}, clock := ⟨0, 0⟩ }).value.channels,
      c.stats.packetsSent = 2 ∧ c.stats.repeated = 1 ∧ c.stats.acksReceived = 1 ∧
        c.stats.packetsReceived = 2 ∧ c.stats.dropped = 1 ∧ c.stats.receiveQueueLength = 1 ∧
        ((scenes c.key c.generation medley { config := {}, clock := ⟨0, 0⟩ }).map
          (Scene.discarded 1024)).sum = 1 ∧
        (scenes c.key c.generation medley { config := {}, clock := ⟨0, 0⟩ }).countP
          (Scene.ignores 1024) = 1 := by decide +kernel
  obtain ⟨c, mem, counted⟩ := counted
  exact ⟨c, mem, _, rfl, adds c mem, counted⟩

end ReliableDatagram.Table
