import Mathlib.Data.List.Perm.Subperm
import ReliableDatagram.Proofs.Channel.Buffers
import ReliableDatagram.Proofs.ReceiveQueue

/-!
# The capacity of a channel

The ids of the early packets of a receiver are distinct and lie in its window, so that there are no
more of them than the window has places. A write is parked only while there is room for it, and
everything else leaves no more writes parked than before. Together with the room in the send queue
that bounds all buffers of a channel: `Bounded`, whatever happens to it.
-/

namespace ReliableDatagram.Channel

open PacketId

variable {ctx : Context} {op : Op} {c c' : Channel} {log : List Effect} {ws : List ParkedWrite}
variable {window : Nat} {e : PacketId} {q : ReceiveQueue} {r : Receiver} {w : ParkedWrite}

section Early

/-- Two ids at the same distance are one. -/
theorem eq_of_distanceTo_eq {i j : PacketId} (later : i ≠ streamStart) (later' : j ≠ streamStart)
    (same : e.distanceTo i = e.distanceTo j) : i = j := by
  have := distanceTo_spec e i
  have := distanceTo_spec e j
  have := i.position_lt
  have := j.position_lt
  exact eq_of_position_eq later later' (by omega)

/-- Distinct ids in a window are no more than it has places. -/
theorem Spans.length_le (spans : Spans 1 window e q) (distinct : q.Distinct) :
    q.length ≤ window := by
  let place (id : PacketId) : Nat := (e.distanceTo id).toNat
  have within : ∀ id ∈ q.payloads.map Prod.fst,
      id ≠ streamStart ∧ 1 ≤ e.distanceTo id ∧ e.distanceTo id ≤ window := by
    intro id listed
    obtain ⟨payload, kept⟩ :=
      Option.isSome_iff_exists.mp (ReceiveQueue.contains_iff_mem.mpr listed)
    exact spans id payload kept
  have places : ((q.payloads.map Prod.fst).map place).Nodup := by
    refine List.pairwise_map.mpr (List.Pairwise.imp_of_mem ?_ distinct)
    intro i j iListed jListed other same
    obtain ⟨later, ahead, _⟩ := within i iListed
    obtain ⟨later', ahead', _⟩ := within j jListed
    have same : (e.distanceTo i).toNat = (e.distanceTo j).toNat := same
    have same : e.distanceTo i = e.distanceTo j := by omega
    exact other (eq_of_distanceTo_eq later later' same)
  have near : (q.payloads.map Prod.fst).map place ⊆ List.range' 1 window := by
    intro k listed
    obtain ⟨id, own, rfl⟩ := List.mem_map.mp listed
    obtain ⟨_, ahead, near⟩ := within id own
    show (e.distanceTo id).toNat ∈ _
    exact List.mem_range'_1.mpr ⟨by omega, by omega⟩
  simpa [ReceiveQueue.length] using places.length_le_of_subset near

theorem Receives.distinct (receives : Receives ctx c r) (distinct : c.receiver.early.Distinct) :
    r.early.Distinct := by
  cases receives with
  | rest | ask => exact distinct
  | accept | acceptStart => exact distinct.drain _
  | keep => exact distinct.insert _ _
  | clear => exact ReceiveQueue.distinct_empty

theorem Moves.distinct (moves : Moves ctx op c log ws c')
    (distinct : c.receiver.early.Distinct) : c'.receiver.early.Distinct := by
  induction moves with
  | none => exact distinct
  | snoc _ last ih => exact last.receives.distinct ih

end Early

section Parked

/-- A move leaves parked writes and those that it takes in parked, or it sends the first of them. -/
theorem Move.parked_suffix (move : Move ctx op c log ws c') :
    c'.sender.parked <:+ c.sender.parked ++ ws := by
  cases move with
  | park => exact List.suffix_refl _
  | send first =>
    rw [first, List.append_nil]
    exact List.suffix_cons _ _
  | requestReset _ _ idle => simp [requestReset_idle idle]
  | resendData | resendReset | tune | accept | acceptStart => simp
  | _ => exact ⟨[], (List.append_nil _).symm⟩

theorem Moves.parked_suffix (moves : Moves ctx op c log ws c') :
    c'.sender.parked <:+ c.sender.parked ++ ws := by
  induction moves with
  | none => exact ⟨[], (List.append_nil _).symm⟩
  | @snoc _ _ ws ws' _ _ before last ih =>
    obtain ⟨sent, all⟩ := ih
    refine last.parked_suffix.trans ⟨sent, ?_⟩
    rw [← List.append_assoc, ← List.append_assoc, all]

/-- Only a write may leave more writes parked than before, and only if there is room for it. -/
theorem length_parked_write (ctx : Context) (c : Channel) (w : ParkedWrite) :
    (c.write ctx w).value.sender.parked.length ≤
      max c.sender.parked.length ctx.config.maxWriteQueue := by
  unfold write
  split
  · exact Nat.le_max_left _ _
  · rw [Logged.value_bind, checkConnected_sender]
    unfold sendOrPark
    split
    · exact Nat.le_max_left _ _
    · split
      · next room =>
        refine Nat.le_trans ?_ (Nat.le_max_right _ _)
        simpa [Nat.succ_le_iff] using room
      · exact Nat.le_max_left _ _

theorem length_parked_apply (ctx : Context) (c : Channel) (op : Op) :
    (c.apply ctx op).value.sender.parked.length ≤
      max c.sender.parked.length ctx.config.maxWriteQueue := by
  have fewer {log : List Effect} {c' : Channel} (moves : Moves ctx op c log [] c') :
      c'.sender.parked.length ≤ max c.sender.parked.length ctx.config.maxWriteQueue := by
    have suffix := moves.parked_suffix.length_le
    rw [List.append_nil] at suffix
    exact Nat.le_trans suffix (Nat.le_max_left _ _)
  cases op with
  | packet p => exact fewer (moves_onPacket ctx c p)
  | write w => exact length_parked_write ctx c w
  | ping => exact fewer (moves_ping ctx c .ping (.inl rfl))
  | tick => exact fewer (moves_tick ctx c)
  | destroy reason => exact Nat.zero_le _

end Parked

section Bounds

variable {config : Config}

/-- No buffer of a channel holds more than its configuration allows, and the limit of its send queue
is one that tuning may set. -/
structure Bounded (config : Config) (c : Channel) : Prop where
  limit_ge : config.defaultQueueSize ≤ c.sender.unacked.limit
  limit_le : c.sender.unacked.limit ≤ config.maxQueueSize
  unacked : c.sender.unacked.length ≤ config.maxQueueSize
  parked : c.sender.parked.length ≤ config.maxWriteQueue
  early : c.receiver.early.length ≤ config.receiveWindow

/-- What keeps the buffers of a channel bounded. -/
structure Confined (config : Config) (c : Channel) : Prop where
  roomy : Roomy config c.sender
  parked : c.sender.parked.length ≤ config.maxWriteQueue
  windowed : Windowed config.receiveWindow c.receiver
  distinct : c.receiver.early.Distinct

theorem confined_create (key : Key) (generation now : Nat)
    (sizes : config.defaultQueueSize ≤ config.maxQueueSize) :
    Confined config (create key generation config now) :=
  ⟨roomy_create key generation now sizes, Nat.zero_le _, windowed_fresh _,
    ReceiveQueue.distinct_empty⟩

theorem Confined.apply (ctx : Context) (confined : Confined ctx.config c) (op : Op) :
    Confined ctx.config (c.apply ctx op).value := by
  have parked : (c.apply ctx op).value.sender.parked.length ≤ ctx.config.maxWriteQueue :=
    Nat.le_trans (length_parked_apply ctx c op) (Nat.max_le.mpr ⟨confined.parked, Nat.le_refl _⟩)
  rcases apply_cases ctx op c with ⟨ws, moves⟩ | ⟨reason, rfl⟩
  · exact ⟨moves.roomy confined.roomy, parked, moves.windowed confined.windowed,
      moves.distinct confined.distinct⟩
  · exact ⟨confined.roomy.of_le rfl (Nat.zero_le _), parked,
      ⟨fun _ => rfl, spans_empty _ _ _⟩, ReceiveQueue.distinct_empty⟩

theorem Confined.bounded (confined : Confined config c) : Bounded config c where
  limit_ge := confined.roomy.least
  limit_le := confined.roomy.most
  unacked := by simpa [SendQueue.length, SendQueue.contents] using confined.roomy.fits
  parked := confined.parked
  early := confined.windowed.early.length_le confined.distinct

end Bounds

end ReliableDatagram.Channel
