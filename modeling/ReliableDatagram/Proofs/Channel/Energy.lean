import ReliableDatagram.Proofs.Channel.Sound
import ReliableDatagram.Proofs.Packet.Grammar
import Mathlib.Algebra.GroupWithZero.Nat

/-!
# What a packet sets going

Every datagram has energy, and so has every parked write, as much as the data packet that it will be
sent in. Whatever a channel does on a packet, what it sends and what it keeps parked have less energy
together than the packet and what was parked before: `energy_onPacket`. That holds of a channel in
any state, so it does not rest on what was sent before.
-/

namespace ReliableDatagram

/-- Data may lead to a request to start over, and this to its answer. -/
def Packet.Kind.energy : Packet.Kind → Nat
  | .data => 3
  | .reset | .ping => 2
  | .ack | .ackReset | .ackPing => 1

theorem Packet.Kind.energy_pos (kind : Packet.Kind) : 0 < kind.energy := by
  cases kind <;> decide

theorem Packet.Kind.energy_le (kind : Packet.Kind) : kind.energy ≤ 3 := by
  cases kind <;> decide

/-- The energy of a datagram; a malformed one is not answered. -/
def datagramEnergy (bytes : Bytes) : Nat :=
  match Packet.parse bytes with
  | .ok p => p.header.kind.energy
  | .error _ => 1

theorem datagramEnergy_pos (bytes : Bytes) : 0 < datagramEnergy bytes := by
  unfold datagramEnergy
  split
  · exact Packet.Kind.energy_pos _
  · exact Nat.one_pos

theorem datagramEnergy_le (bytes : Bytes) : datagramEnergy bytes ≤ 3 := by
  unfold datagramEnergy
  split
  · exact Packet.Kind.energy_le _
  · decide

/-- An encoding that loses a part of the packet still has its kind, if it parses at all. -/
theorem datagramEnergy_encode_le (p : Packet) : datagramEnergy p.encode ≤ p.header.kind.energy := by
  unfold datagramEnergy
  split
  · next q parsed =>
    have code : q.header.kind.code = p.header.kind.code :=
      (Packet.Header.of_decode (Packet.parse_eq_ok parsed).1).2.2.1
    have known := congrArg Packet.Kind.ofCode? code
    rw [Packet.Kind.ofCode?_code, Packet.Kind.ofCode?_code] at known
    exact Nat.le_of_eq (congrArg Packet.Kind.energy (Option.some.inj known))
  · exact p.header.kind.energy_pos

def Effect.energy (e : Effect) : Nat := (e.datagram?.map fun d => datagramEnergy d.2).getD 0

def logEnergy (log : List Effect) : Nat := (log.map Effect.energy).sum

@[simp] theorem logEnergy_nil : logEnergy [] = 0 := rfl

@[simp] theorem logEnergy_cons (e : Effect) (log : List Effect) :
    logEnergy (e :: log) = e.energy + logEnergy log := by simp [logEnergy]

@[simp] theorem logEnergy_append (log log' : List Effect) :
    logEnergy (log ++ log') = logEnergy log + logEnergy log' := by simp [logEnergy]

theorem logEnergy_eq_zero {log : List Effect} (silent : ∀ e ∈ log, e.datagram? = none) :
    logEnergy log = 0 := by
  induction log with
  | nil => rfl
  | cons e log ih =>
    have first : e.energy = 0 := by simp [Effect.energy, silent e List.mem_cons_self]
    rw [logEnergy_cons, first, ih fun x mem => silent x (List.mem_cons_of_mem _ mem)]

/-- What is put in flight has the energy of the log that it comes from. -/
theorem sum_datagramEnergy (log : List Effect) :
    (((log.filterMap Effect.datagram?).map Prod.snd).map datagramEnergy).sum = logEnergy log := by
  induction log with
  | nil => rfl
  | cons e log ih =>
    rw [logEnergy_cons, ← ih]
    cases sent : e.datagram? with
    | none => simp [Effect.energy, sent]
    | some d => simp [Effect.energy, sent]

namespace Channel

variable {ctx : Context} {c : Channel} {p : Packet}

def energy (c : Channel) : Nat := 3 * c.sender.parked.length

/-- What a channel does takes no more energy than was there before and is put into it. -/
def Spends (budget : Nat) (c : Channel) (x : Logged Effect Channel) : Prop :=
  logEnergy x.log + x.value.energy ≤ budget + c.energy

section Parts

theorem Spends.bind {j k : Nat} {x : Logged Effect Channel} {f : Channel → Logged Effect Channel}
    (first : Spends j c x) (second : Spends k x.value (f x.value)) : Spends (j + k) c (x >>= f) := by
  unfold Spends at first second ⊢
  rw [Logged.log_bind, Logged.value_bind, logEnergy_append]
  omega

theorem Spends.mono {j k : Nat} {x : Logged Effect Channel} (spends : Spends j c x) (le : j ≤ k) :
    Spends k c x :=
  Nat.le_trans spends (Nat.add_le_add_right le _)

/-- Whoever is silent and keeps its writes needs nothing. -/
theorem spends_of_silent {x : Logged Effect Channel} (silent : ∀ e ∈ x.log, e.datagram? = none)
    (parked : x.value.sender.parked = c.sender.parked) : Spends 0 c x := by
  have nothing := logEnergy_eq_zero silent
  have same : x.value.energy = c.energy := by rw [energy, parked, energy]
  unfold Spends
  omega

theorem Spends.told {k : Nat} {x : Logged Effect Channel} (spends : Spends k c x) (event : Event) :
    Spends k c ((Logged.act (.emit event) : Logged Effect Unit) >>= fun _ => x) := by
  have told : (Effect.emit event).energy = 0 := rfl
  unfold Spends at spends ⊢
  simpa [told] using spends

/-- Sending takes the energy of the packet, whatever else changed but the parked writes. -/
theorem spends_transmit {d : Channel} (parked : d.sender.parked = c.sender.parked) (q : Packet) :
    Spends q.header.kind.energy c (d.transmit ctx q) := by
  have sent := datagramEnergy_encode_le q
  have same : d.energy = c.energy := by rw [energy, parked, energy]
  show datagramEnergy q.encode + 0 + d.energy ≤ _
  omega

theorem spends_checkConnected (c : Channel) : Spends 0 c c.checkConnected := by
  refine spends_of_silent (fun e logged => ?_) (congrArg Sender.parked (checkConnected_sender c))
  rw [mem_checkConnected_log c logged]
  rfl

theorem spends_accept (c : Channel) (p : Packet) : Spends 1 c (c.accept ctx p) := by
  have ack : datagramEnergy p.ack.encode ≤ 1 := datagramEnergy_encode_le p.ack
  have news : logEnergy (c.transmit ctx p.ack).value.checkConnected.log = 0 :=
    logEnergy_eq_zero fun e logged => by
      rw [mem_checkConnected_log _ logged]
      rfl
  have delivered : logEnergy ((c.receiver.accept p.header.id p.payload).1.map
      fun payload => .emit (.data c.key payload)) = 0 :=
    logEnergy_eq_zero fun e logged => by
      obtain ⟨_, _, rfl⟩ := List.mem_map.mp logged
      rfl
  have first : (Effect.send c.key.addr p.ack.encode).energy = datagramEnergy p.ack.encode := rfl
  unfold Spends energy
  rw [accept_sender, log_accept, logEnergy_cons, logEnergy_append, news, delivered, first]
  omega

/-- A parked write that is sent has its energy in the packet. -/
theorem spends_release (ctx : Context) (ws : List ParkedWrite) (c : Channel) :
    logEnergy (release ctx ws c).log + (release ctx ws c).value.energy ≤ 3 * ws.length := by
  induction ws generalizing c with
  | nil => exact Nat.le_refl 0
  | cons w ws ih =>
    simp only [release]
    split
    · have rest := ih (c.sendWrite ctx w).value
      have first : logEnergy (c.sendWrite ctx w).log ≤ 3 := by
        rw [log_sendWrite]
        exact datagramEnergy_encode_le (.data c.key.channel c.sender.nextId ctx.timestamp w.payload)
      rw [Logged.log_bind, Logged.value_bind, logEnergy_append, List.length_cons]
      omega
    · exact Nat.le_of_eq (Nat.zero_add _)

theorem spends_flush {d : Channel} (parked : d.sender.parked = c.sender.parked) :
    Spends 0 c (d.flush ctx) := by
  have released := spends_release ctx d.sender.parked d
  rw [parked] at released
  unfold Spends
  rw [Nat.zero_add, flush, parked]
  exact released

theorem spends_startOver (c : Channel) : Spends 0 c (c.startOver ctx) := by
  have flushed : Spends 0 c ({ c with sender := c.sender.startOver, receiver := {} }.flush ctx) :=
    spends_flush rfl
  exact flushed.told (.resetLocal c.key)

end Parts

theorem spends_requestReset (c : Channel) : Spends 2 c (c.requestReset ctx) := by
  cases asked : c.receiver.pendingReset with
  | none =>
    have sent := datagramEnergy_encode_le (.reset c.key.channel ctx.timestamp)
    rw [requestReset_idle asked]
    exact Nat.add_le_add_right sent c.energy
  | some r =>
    rw [requestReset_pending asked]
    exact Nat.le_trans (Nat.le_of_eq (Nat.zero_add _)) (Nat.le_add_left _ _)

/-- Data leads to an acknowledgement or to a request to start over. -/
theorem spends_onData (c : Channel) (p : Packet) : Spends 2 c (c.onData ctx p) := by
  have acknowledged {d : Channel} (parked : d.sender.parked = c.sender.parked) :
      Spends 2 c (d.transmit ctx p.ack) :=
    (spends_transmit parked p.ack).mono (Nat.le_succ 1)
  have ignored : Spends 2 c (pure c.countDropped) :=
    (spends_of_silent (List.forall_mem_nil _) rfl).mono (by decide)
  unfold onData
  split
  · exact (spends_accept _ p).mono (by decide)
  · exact ((spends_startOver c).bind (spends_accept _ p)).mono (by decide)
  · exact spends_requestReset c
  · exact (spends_accept c p).mono (by decide)
  · exact acknowledged rfl
  · exact acknowledged rfl
  · exact acknowledged rfl
  · exact acknowledged rfl
  · exact ignored
  · exact ignored

theorem spends_onAck (c : Channel) (header : Packet.Header) : Spends 0 c (c.onAck ctx header) := by
  unfold onAck
  dsimp only
  split
  · exact spends_of_silent (List.forall_mem_nil _) rfl
  · exact spends_flush rfl

theorem spends_onReset (c : Channel) (p : Packet) : Spends 1 c (c.onReset ctx p) := by
  have answered : Spends 1 c (c.transmit ctx p.ackReset) := spends_transmit rfl p.ackReset
  let restart (d : Channel) : Logged Effect Channel := do
    Logged.act (.emit (.resetLocal d.key))
    { d with sender := d.sender.startOver }.flush ctx
  have restarted (d : Channel) : Spends 0 d (restart d) :=
    (spends_flush rfl).told (.resetLocal d.key)
  exact answered.bind (f := restart) (restarted _)

theorem spends_dispatch (c : Channel) (p : Packet) :
    Spends (p.header.kind.energy - 1) c (c.dispatch ctx p) := by
  unfold dispatch
  cases p.header.kind with
  | data => exact spends_onData c p
  | ack => exact spends_onAck c p.header
  | reset => exact spends_onReset c p
  | ackReset =>
    dsimp only [onAckReset]
    split
    · refine spends_of_silent (fun e logged => ?_) rfl
      rcases List.mem_singleton.mp logged with rfl
      rfl
    · exact spends_of_silent (List.forall_mem_nil _) rfl
  | ping => exact spends_transmit rfl p.ackPing
  | ackPing =>
    refine spends_of_silent (fun e logged => ?_) rfl
    obtain ⟨rtt, rfl⟩ := mem_onAckPing_log logged
    rfl

/-- A packet has more energy than all that it leads to. -/
theorem energy_onPacket (ctx : Context) (c : Channel) (p : Packet) :
    logEnergy (c.onPacket ctx p).log + (c.onPacket ctx p).value.energy <
      p.header.kind.energy + c.energy := by
  have dispatched : Spends (p.header.kind.energy - 1) c
      ({ c with hasReceived := true, lastReceived := ctx.now }.dispatch ctx p) :=
    spends_dispatch { c with hasReceived := true, lastReceived := ctx.now } p
  have spent : _ ≤ p.header.kind.energy - 1 + 0 + c.energy :=
    dispatched.bind (spends_checkConnected _)
  have positive := p.header.kind.energy_pos
  show logEnergy (_ >>= checkConnected : Logged Effect Channel).log + _ < _
  exact Nat.lt_of_le_of_lt spent (by omega)

end Channel

end ReliableDatagram
