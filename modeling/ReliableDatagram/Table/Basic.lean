import ReliableDatagram.Channel.Receiving
import ReliableDatagram.Channel.Upkeep

/-!
# The table of channels

An end point's channels are kept in key order, at most one for each key. Packets reach a channel by
its key, and calls by key and generation, so that a handle never reaches a later channel with the
same key.
-/

namespace ReliableDatagram

structure Table where
  config : Config
  clock : Clock
  channels : List Channel := []
  nextGeneration : Nat := 1
  malformedPackets : Nat := 0
  sendErrors : Nat := 0
deriving DecidableEq

namespace Table

def context (t : Table) (now : Nat) : Channel.Context := ⟨now, t.config, t.clock⟩

def length (t : Table) : Nat := t.channels.length

def isEmpty (t : Table) : Bool := t.channels.isEmpty

def find? (t : Table) (key : Key) : Option Channel := t.channels.find? (·.key == key)

def contains (t : Table) (key : Key) : Bool := (t.find? key).isSome

/-- The channel of a handle, unless it was destroyed. -/
def live? (t : Table) (key : Key) (generation : Nat) : Option Channel :=
  (t.find? key).filter (·.generation == generation)

/-- Puts a channel at its place, instead of one with the same key. -/
def insertByKey (c : Channel) : List Channel → List Channel
  | [] => [c]
  | d :: ds =>
    if c.key = d.key then c :: ds
    else if c.key.before d.key then c :: d :: ds
    else d :: insertByKey c ds

def put (t : Table) (c : Channel) : Table := { t with channels := insertByKey c t.channels }

def erase (t : Table) (key : Key) : Table :=
  { t with channels := t.channels.filter (·.key != key) }

theorem find?_insertByKey (c : Channel) (channels : List Channel) (key : Key) :
    (insertByKey c channels).find? (·.key == key) =
      if c.key = key then some c else channels.find? (·.key == key) := by
  have head (ds : List Channel) : (c :: ds).find? (·.key == key) =
      if c.key = key then some c else ds.find? (·.key == key) := by
    by_cases found : c.key = key <;> simp [found]
  induction channels with
  | nil => simp [insertByKey, head]
  | cons d ds ih =>
    unfold insertByKey
    split
    · next same =>
      rw [head]
      by_cases found : c.key = key
      · simp [found]
      · simp [found, ← same]
    · next other =>
      split
      · exact head _
      · by_cases found : d.key = key
        · have : c.key ≠ key := fun eq => other (eq.trans found.symm)
          simp [found, this]
        · simp [found, ih]

@[simp] theorem find?_put (t : Table) (c : Channel) (key : Key) :
    (t.put c).find? key = if c.key = key then some c else t.find? key :=
  find?_insertByKey c t.channels key

@[simp] theorem find?_erase (t : Table) (k key : Key) :
    (t.erase k).find? key = if k = key then none else t.find? key := by
  simp only [find?, erase]
  induction t.channels with
  | nil => simp
  | cons d ds ih =>
    by_cases dropped : d.key = k
    · rw [List.filter_cons_of_neg (by simp [dropped]), ih]
      by_cases same : k = key
      · simp [same]
      · simp [same, dropped]
    · rw [List.filter_cons_of_pos (by simp [dropped])]
      by_cases found : d.key = key
      · have : k ≠ key := fun eq => dropped (found.trans eq.symm)
        simp [found, this]
      · simp [found, ih]

/-- A new channel with the next generation, which is not in the table yet. -/
def create (t : Table) (key : Key) (now : Nat) : Channel × Table :=
  (.create key t.nextGeneration t.config now, { t with nextGeneration := t.nextGeneration + 1 })

def onDatagram (t : Table) (now : Nat) (sender : SocketAddr) (bytes : Bytes) :
    Logged Effect Table :=
  match Packet.parse bytes with
  | .error _ => pure { t with malformedPackets := t.malformedPackets + 1 }
  | .ok p =>
    let key : Key := ⟨sender, p.header.channel⟩
    match t.find? key with
    | some c => t.put <$> c.onPacket (t.context now) p
    | none =>
      if p.header.kind.opensChannel then
        let (c, t) := t.create key now
        t.put <$> c.onPacket (t.context now) p
      else pure t

/-- The generation of the channel with this key; a channel that has to be created for it sends a
ping. -/
def connect (t : Table) (now : Nat) (key : Key) : Logged Effect (Nat × Table) :=
  match t.find? key with
  | some c => pure (c.generation, t)
  | none =>
    let (c, t) := t.create key now
    (fun c => (c.generation, t.put c)) <$> c.ping (t.context now)

def write (t : Table) (now : Nat) (key : Key) (generation : Nat) (w : Channel.ParkedWrite) :
    Logged Effect Table :=
  let max := t.config.maxPayloadLength
  if max < w.payload.length then
    ⟨t, [.reply w.ticket (.error (.payloadTooLarge w.payload.length max))]⟩
  else
    match t.live? key generation with
    | some c => t.put <$> c.write (t.context now) w
    | none => ⟨t, [.reply w.ticket (.error (.connectionClosed key))]⟩

/-- The first component tells whether there was such a channel. -/
def close (t : Table) (key : Key) (generation : Nat) : Logged Effect (Bool × Table) :=
  match t.live? key generation with
  | some c => ⟨(true, t.erase key), (c.destroy .closed).log⟩
  | none => pure (false, t)

/-- Ticks a channel and destroys it if it gives up. -/
def tickOne (ctx : Channel.Context) (c : Channel) : Logged Effect (Option Channel) := do
  let (c, reason?) ← c.tick ctx
  match reason? with
  | none => return some c
  | some reason => ⟨none, (c.destroy reason).log⟩

/-- Ticks channels in order and keeps those that live on. -/
def tickAll (ctx : Channel.Context) : List Channel → Logged Effect (List Channel)
  | [] => pure []
  | c :: cs => do
    let kept ← tickOne ctx c
    let rest ← tickAll ctx cs
    return kept.toList ++ rest

def tick (t : Table) (now : Nat) : Logged Effect Table :=
  (fun channels => { t with channels }) <$> tickAll (t.context now) t.channels

/-- Destroys all channels, in key order. -/
def shutdown (t : Table) (reason : DisconnectReason) : Logged Effect Table :=
  ⟨{ t with channels := [] }, t.channels.flatMap fun c => (c.destroy reason).log⟩

def recordSendErrors (t : Table) (count : Nat) : Table :=
  { t with sendErrors := t.sendErrors + count }

def stats (t : Table) : EndPointStats where
  channels := t.channels.map fun c => (c.key, c.stats)
  malformedPackets := t.malformedPackets
  sendErrors := t.sendErrors

def channelStats? (t : Table) (key : Key) (generation : Nat) : Option ChannelStats :=
  (t.live? key generation).map Channel.stats

/-- The tickets of all writes that still wait for an answer. -/
def parkedTickets (t : Table) : List Nat :=
  t.channels.flatMap fun c => c.sender.parked.map (·.ticket)

end Table

end ReliableDatagram
