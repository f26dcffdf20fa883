/-!
# Sequence numbers

Id 0 starts a stream and never recurs in it: the ids after it run through `1 .. 2 ^ 32 - 1` and
wrap around to 1.
-/

namespace ReliableDatagram

/-- The sequence number of a data packet in one direction of a channel. -/
structure PacketId where
  raw : UInt32
deriving DecidableEq, Inhabited

namespace PacketId

/-- The id of the first data packet of every stream. -/
def streamStart : PacketId := ⟨0⟩

/-- The number of ids that follow a stream start before one of them recurs. -/
def cycle : Nat := 0xffffffff

def next (i : PacketId) : PacketId :=
  if i.raw = 0xffffffff then ⟨1⟩ else ⟨i.raw + 1⟩

/-- Where the id stands in the cycle; a stream start stands beside id 1. -/
def position (i : PacketId) : Nat := i.raw.toNat - 1

/-- The signed way from `i` to `j` around the cycle, whichever direction is shorter. -/
def distanceTo (i j : PacketId) : Int :=
  let forward := (j.position + cycle - i.position) % cycle
  if forward > cycle / 2 then (forward : Int) - cycle else forward

def isNewerThan (i j : PacketId) : Bool := decide (0 < j.distanceTo i)

def toText (i : PacketId) : String := toString i.raw.toNat

theorem toNat_next (i : PacketId) :
    i.next.raw.toNat = if i.raw.toNat = cycle then 1 else i.raw.toNat + 1 := by
  have bound := i.raw.toNat_lt
  unfold next
  by_cases h : i.raw = 0xffffffff
  · rw [if_pos h, if_pos (by rw [h]; rfl)]
    rfl
  · have top : i.raw.toNat ≠ cycle := fun eq => h (UInt32.toNat_inj.mp eq)
    rw [if_neg h, if_neg top, UInt32.toNat_add]
    simp only [UInt32.toNat_one, cycle] at top ⊢
    omega

theorem next_ne_streamStart (i : PacketId) : i.next ≠ streamStart := by
  intro h
  have zero : i.next.raw.toNat = 0 := by rw [h]; rfl
  rw [toNat_next] at zero
  split at zero <;> omega

end PacketId

end ReliableDatagram
