/-!
# Byte strings

Everything on the wire is a list of bytes, and every number in it is little-endian.
-/

namespace ReliableDatagram

abbrev Bytes := List UInt8

def totalLength (payloads : List Bytes) : Nat :=
  payloads.foldr (fun payload rest => payload.length + rest) 0

namespace LittleEndian

/-- The `width` lowest base-256 digits, least significant first. -/
def encode : Nat → Nat → Bytes
  | 0, _ => []
  | width + 1, n => UInt8.ofNat n :: encode width (n / 256)

def decode : Bytes → Nat
  | [] => 0
  | b :: bs => b.toNat + 256 * decode bs

/-- How many numbers `width` digits tell apart. -/
def capacity : Nat → Nat
  | 0 => 1
  | width + 1 => 256 * capacity width

@[simp] theorem length_encode (width n : Nat) : (encode width n).length = width := by
  induction width generalizing n with
  | zero => rfl
  | succ width ih => simp [encode, ih]

theorem decode_encode (width n : Nat) : decode (encode width n) = n % capacity width := by
  induction width generalizing n with
  | zero => simp [encode, decode, capacity, Nat.mod_one]
  | succ width ih =>
    rw [encode, decode, ih, capacity, Nat.mod_mul]
    simp only [UInt8.toNat_ofNat']

theorem encode_decode (bs : Bytes) : encode bs.length (decode bs) = bs := by
  induction bs with
  | nil => rfl
  | cons b bs ih =>
    have hb : b.toNat < 256 := b.toNat_lt
    have low : UInt8.ofNat (b.toNat + 256 * decode bs) = b := by
      apply UInt8.toNat_inj.mp
      simp only [UInt8.toNat_ofNat']
      omega
    have high : (b.toNat + 256 * decode bs) / 256 = decode bs := by omega
    simp [encode, decode, low, high, ih]

end LittleEndian

end ReliableDatagram
