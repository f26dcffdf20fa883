/-!
# Socket addresses and channel keys

Keys are ordered by IP address, port, zone and channel number, with all IPv4 addresses before all
IPv6 ones. The order is the order of natural numbers, through an injective rank.
-/

namespace ReliableDatagram

inductive IpAddr
  | v4 (bits : BitVec 32)
  /-- A link-local address belongs to a zone of the host; zone 0 is none. -/
  | v6 (bits : BitVec 128) (zone : UInt32)
deriving DecidableEq

structure SocketAddr where
  ip : IpAddr
  port : UInt16
deriving DecidableEq

/-- A channel is known by its peer's address and a channel number. -/
structure Key where
  addr : SocketAddr
  channel : UInt8
deriving DecidableEq

/-- The address without its zone. -/
def IpAddr.number : IpAddr → Nat
  | v4 bits => bits.toNat
  | v6 bits _ => 0x100000000 + bits.toNat

def IpAddr.zone : IpAddr → UInt32
  | v4 _ => 0
  | v6 _ zone => zone

/-- The port weighs more than the zone. -/
def SocketAddr.rank (a : SocketAddr) : Nat :=
  (a.ip.number * 0x10000 + a.port.toNat) * 0x100000000 + a.ip.zone.toNat

def Key.rank (k : Key) : Nat := k.addr.rank * 0x100 + k.channel.toNat

/-- The order of keys in every listing. -/
def Key.before (j k : Key) : Bool := decide (j.rank < k.rank)

def Key.sort (keys : List Key) : List Key := keys.mergeSort fun j k => decide (j.rank ≤ k.rank)

theorem IpAddr.eq_of_number_zone {a b : IpAddr} (number : a.number = b.number)
    (zone : a.zone = b.zone) : a = b := by
  cases a with
  | v4 x =>
    cases b with
    | v4 y => exact congrArg v4 (BitVec.eq_of_toNat_eq number)
    | v6 y _ =>
      have := x.isLt
      simp only [IpAddr.number] at number
      omega
  | v6 x _ =>
    cases b with
    | v4 y =>
      have := y.isLt
      simp only [IpAddr.number] at number
      omega
    | v6 y _ =>
      simp only [IpAddr.number] at number
      rw [BitVec.eq_of_toNat_eq (show x.toNat = y.toNat by omega)]
      exact congrArg (v6 y) zone

theorem SocketAddr.rank_injective {a b : SocketAddr} (h : a.rank = b.rank) : a = b := by
  obtain ⟨ip, port⟩ := a
  obtain ⟨ip', port'⟩ := b
  have low := port.toNat_lt
  have low' := port'.toNat_lt
  have lowest := ip.zone.toNat_lt
  have lowest' := ip'.zone.toNat_lt
  simp only [rank] at h
  have zone : ip.zone = ip'.zone := UInt32.toNat_inj.mp (by omega)
  rw [IpAddr.eq_of_number_zone (show ip.number = ip'.number by omega) zone,
    UInt16.toNat_inj.mp (show port.toNat = port'.toNat by omega)]

theorem Key.rank_injective {j k : Key} (h : j.rank = k.rank) : j = k := by
  obtain ⟨addr, channel⟩ := j
  obtain ⟨addr', channel'⟩ := k
  have low := channel.toNat_lt
  have low' := channel'.toNat_lt
  simp only [rank] at h
  rw [SocketAddr.rank_injective (a := addr) (b := addr') (by omega),
    UInt8.toNat_inj.mp (show channel.toNat = channel'.toNat by omega)]

end ReliableDatagram
