import ReliableDatagram.Bytes
import ReliableDatagram.PacketId

/-!
# Packets

A packet is a header of twelve bytes and a payload. Acknowledgements repeat the header of the
packet that they answer, so that its sender recognises its own timestamp.
-/

namespace ReliableDatagram

namespace Packet

inductive Kind
  | data
  | ack
  | reset
  | ackReset
  | ping
  | ackPing
deriving DecidableEq

namespace Kind

def code : Kind → UInt8
  | data => 0
  | ack => 1
  | reset => 2
  | ackReset => 3
  | ping => 4
  | ackPing => 5

def ofCode? (b : UInt8) : Option Kind :=
  match b.toNat with
  | 0 => some data
  | 1 => some ack
  | 2 => some reset
  | 3 => some ackReset
  | 4 => some ping
  | 5 => some ackPing
  | _ => none

def name : Kind → String
  | data => "Data"
  | ack => "Ack"
  | reset => "Reset"
  | ackReset => "AckReset"
  | ping => "Ping"
  | ackPing => "AckPing"

/-- Acknowledgements of data and of resets are bare headers. -/
def carriesPayload : Kind → Bool
  | ack | ackReset => false
  | _ => true

/-- Only these kinds let a receiver create a channel for a sender it does not know. -/
def opensChannel : Kind → Bool
  | data | ping => true
  | _ => false

@[simp] theorem ofCode?_code (k : Kind) : ofCode? k.code = some k := by cases k <;> rfl

theorem code_of_ofCode? {b : UInt8} {k : Kind} (h : ofCode? b = some k) : k.code = b := by
  apply UInt8.toNat_inj.mp
  unfold ofCode? at h
  split at h <;> simp_all <;> subst h <;> rfl

end Kind

def version : Nat := 1

def maxChannel : UInt8 := 15

structure Header where
  channel : UInt8
  id : PacketId
  kind : Kind
  /-- The sender's millisecond clock, repeated by acknowledgements. -/
  timestamp : UInt32
  payloadLength : UInt16
deriving DecidableEq

def Header.size : Nat := 12

end Packet

structure Packet where
  header : Packet.Header
  payload : Bytes
deriving DecidableEq

namespace Packet

/-- A packet whose header declares the length of its payload. -/
def make (channel : UInt8) (id : PacketId) (kind : Kind) (timestamp : UInt32) (payload : Bytes) :
    Packet :=
  ⟨⟨channel, id, kind, timestamp, UInt16.ofNat payload.length⟩, payload⟩

def data (channel : UInt8) (id : PacketId) (timestamp : UInt32) (payload : Bytes) : Packet :=
  make channel id .data timestamp payload

def ping (channel : UInt8) (timestamp : UInt32) (payload : Bytes) : Packet :=
  make channel .streamStart .ping timestamp payload

def reset (channel : UInt8) (timestamp : UInt32) : Packet :=
  make channel .streamStart .reset timestamp []

def echo (p : Packet) (kind : Kind) (payload : Bytes) : Packet :=
  make p.header.channel p.header.id kind p.header.timestamp payload

def ack (p : Packet) : Packet := p.echo .ack []

def ackReset (p : Packet) : Packet := p.echo .ackReset []

/-- The answer to a ping returns the payload too. -/
def ackPing (p : Packet) : Packet := p.echo .ackPing p.payload

end Packet

end ReliableDatagram
