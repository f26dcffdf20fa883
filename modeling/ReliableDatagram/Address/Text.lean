import ReliableDatagram.Address.Basic

/-!
# Text of addresses

IPv4 addresses are dotted decimals. IPv6 addresses are written in the compressed form of RFC 5952:
lower-case groups without leading zeros, with the first longest run of at least two zero groups
left out. A zone follows after a percent sign. A port follows after a colon, and IPv6 addresses
then stand in brackets. Where a host is named, an IPv4 address may also be written with less than
four numbers, and each of them in octal or hexadecimal.
-/

namespace ReliableDatagram

namespace IpAddr

/-- The `count` parts of `width` bits each that make up a number, highest first. -/
def parts (width count n : Nat) : List Nat :=
  (List.range count).map fun i => (n >>> (width * (count - 1 - i))) % (1 <<< width)

/-- Puts parts of `width` bits together again. -/
def join (width : Nat) (parts : List Nat) : Nat :=
  parts.foldl (fun n part => (n <<< width) + part) 0

def dotted (n : Nat) : String :=
  ".".intercalate ((parts 8 4 n).map toString)

def hexGroups (groups : List Nat) : String :=
  ":".intercalate (groups.map fun g => String.ofList (Nat.toDigits 16 g))

/-- Start and length of the first longest run of zeros. -/
def longestZeroRun (groups : List Nat) : Nat × Nat :=
  (List.range groups.length).foldl
    (fun best i =>
      let length := ((groups.drop i).takeWhile (· == 0)).length
      if length > best.2 then (i, length) else best)
    (0, 0)

def groupsText (groups : List Nat) : String :=
  let run := longestZeroRun groups
  if run.2 < 2 then hexGroups groups
  else hexGroups (groups.take run.1) ++ "::" ++ hexGroups (groups.drop (run.1 + run.2))

/-- An IPv6 address that stands for an IPv4 address shows that one in dotted decimals. -/
def v6Text (n : Nat) : String :=
  if n >>> 32 = 0xffff then "::ffff:" ++ dotted (n % 0x100000000)
  else groupsText (parts 16 8 n)

def toText : IpAddr → String
  | v4 bits => dotted bits.toNat
  | v6 bits zone =>
    if zone = 0 then v6Text bits.toNat else s!"{v6Text bits.toNat}%{zone.toNat}"

end IpAddr

def SocketAddr.toText (a : SocketAddr) : String :=
  match a.ip with
  | .v4 _ => s!"{a.ip.toText}:{a.port.toNat}"
  | .v6 .. => s!"[{a.ip.toText}]:{a.port.toNat}"

def Key.toText (k : Key) : String := s!"{k.addr.toText}:{k.channel.toNat}"

namespace IpAddr

def digit? (base : Nat) (c : Char) : Option Nat :=
  let value :=
    if c.isDigit then c.toNat - '0'.toNat
    else if 'a' ≤ c ∧ c ≤ 'f' then c.toNat - 'a'.toNat + 10
    else if 'A' ≤ c ∧ c ≤ 'F' then c.toNat - 'A'.toNat + 10
    else base
  if value < base then some value else none

/-- A number of at least one and at most `limit` digits. -/
def number? (base limit : Nat) (text : String) : Option Nat :=
  let cs := text.toList
  if cs = [] ∨ cs.length > limit then none
  else cs.foldlM (fun n c => (digit? base c).map (n * base + ·)) 0

/-- Four numbers up to 255, none with a leading zero. -/
def octets? (text : String) : Option (List Nat) := do
  let octets ← (text.splitOn ".").mapM fun part => do
    let n ← number? 10 3 part
    if n < 256 ∧ (part.length = 1 ∨ part.front ≠ '0') then some n else none
  if octets.length = 4 then some octets else none

/-- A decimal number below `bound`, with any number of leading zeros. -/
def decimalBelow? (bound : Nat) (text : String) : Option Nat :=
  (number? 10 text.length text).filter (· < bound)

/-- Groups of an IPv6 address. -/
def groups? (text : String) : Option (List Nat) :=
  if text.isEmpty then some [] else (text.splitOn ":").mapM (number? 16 4)

/-- Groups at the end of an IPv6 address, the last two of which may be dotted decimals. -/
def lastGroups? (text : String) : Option (List Nat) :=
  let words := text.splitOn ":"
  match words.getLast?.bind octets? with
  | none => groups? text
  | some octets => do
    let groups ← words.dropLast.mapM (number? 16 4)
    return groups ++ parts 16 2 (join 8 octets)

def parseV4? (text : String) : Option IpAddr :=
  (octets? text).map fun octets => v4 (BitVec.ofNat 32 (join 8 octets))

/-- The eight groups of an IPv6 address. -/
def allGroups? (text : String) : Option (List Nat) := do
  let groups ← match text.splitOn "::" with
    | [whole] => lastGroups? whole
    | [left, right] => do
      let left ← groups? left
      let right ← lastGroups? right
      guard (left.length + right.length < 8)
      return left ++ List.replicate (8 - left.length - right.length) 0 ++ right
    | _ => none
  guard (groups.length = 8)
  return groups

def ofGroups (zone : Nat) (groups : List Nat) : IpAddr :=
  v6 (BitVec.ofNat 128 (join 16 groups)) (UInt32.ofNat zone)

/-- Whether addresses have a meaning on one link only: unicast ones of the link, and multicast ones
of an interface or a link. -/
def onLink (groups : List Nat) : Bool :=
  let first := groups.headD 0
  first >>> 6 = 0xfe80 >>> 6 || (first >>> 8 = 0xff && (first % 16 = 1 || first % 16 = 2))

/-- An address with a zone, which is a number, or the name of an interface on the link. -/
def parseZoned? (interface? : String → Option Nat) (text : String) : Option IpAddr :=
  match text.splitOn "%" with
  | [text, zone] => do
    let groups ← allGroups? text
    let named := if onLink groups then interface? zone else none
    let zone ← named.or (decimalBelow? 0x100000000 zone)
    return ofGroups zone groups
  | _ => none

def parseV6? (text : String) : Option IpAddr :=
  ((allGroups? text).map (ofGroups 0)).or (parseZoned? (fun _ => none) text)

/-- An address without a zone, in the form in which addresses are shown. -/
def parsePlain? (text : String) : Option IpAddr :=
  (parseV4? text).or ((allGroups? text).map (ofGroups 0))

/-- A number whose start tells its base: hexadecimal after `0x`, octal after another `0`, and
decimal otherwise. -/
def basedNumber? (text : String) : Option Nat :=
  match text.toList with
  | '0' :: 'x' :: digits | '0' :: 'X' :: digits =>
    number? 16 digits.length (String.ofList digits)
  | '0' :: _ :: _ => number? 8 text.length text
  | _ => number? 10 text.length text

/-- One to four numbers: the last one fills all bytes that the others, of one byte each, leave. -/
def parseNumbers? (text : String) : Option IpAddr := do
  let numbers ← (text.splitOn ".").mapM basedNumber?
  let last ← numbers.getLast?
  let leading := numbers.dropLast
  let free := 4 - leading.length
  guard (0 < free ∧ leading.all (· < 256) ∧ last < 1 <<< (8 * free))
  return v4 (BitVec.ofNat 32 (join 8 (leading ++ parts 8 free last)))

/-- An address in any of its notations, where interfaces have names. -/
def parse? (interface? : String → Option Nat) (text : String) : Option IpAddr :=
  (parsePlain? text).or ((parseZoned? interface? text).or (parseNumbers? text))

end IpAddr

namespace SocketAddr

def port? (text : String) : Option UInt16 :=
  (IpAddr.decimalBelow? 0x10000 text).map UInt16.ofNat

def parse? (text : String) : Option SocketAddr :=
  match text.splitOn "]:" with
  | [host, port] => do
    guard (host.startsWith "[")
    some ⟨← IpAddr.parseV6? (String.ofList (host.toList.drop 1)), ← port? port⟩
  | _ =>
    match text.splitOn ":" with
    | [host, port] => do some ⟨← IpAddr.parseV4? host, ← port? port⟩
    | _ => none

end SocketAddr

end ReliableDatagram
