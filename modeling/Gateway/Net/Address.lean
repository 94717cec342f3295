import Gateway.Text.Numeral
/-!
# Addresses

An IP address of either version, its text, and the endpoint that an address and
a port make. An IPv4 address has four decimal bytes without leading zeros. An
IPv6 address has eight hexadecimal groups, of which one run may be shortened to
two colons and the last two may be written as an IPv4 address.
-/
namespace Gateway

/-- An IPv4 address, byte by byte. -/
structure Ipv4 where
  a : UInt8
  b : UInt8
  c : UInt8
  d : UInt8
  deriving DecidableEq, Repr

/-- An IPv6 address, by its groups of sixteen bits. -/
structure Ipv6 where
  groups : Vector UInt16 8
  deriving DecidableEq, Repr

/-- An address of either version. -/
inductive IpAddress where
  | v4 (address : Ipv4)
  | v6 (address : Ipv6)
  deriving DecidableEq, Repr

/-- Where to connect to, or to send to. -/
structure Endpoint where
  address : IpAddress
  port : UInt16
  /-- The network interface that an IPv6 address belongs to, zero if that is left open. -/
  scope : UInt32 := 0
  deriving DecidableEq, Repr

/-! ## Writing

The text of an address is written piece by piece, which shows where a buffer
may run out. -/

/-- Four decimal bytes with dots between them. -/
def Ipv4.pieces (x : Ipv4) : List Text :=
  [Text.decimal x.a.toNat, ['.'], Text.decimal x.b.toNat, ['.'],
    Text.decimal x.c.toNat, ['.'], Text.decimal x.d.toNat]

def Ipv4.text (x : Ipv4) : Text := x.pieces.flatten

namespace Ipv6

/-- The address of a list of groups, filled up with zeros. -/
def ofGroups (gs : List UInt16) : Ipv6 := ⟨Vector.ofFn fun i => gs.getD i 0⟩

/-- Some consecutive groups. -/
structure Run where
  start : Nat
  length : Nat

/-- The first of the longest runs of zeros, going through the groups from position `i`. -/
def longestZeros (longest current : Run) (i : Nat) : List UInt16 → Run
  | [] => longest
  | g :: gs =>
    if g = 0 then
      let current := if current.length = 0 then ⟨i, 1⟩ else ⟨current.start, current.length + 1⟩
      longestZeros (if longest.length < current.length then current else longest) current (i + 1) gs
    else longestZeros longest ⟨0, 0⟩ (i + 1) gs

/-- Groups in hexadecimal with colons between them. -/
def groupPieces (gs : List UInt16) : List Text :=
  (gs.map fun g => Nat.toDigits 16 g.toNat).intersperse [':']

/-- The IPv4 address that a mapped one, `::ffff:a.b.c.d`, stands for. -/
def mapped? (x : Ipv6) : Option Ipv4 :=
  match x.groups.toList with
  | [0, 0, 0, 0, 0, 0xFFFF, g, h] =>
    some ⟨(g >>> 8).toUInt8, g.toUInt8, (h >>> 8).toUInt8, h.toUInt8⟩
  | _ => none

/-- The first longest run of at least two zeros is written as two colons. -/
def pieces (x : Ipv6) : List Text :=
  match x.mapped? with
  | some y => "::ffff:".toList :: y.pieces
  | none =>
    let gs := x.groups.toList
    let zeros := longestZeros ⟨0, 0⟩ ⟨0, 0⟩ 0 gs
    if 1 < zeros.length then
      groupPieces (gs.take zeros.start) ++ "::".toList ::
        groupPieces (gs.drop (zeros.start + zeros.length))
    else groupPieces gs

end Ipv6

/-- The pieces of an address of either version. -/
def IpAddress.pieces : IpAddress → List Text
  | .v4 x => x.pieces
  | .v6 x => x.pieces

def IpAddress.text (x : IpAddress) : Text := x.pieces.flatten

/-- The port follows a colon, and an IPv6 address stands in brackets, with its interface
after a percent sign. -/
def Endpoint.pieces (e : Endpoint) : List Text :=
  match e.address with
  | .v4 x => x.pieces ++ [[':'], Text.decimal e.port.toNat]
  | .v6 x =>
    let scope := if e.scope = 0 then [] else [['%'], Text.decimal e.scope.toNat]
    ['['] :: x.pieces ++ scope ++ ["]:".toList, Text.decimal e.port.toNat]

def Endpoint.text (e : Endpoint) : Text := e.pieces.flatten

/-! ## Reading

Each reader takes what it wants from the front of a text and leaves the rest. -/

/-- A decimal byte. -/
def readByte (s : Text) : Option (UInt8 × Text) :=
  let digits := s.takeWhile Char.isDigit
  let n := Nat.ofDigitChars 10 digits 0
  if digits = [] || 3 < digits.length || (1 < digits.length && digits.head? = some '0') || 255 < n then none
  else some (n.toUInt8, s.dropWhile Char.isDigit)

/-- One to four hexadecimal digits. -/
def readGroup (s : Text) : Option (UInt16 × Text) :=
  let digits := s.takeWhile Text.isHexDigit
  if digits = [] || 4 < digits.length then none
  else some ((Text.ofHexDigits digits).toUInt16, s.dropWhile Text.isHexDigit)

/-- What `read` takes after a given character. -/
def readAfter {α : Type} (sep : Char) (read : Text → Option (α × Text)) : Text → Option (α × Text)
  | [] => none
  | c :: s => if c = sep then read s else none

/-- Four decimal bytes with dots between them. -/
def readIpv4 (s : Text) : Option (Ipv4 × Text) := do
  let (a, s) ← readByte s
  let (b, s) ← readAfter '.' readByte s
  let (c, s) ← readAfter '.' readByte s
  let (d, s) ← readAfter '.' readByte s
  return (⟨a, b, c, d⟩, s)

/-- Groups with colons between them, at most `room`, of which an IPv4 address at the
end takes two. Says whether it ended with one. All but the first group need a colon
before them. -/
def readGroups (room : Nat) (isFirst : Bool) (s : Text) : List UInt16 × Bool × Text :=
  match room with
  | 0 => ([], false, s)
  | room + 1 =>
    let readIpv4 := if isFirst then readIpv4 else readAfter ':' readIpv4
    let readGroup := if isFirst then readGroup else readAfter ':' readGroup
    match if 1 ≤ room then readIpv4 s else none with
    | some (x, s) => ([x.a.toUInt16 <<< 8 ||| x.b.toUInt16, x.c.toUInt16 <<< 8 ||| x.d.toUInt16], true, s)
    | none =>
      match readGroup s with
      | none => ([], false, s)
      | some (g, s) =>
        let (gs, dotted, s) := readGroups room false s
        (g :: gs, dotted, s)

/-- Eight groups, or fewer around two colons; an IPv4 address may only be the end. -/
def readIpv6 (s : Text) : Option (Ipv6 × Text) := do
  let (front, dotted, s) := readGroups 8 true s
  if front.length = 8 then return (Ipv6.ofGroups front, s)
  if dotted then none
  let (_, s) ← readAfter ':' (readAfter ':' fun s => some ((), s)) s
  let (back, _, s) := readGroups (7 - front.length) true s
  return (Ipv6.ofGroups (front ++ List.replicate (8 - front.length - back.length) 0 ++ back), s)

/-- The address that is written in a whole text. -/
def IpAddress.parse? (s : Text) : Option IpAddress :=
  match readIpv4 s with
  | some (x, rest) => if rest = [] then some (.v4 x) else none
  | none =>
    match readIpv6 s with
    | some (x, rest) => if rest = [] then some (.v6 x) else none
    | none => none

/-- A decimal number below `bound`, with any number of leading zeros. -/
def readNumber (bound : Nat) (s : Text) : Option (Nat × Text) := do
  let n ← Text.digits? (s.takeWhile Char.isDigit)
  if n < bound then some (n, s.dropWhile Char.isDigit) else none

/-- The interface after an address, and what follows it. -/
def readScope (s : Text) : UInt32 × Text :=
  match readAfter '%' (readNumber 0x100000000) s with
  | some (n, s) => (n.toUInt32, s)
  | none => (0, s)

/-- An address and a port after a colon. Only an IPv6 address stands in brackets and may have an
interface. -/
def readEndpoint (s : Text) : Option (Endpoint × Text) :=
  match readIpv4 s with
  | some (x, s) => do
    let (port, s) ← readAfter ':' (readNumber 65536) s
    return (⟨.v4 x, port.toUInt16, 0⟩, s)
  | none => do
    let (x, s) ← readAfter '[' readIpv6 s
    let (scope, s) := readScope s
    let (port, s) ← readAfter ']' (readAfter ':' (readNumber 65536)) s
    return (⟨.v6 x, port.toUInt16, scope⟩, s)

/-- The endpoint that is written in a whole text. -/
def Endpoint.parse? (s : Text) : Option Endpoint :=
  match readEndpoint s with
  | some (e, []) => some e
  | _ => none

end Gateway
