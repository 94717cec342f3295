import Gateway.Net.Address
import Gateway.Text.Utf8
/-!
# Search requests

An M-SEARCH is put together from pieces and written into a buffer of fixed size.
Writing stops for good at the first piece that does not fit whole, so a request that
is too long is cut between two pieces.
-/
namespace Gateway

/-- What an M-SEARCH says. -/
structure SearchRequest where
  /-- Where the search is sent. -/
  host : Endpoint
  /-- The kind of device or service that should answer. -/
  target : Text
  /-- How many seconds a device may wait. -/
  mx : Nat
  userAgent : Text

namespace SearchRequest

/-- The pieces in which a request is written, each of them whole or not at all. -/
def pieces (r : SearchRequest) : List Text :=
  "M-SEARCH * HTTP/1.1\r\nHOST: ".toList :: r.host.pieces ++
  ["\r\nST: ".toList, r.target,
    "\r\nMAN: \"ssdp:discover\"\r\nMX: ".toList, Text.decimal r.mx,
    "\r\nUSER-AGENT: ".toList, r.userAgent, "\r\n\r\n".toList]

/-- A request in full. -/
def text (r : SearchRequest) : Text := r.pieces.flatten

end SearchRequest

/-! ## Writing -/

/-- A buffer that is written from its front on, and how far it has been. -/
structure Cursor where
  buffer : Utf8.Bytes
  position : Nat := 0

namespace Cursor

/-- Writes a piece behind what has been written, unless there is no room for the whole of it. -/
def write? (c : Cursor) (piece : Text) : Option Cursor :=
  let bytes := Utf8.encode piece
  let next := c.position + bytes.length
  if next ≤ c.buffer.length then
    some ⟨c.buffer.take c.position ++ bytes ++ c.buffer.drop next, next⟩
  else none

/-- Writes pieces one after another, up to the first that cannot be written. -/
def writeAll (c : Cursor) : List Text → Cursor
  | [] => c
  | piece :: pieces =>
    match c.write? piece with
    | some c => c.writeAll pieces
    | none => c

end Cursor

/-- Writes a request to the front of a buffer. Gives the buffer and how much was written. -/
def SearchRequest.write (r : SearchRequest) (buffer : Utf8.Bytes) : Utf8.Bytes × Nat :=
  let c := Cursor.writeAll { buffer } r.pieces
  (c.buffer, c.position)

end Gateway
