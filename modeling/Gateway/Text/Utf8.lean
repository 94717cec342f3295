import Gateway.Text.Basic
/-!
# UTF-8

Datagrams are bytes and the library works on text. Decoding goes byte by byte:
a character's first byte says how many follow and which ones may come next. Where
bytes stop making a character, the longest part that could still have begun one
counts as a single broken sequence.
-/
namespace Gateway.Utf8

/-- What is sent and received. -/
abbrev Bytes := List UInt8

/-! ## Writing -/

/-- The six low bits of `n / 64 ^ k`, as a byte that continues a character. -/
def tail (n k : Nat) : UInt8 := UInt8.ofNat (0x80 + n / Nat.pow 64 k % 64)

/-- The one to four bytes of a character. -/
def encodeChar (c : Char) : Bytes :=
  let n := c.toNat
  if n < 0x80 then [UInt8.ofNat n]
  else if n < 0x800 then [UInt8.ofNat (0xC0 + n / 64), tail n 0]
  else if n < 0x10000 then [UInt8.ofNat (0xE0 + n / 4096), tail n 1, tail n 0]
  else [UInt8.ofNat (0xF0 + n / 262144), tail n 2, tail n 1, tail n 0]

/-- The bytes of a text. -/
def encode (s : Text) : Bytes := s.flatMap encodeChar

/-! ## Reading -/

/-- A character some of whose bytes have been read: their value, how many more are
due, and the range in which the next one must lie. -/
structure Partial where
  value : Nat
  due : Nat
  low : Nat
  high : Nat

/-- What a byte begins. -/
inductive Lead where
  | char (c : Char)
  | longer (p : Partial)
  | nothing

/-- What a byte begins. Some bytes narrow the range of the next, so that no character has two
forms and no surrogate has one. -/
def lead (b : UInt8) : Lead :=
  let n := b.toNat
  if n < 0x80 then .char (Char.ofNat n)
  else if n < 0xC2 then .nothing
  else if n < 0xE0 then .longer ⟨n - 0xC0, 1, 0x80, 0xBF⟩
  else if n = 0xE0 then .longer ⟨0, 2, 0xA0, 0xBF⟩
  else if n = 0xED then .longer ⟨0xD, 2, 0x80, 0x9F⟩
  else if n < 0xF0 then .longer ⟨n - 0xE0, 2, 0x80, 0xBF⟩
  else if n = 0xF0 then .longer ⟨0, 3, 0x90, 0xBF⟩
  else if n < 0xF4 then .longer ⟨n - 0xF0, 3, 0x80, 0xBF⟩
  else if n = 0xF4 then .longer ⟨4, 3, 0x80, 0x8F⟩
  else .nothing

/-- The characters of a byte sequence, `none` standing for each broken one. The
argument is the character being read, if the bytes before have begun one. -/
def decodeFrom : Option Partial → Bytes → List (Option Char)
  | none, [] => []
  | some _, [] => [none]
  | none, b :: bytes =>
    match lead b with
    | .char c => some c :: decodeFrom none bytes
    | .longer p => decodeFrom (some p) bytes
    | .nothing => none :: decodeFrom none bytes
  | some p, b :: bytes =>
    if p.low ≤ b.toNat && b.toNat ≤ p.high then
      let value := p.value * 64 + (b.toNat - 0x80)
      if p.due = 1 then some (Char.ofNat value) :: decodeFrom none bytes
      else decodeFrom (some ⟨value, p.due - 1, 0x80, 0xBF⟩) bytes
    else
      none :: match lead b with
        | .char c => some c :: decodeFrom none bytes
        | .longer q => decodeFrom (some q) bytes
        | .nothing => none :: decodeFrom none bytes

/-- The text of a byte sequence that is wholly UTF-8. -/
def decode? (bytes : Bytes) : Option Text := (decodeFrom none bytes).mapM id

/-- The text of any byte sequence, each broken part shown as U+FFFD. -/
def decodeLossy (bytes : Bytes) : Text :=
  (decodeFrom none bytes).map fun c => c.getD '\uFFFD'

end Gateway.Utf8
