import Gateway.Text.Basic
/-!
# Numerals

A number is read from ASCII digits with at most one sign before them; leading
zeros are allowed, and a value outside the wanted range is refused. It is
written with the fewest digits.
-/
namespace Gateway.Text

/-- A number in decimal digits. -/
def decimal (n : Nat) : Text := Nat.toDigits 10 n

/-- The value of a text of ASCII digits, of which there must be one at least. -/
def digits? (s : Text) : Option Nat :=
  if s ≠ [] && s.all Char.isDigit then some (Nat.ofDigitChars 10 s 0) else none

/-- A number below `bound`, with or without a plus sign. -/
def number? (bound : Nat) (s : Text) : Option Nat := do
  let n ← match s with
    | '+' :: s => digits? s
    | s => digits? s
  if n < bound then some n else none

/-- The value of a hexadecimal digit, of either case. -/
def hexDigit? (c : Char) : Option Nat :=
  if c.isDigit then some (c.toNat - '0'.toNat)
  else if 'a' ≤ c && c ≤ 'f' then some (c.toNat - 'a'.toNat + 10)
  else if 'A' ≤ c && c ≤ 'F' then some (c.toNat - 'A'.toNat + 10)
  else none

def isHexDigit (c : Char) : Bool := (hexDigit? c).isSome

/-- The value of hexadecimal digits. -/
def ofHexDigits (s : Text) : Nat := s.foldl (fun n c => n * 16 + (hexDigit? c).getD 0) 0

/-- The value of a text of hexadecimal digits, of which there must be one at least. -/
def hexDigits? (s : Text) : Option Nat :=
  if s ≠ [] && s.all isHexDigit then some (ofHexDigits s) else none

/-- A hexadecimal number below `bound`, with or without a plus sign. -/
def hexNumber? (bound : Nat) (s : Text) : Option Nat := do
  let n ← match s with
    | '+' :: s => hexDigits? s
    | s => hexDigits? s
  if n < bound then some n else none

/-- An integer from `-bound` to `bound - 1`, with or without a sign. -/
def integer? (bound : Nat) (s : Text) : Option Int :=
  match s with
  | '-' :: s => do
    let n ← digits? s
    if n ≤ bound then some (-(n : Int)) else none
  | s => (number? bound s).map Int.ofNat

/-- An integer in decimal, with a minus sign when it is negative. -/
def signedDecimal : Int → Text
  | .ofNat n => decimal n
  | .negSucc n => '-' :: decimal (n + 1)

end Gateway.Text
