/-!
# Text

A text is a list of characters. Here are the ways the wire formats cut and
compare one: at the first occurrence of a separator, at the blanks around it,
into words and into lines, and without regard to the case of ASCII letters.
Offsets into a text count the bytes of its UTF-8 form.
-/
namespace Gateway

/-- What is read and written, as the characters it consists of. -/
abbrev Text := List Char

namespace Text

/-! ## Cutting -/

/-- What follows `start` in a text that begins with it. -/
def after? : Text → Text → Option Text
  | [], s => some s
  | _ :: _, [] => none
  | p :: start, c :: s => if p = c then after? start s else none

/-- The parts of a text before and after the first occurrence of `sep`. -/
def cutAt? (sep : Text) : Text → Option (Text × Text)
  | [] => (after? sep []).map fun rest => ([], rest)
  | c :: s =>
    match after? sep (c :: s) with
    | some rest => some ([], rest)
    | none => (cutAt? sep s).map fun (front, rest) => (c :: front, rest)

/-! ## Blanks, words and lines -/

/-- Unicode's White_Space. -/
def isBlank (c : Char) : Bool :=
  let n := c.toNat
  (9 ≤ n && n ≤ 13) || n = 0x20 || n = 0x85 || n = 0xA0 || n = 0x1680 || (0x2000 ≤ n && n ≤ 0x200A) ||
    n = 0x2028 || n = 0x2029 || n = 0x202F || n = 0x205F || n = 0x3000

/-- A text without the blanks at its two ends. -/
def trim (s : Text) : Text :=
  ((s.dropWhile isBlank).reverse.dropWhile isBlank).reverse

/-- The runs of characters that are not blank. -/
def words : Text → List Text
  | [] => []
  | c :: s =>
    if isBlank c then words s
    else match s with
      | [] => [[c]]
      | d :: _ =>
        if isBlank d then [c] :: words s
        else match words s with
          | [] => [[c]]
          | word :: rest => (c :: word) :: rest

/-- A line without the carriage return that ends it. -/
def dropReturn : Text → Text
  | [] => []
  | ['\r'] => []
  | c :: s => c :: dropReturn s

/-- The lines of a text. Each ends at a line feed, with or without a carriage
return before it; what follows the last line feed is a line unless it is empty. -/
def lines (s : Text) : List Text :=
  let parts := s.splitOn '\n'
  let last := parts.getLastD []
  (parts.dropLast.map dropReturn) ++ (if last = [] then [] else [last])

/-! ## ASCII letters -/

/-- A text with its ASCII letters as capitals. -/
def upper (s : Text) : Text := s.map Char.toUpper

/-- A text with its ASCII letters as small ones. -/
def lower (s : Text) : Text := s.map Char.toLower

/-- Equality up to the case of ASCII letters. -/
def sameLetters (s t : Text) : Bool := lower s == lower t

/-! ## Bytes -/

/-- The number of bytes of a text. -/
def size : Text → Nat
  | [] => 0
  | c :: s => c.utf8Size + size s

/-- The parts of a text before and after a byte offset. There are none when the
offset falls inside a character or beyond the end. -/
def splitAt? : Nat → Text → Option (Text × Text)
  | 0, s => some ([], s)
  | _ + 1, [] => none
  | n + 1, c :: s =>
    if c.utf8Size ≤ n + 1 then
      (splitAt? (n + 1 - c.utf8Size) s).map fun (front, rest) => (c :: front, rest)
    else none

/-- The part of a text between two byte offsets. -/
def slice? (start stop : Nat) (s : Text) : Option Text := do
  let (_, rest) ← splitAt? start s
  let (part, _) ← splitAt? (stop - start) rest
  return part

end Text

end Gateway
