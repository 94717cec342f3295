import Gateway.Text.Numeral
/-!
# Characters of XML

Which characters a document may hold, which of them may stand for themselves, and
which make up names. The second edition of the rules, XML 1.1, allows the control
characters, most of them only as character references.
-/
namespace Gateway.Xml

/-- The version that a document declares. -/
inductive Edition where
  | xml10
  | xml11
  deriving DecidableEq, Repr

/-- White space in markup, which is less than what is blank in text. -/
def isSpace (c : Char) : Bool := c = ' ' || c = '\t' || c = '\n' || c = '\r'

/-- The characters of comments, of CDATA sections and of character references. -/
def isAllowed (e : Edition) (c : Char) : Bool :=
  let n := c.toNat
  match e with
  | .xml10 => isSpace c || (0x20 ≤ n && n ≤ 0xD7FF) || (0xE000 ≤ n && n ≤ 0xFFFD) || 0x10000 ≤ n
  | .xml11 => (1 ≤ n && n ≤ 0xD7FF) || (0xE000 ≤ n && n ≤ 0xFFFD) || 0x10000 ≤ n

/-- The characters that text and attribute values may hold as they are. -/
def isPlain (e : Edition) (c : Char) : Bool :=
  let n := c.toNat
  isAllowed e c && match e with
    | .xml10 => true
    | .xml11 => isSpace c || (0x20 ≤ n && n ≤ 0x7E) || n = 0x85 || 0xA0 ≤ n

/-- The characters that names may begin with. -/
def isNameStart (c : Char) : Bool :=
  let n := c.toNat
  c = ':' || c = '_' || c.isAlpha || (0xC0 ≤ n && n ≤ 0xD6) || (0xD8 ≤ n && n ≤ 0xF6) ||
    (0xF8 ≤ n && n ≤ 0x2FF) || (0x370 ≤ n && n ≤ 0x37D) || (0x37F ≤ n && n ≤ 0x1FFF) ||
    (0x200C ≤ n && n ≤ 0x200D) || (0x2070 ≤ n && n ≤ 0x218F) || (0x2C00 ≤ n && n ≤ 0x2FEF) ||
    (0x3001 ≤ n && n ≤ 0xD7FF) || (0xF900 ≤ n && n ≤ 0xFDCF) || (0xFDF0 ≤ n && n ≤ 0xFFFD) ||
    (0x10000 ≤ n && n ≤ 0xEFFFF)

/-- The characters that names may go on with. -/
def isNameChar (c : Char) : Bool :=
  let n := c.toNat
  isNameStart c || c = '-' || c = '.' || c.isDigit || n = 0xB7 || (0x300 ≤ n && n ≤ 0x36F) ||
    (0x203F ≤ n && n ≤ 0x2040)

/-- Whether `c` may follow `name`, which is empty at the start of a name. -/
def continuesName (name : Text) (c : Char) : Bool :=
  if name = [] then isNameStart c else isNameChar c

/-- The character of a code point, which no surrogate has. -/
def charOfCode? (n : Nat) : Option Char :=
  if n < 0xD800 || (0xE000 ≤ n && n < 0x110000) then some (Char.ofNat n) else none

/-- The character that a reference names by what follows its number sign: the code
point in decimal, or in hexadecimal after an x. -/
def charReference? (e : Edition) (s : Text) : Option Char := do
  let n ← match s with
    | 'x' :: digits => Text.hexNumber? 0x100000000 digits
    | digits => Text.number? 0x100000000 digits
  let c ← charOfCode? n
  if isAllowed e c then some c else none

/-- The characters that have names of their own. -/
def namedChar? (name : Text) : Option Char :=
  if name = "lt".toList then some '<'
  else if name = "gt".toList then some '>'
  else if name = "amp".toList then some '&'
  else if name = "apos".toList then some '\''
  else if name = "quot".toList then some '"'
  else none

end Gateway.Xml
