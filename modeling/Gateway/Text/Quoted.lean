import Gateway.Text.Basic
import Gateway.Text.Unprintable
/-!
# Quoted text

Error messages show foreign text in double quotes. Inside them a quote or a
backslash has a backslash before it, the common control characters have their
short forms, and any other character that would not show is given by its code
point.
-/
namespace Gateway.Text

/-- The code point of a character in hexadecimal, between braces. -/
def escapeCode (c : Char) : Text :=
  "\\u\x7b".toList ++ Nat.toDigits 16 c.toNat ++ "\x7d".toList

/-- A character as it stands inside quotes. -/
def escape (c : Char) : Text :=
  match c with
  | '"' => "\\\"".toList
  | '\\' => "\\\\".toList
  | '\n' => "\\n".toList
  | '\r' => "\\r".toList
  | '\t' => "\\t".toList
  | '\x00' => "\\0".toList
  | _ => if isUnprintable c then escapeCode c else [c]

/-- A text in quotes. -/
def quoted (s : Text) : Text :=
  '"' :: s.flatMap escape ++ ['"']

end Gateway.Text
