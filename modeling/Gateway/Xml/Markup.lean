import Gateway.Text.Basic
/-!
# Markup to be written

Elements as they are to stand in a document: names and attributes are written as they
are given, and the characters that markup is made of are escaped in text and values.
An element is never shortened, not even when it is empty.
-/
namespace Gateway.Xml

/-- An element to be written, or text in one. -/
inductive Markup where
  | text (s : Text)
  | element (name : Text) (attributes : List (Text × Text)) (children : List Markup)

namespace Markup

/-- An element that holds text and nothing else. -/
def field (name value : Text) : Markup := .element name [] [.text value]

/-- A character as it is written in text. -/
def escapeChar (c : Char) : Text :=
  match c with
  | '<' => "&lt;".toList
  | '>' => "&gt;".toList
  | '&' => "&amp;".toList
  | _ => [c]

/-- In a value the quotes are escaped as well, and the ends of lines. -/
def escapeValueChar (c : Char) : Text :=
  match c with
  | '"' => "&quot;".toList
  | '\'' => "&apos;".toList
  | '\n' => "&#xA;".toList
  | '\r' => "&#xD;".toList
  | _ => escapeChar c

/-- A text as it is written, with nothing in it that is markup. -/
def escape (s : Text) : Text := s.flatMap escapeChar

/-- An attribute with the space before it. -/
def attributeText (a : Text × Text) : Text :=
  ' ' :: a.1 ++ "=\"".toList ++ a.2.flatMap escapeValueChar ++ ['"']

mutual

/-- An element between its two tags, or text. -/
def write : Markup → Text
  | .text s => escape s
  | .element name attributes children =>
    '<' :: name ++ attributes.flatMap attributeText ++ '>' :: writeAll children ++
      "</".toList ++ name ++ ['>']

/-- Elements and text one behind the other. -/
def writeAll : List Markup → Text
  | [] => []
  | m :: ms => write m ++ writeAll ms

end

/-- A document that says in front that it is XML. -/
def document (m : Markup) : Text :=
  "<?xml version=\"1.0\" encoding=\"UTF-8\"?>".toList ++ m.write

end Markup

end Gateway.Xml
