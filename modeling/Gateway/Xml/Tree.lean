import Gateway.Table
import Gateway.Text.Basic
/-!
# XML trees

An element has a name, perhaps with a qualifier before a colon, the URI of the
namespace it belongs to, attributes by the names they have without qualifiers, and
children. White space between markup is no child.
-/
namespace Gateway.Xml

/-- A name with or without a qualifier. -/
structure QName where
  qualifier : Option Text
  base : Text
  deriving DecidableEq, Repr

/-- At most one colon divides a name, into parts that are not empty. -/
def QName.ofText? (s : Text) : Option QName :=
  match s.splitOn ':' with
  | [base] => if base = [] then none else some ⟨none, base⟩
  | [qualifier, base] => if qualifier = [] || base = [] then none else some ⟨some qualifier, base⟩
  | _ => none

/-- What an element's start tag says. The URI is that of the namespace its name is in. -/
structure Tag where
  name : QName
  uri : Option Text
  attributes : Table Text Text

/-- What can stand inside of an element. -/
inductive Node where
  | element (tag : Tag) (children : List Node)
  | text (s : Text)
  | cdata (s : Text)
  | comment (s : Text)
  | instruction (target : Text) (data : Option Text)

/-- An element by itself, which is a node among others in its parent. -/
structure Element where
  tag : Tag
  children : List Node

def Element.toNode (e : Element) : Node := .element e.tag e.children

namespace Node

/-- The element that a node is, if it is one. -/
def toElement? : Node → Option Element
  | .element tag children => some ⟨tag, children⟩
  | _ => none

/-- The characters of text and of CDATA. -/
def toText? : Node → Option Text
  | .text s | .cdata s => some s
  | _ => none

end Node

namespace Element

/-- An element's name without the qualifier. -/
def name (e : Element) : Text := e.tag.name.base

def qualifier (e : Element) : Option Text := e.tag.name.qualifier

/-- The children that are elements. -/
def elements (e : Element) : List Element := e.children.filterMap Node.toElement?

/-- The text and CDATA directly in an element, joined, if there is any. -/
def text? (e : Element) : Option Text :=
  match e.children.filterMap Node.toText? with
  | [] => none
  | parts => some parts.flatten

end Element

end Gateway.Xml
