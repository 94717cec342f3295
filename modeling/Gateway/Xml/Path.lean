import Gateway.Net.Address
import Gateway.Xml.Tree
/-!
# Paths

A path names an element by the names on the way down to it, with dots between them.
Each name is a segment: `*:n` stands for `n` with or without a qualifier, `q:n` for `n`
with the qualifier `q`, and `n` for `n` without one. Of several elements that a segment
stands for, the first is taken.
-/
namespace Gateway.Xml

/-- A name in a path. -/
inductive Segment where
  | any (name : Text)
  | qualified (qualifier name : Text)
  | plain (name : Text)
  deriving DecidableEq, Repr

namespace Segment

/-- The segment that `s` is, divided at its first colon. -/
def ofText (s : Text) : Segment :=
  match Text.cutAt? [':'] s with
  | some (['*'], name) => .any name
  | some (qualifier, name) => .qualified qualifier name
  | none => .plain s

/-- Whether a segment stands for an element. -/
def covers (x : Segment) (e : Element) : Bool :=
  match x with
  | .any name => e.name = name
  | .qualified qualifier name => e.name = name && e.qualifier = some qualifier
  | .plain name => e.name = name && e.qualifier = none

end Segment

/-- The segments of a path. -/
def segments (path : Text) : List Segment := (path.splitOn '.').map Segment.ofText

namespace Element

/-- The child elements that a segment stands for. -/
def matching (e : Element) (x : Segment) : List Element := e.elements.filter x.covers

/-- The element below `e` at the end of some segments. -/
def descend? (e : Element) : List Segment → Option Element
  | [] => some e
  | x :: xs =>
    match e.matching x with
    | [] => none
    | c :: _ => c.descend? xs

/-- The element at the end of a path that starts with the children of `e`. -/
def child? (e : Element) (path : Text) : Option Element := e.descend? (segments path)

/-- The element at the end of a path that starts with `root` itself. -/
def find? (root : Element) (path : Text) : Option Element :=
  match segments path with
  | [] => none
  | x :: xs => if x.covers root then root.descend? xs else none

/-! ## Values -/

/-- The text of the element at the end of a path, without the blanks around it. An
element without text has the empty one. -/
def textAt? (e : Element) (path : Text) : Option Text :=
  (e.child? path).map fun c => Text.trim (c.text?.getD [])

/-- A number below `bound`. -/
def numberAt? (bound : Nat) (e : Element) (path : Text) : Option Nat :=
  (e.textAt? path).bind (Text.number? bound)

/-- A port number. -/
def portAt? (e : Element) (path : Text) : Option UInt16 :=
  (e.numberAt? 65536 path).map Nat.toUInt16

/-- An IP address of either version. -/
def addressAt? (e : Element) (path : Text) : Option IpAddress :=
  (e.textAt? path).bind IpAddress.parse?

/-- The words for true and false, in any case of letters. -/
def flagOfText? (s : Text) : Option Bool :=
  if ["1".toList, "true".toList, "yes".toList].contains (Text.lower s) then some true
  else if ["0".toList, "false".toList, "no".toList].contains (Text.lower s) then some false
  else none

/-- A truth value. -/
def flagAt? (e : Element) (path : Text) : Option Bool := (e.textAt? path).bind flagOfText?

end Element

end Gateway.Xml
