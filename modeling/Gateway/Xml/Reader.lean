import Gateway.Text.Utf8
import Gateway.Xml.Character
import Gateway.Xml.Tree
/-!
# The state of a reader of XML

A document is read one character at a time. `Reader` is what is known between two
characters: where in the markup it stands, the elements that have been begun, the
text since the last markup, the entities that were declared and how the rest of the
document is encoded. Text that is being collected is kept backwards.
-/
namespace Gateway.Xml

/-! ## Where a reader stands -/

/-- A start tag of which the name and some attributes have been read. -/
structure Opening where
  name : QName
  attributes : List (QName × Text) := []
  /-- The namespaces that the tag declares, the default one under the empty name. -/
  bindings : List (Text × Text) := []

/-- How the rest of the document is encoded. -/
inductive Encoding where
  /-- UTF-8 for want of anything that says otherwise. -/
  | assumed
  | utf8
  | latin1
  | ascii
  deriving DecidableEq, Repr

/-- What an XML declaration may still say. -/
inductive Stage where
  | version
  | encoding
  | standalone
  | nothing
  deriving DecidableEq, Repr

/-- What an XML declaration has said so far. -/
structure Declaration where
  stage : Stage := .version
  encoding : Option Text := none

/-- What a quoted value is for. -/
inductive Holder where
  | attribute (t : Opening) (name : QName)
  | declared (d : Declaration) (name : Text)

/-- Where a reader stands inside a document type declaration. -/
inductive DocType where
  | between
  | quoted (quote : Char)
  | markup
  | bang
  | commentStart
  | comment (dashes : Nat)
  | keyword (name : Text)
  | beforeName
  | entityName (name : Text)
  | beforeParameterName
  | beforeValue (name : Text)
  | value (name : Text) (quote : Char) (text : Text)
  /-- After an ampersand in a value. -/
  | ampersand (name : Text) (quote : Char) (text : Text)
  | number (name : Text) (quote : Char) (text digits : Text)
  /-- In the name of a parameter entity that a value includes. -/
  | included (name : Text) (quote : Char) (text parameter : Text)
  /-- In the name of a parameter entity between declarations. -/
  | parameter (name : Text)
  /-- In what is left of a declaration, perhaps in quotes. -/
  | rest (quote : Option Char)
  /-- In a processing instruction, perhaps after a question mark. -/
  | instruction (ending : Bool)

/-- Where a reader stands in the markup, with what it has read there so far. -/
inductive Mode where
  /-- Nothing has been read but perhaps a byte order mark. -/
  | start (marked : Bool)
  /-- In text, after so many closing brackets, of which two are as good as more. -/
  | content (brackets : Nat)
  /-- After `<`, which may have been the document's first character. -/
  | markup (first : Bool)
  /-- After `<!` and some more of what may follow it. -/
  | bang (read : Text)
  | comment (text : Text) (dashes : Nat)
  | cdata (text : Text) (brackets : Nat)
  | target (first : Bool) (name : Text) (ending : Bool)
  | instruction (target text : Text) (ending : Bool)
  | tagName (name : Text)
  /-- In a start tag, before an attribute if there has been space. -/
  | tag (t : Opening) (spaced : Bool)
  /-- After the slash that ends an empty element's tag. -/
  | emptyTag (t : Opening)
  | attribute (t : Opening) (name : Text)
  | equals (h : Holder)
  | quote (h : Holder)
  | value (h : Holder) (quote : Char) (text : Text)
  | endName (name : Text)
  | endTag (name : Text)
  | declaration (d : Declaration) (spaced : Bool)
  | declarationName (d : Declaration) (name : Text)
  /-- After the question mark that ends an XML declaration. -/
  | declarationEnd (d : Declaration)
  | docType (d : DocType)
  /-- In the name of a reference, in text or in the value to go back to. -/
  | reference (name : Text) (back : Mode)

/-! ## What a reader knows -/

/-- An element that has been begun. -/
structure Frame where
  tag : Tag
  /-- Its children so far, the latest first. -/
  children : List Node := []
  /-- The namespaces that hold inside it, the innermost first. -/
  scope : List (Text × Text)

/-- What is known between two characters of a document. -/
structure Reader where
  mode : Mode := .start false
  /-- The text since the last markup. -/
  run : Text := []
  /-- Whether that text counts as white space. Other text in a CDATA section just
  before it makes it count as text. -/
  blank : Bool := true
  /-- The elements that have been begun, the innermost first. -/
  frames : List Frame := []
  root : Option Element := none
  mayHaveDocType : Bool := true
  edition : Edition := .xml10
  encoding : Encoding := .assumed
  /-- The entities that were declared; the names of parameter entities begin with a percent sign. -/
  entities : Table Text Text := {}

/-! ## Namespaces -/

/-- What the qualifier "xml" stands for in every document. -/
def xmlUri : Text := "http://www.w3.org/XML/1998/namespace".toList

/-- What the qualifier "xmlns" stands for in every document. -/
def xmlnsUri : Text := "http://www.w3.org/2000/xmlns/".toList

/-- The namespaces that every document has. -/
def outerScope : List (Text × Text) :=
  [([], []), ("xml".toList, xmlUri), ("xmlns".toList, xmlnsUri)]

/-- The URI that a qualifier stands for, by the innermost declaration of it. -/
def bound? (scope : List (Text × Text)) (qualifier : Text) : Option Text :=
  (scope.find? fun b => b.1 = qualifier).map (·.2)

/-- The qualifiers that no element may have. -/
def isReserved (qualifier : Option Text) : Bool :=
  qualifier = some "xml".toList || qualifier = some "xmlns".toList

/-- What an attribute does to its tag. The name "xmlns" and the qualifier "xmlns" declare
namespaces, of which the first declaration counts. Neither they nor "xml" may be given
another meaning, and no qualifier may be bound to nothing. -/
def Opening.add? (t : Opening) (name : QName) (value : Text) : Option Opening :=
  let bind := fun (qualifier : Text) => { t with bindings := t.bindings ++ [(qualifier, value)] }
  if name.qualifier = some "xmlns".toList then
    if name.base = "xmlns".toList || (name.base = "xml".toList && value ≠ xmlUri) || value = [] then none
    else some (bind name.base)
  else if name.qualifier = none && name.base = "xmlns".toList then
    if value = "xmlns".toList || value = "xml".toList || value = xmlUri || value = xmlnsUri then none
    else some (bind [])
  else some { t with attributes := t.attributes ++ [(name, value)] }

/-! ## Declarations -/

/-- Whether a declaration may go on with a name. -/
def Stage.allows (s : Stage) (name : Text) : Bool :=
  match s with
  | .version => name = "version".toList
  | .encoding => name = "encoding".toList || name = "standalone".toList
  | .standalone => name = "standalone".toList
  | .nothing => false

/-- Whether one name is the other, or begins with it, in any case of letters. -/
def agrees (label name : Text) : Bool :=
  let n := min label.length name.length
  Text.sameLetters (label.take n) (name.take n)

/-- What a declared encoding makes of the rest of a document. A name counts as one of
the known ones if it begins with it or is its beginning. UTF-16 cannot follow what has
been read byte by byte, and a byte order mark leaves UTF-8 alone. -/
def Encoding.declare? (e : Encoding) (name : Text) : Option Encoding :=
  let isOneOf := fun (labels : List String) => labels.any fun l => agrees l.toList name
  let declared :=
    if isOneOf ["utf-8", "utf8"] then some .utf8
    else if isOneOf ["iso-8859-1", "latin1"] then some .latin1
    else if isOneOf ["utf-16", "utf16"] then none
    else if isOneOf ["ascii", "us-ascii"] then some .ascii
    else none
  declared.bind fun d => if e = .assumed || e = d then some d else none

namespace Reader

/-- The namespaces that hold where the reader stands. -/
def scope (r : Reader) : List (Text × Text) :=
  match r.frames with
  | [] => outerScope
  | f :: _ => f.scope

/-! ## Building the tree -/

/-- Adds a child to the innermost element. Outside of the root only the first element is kept. -/
def push (r : Reader) (n : Node) : Reader :=
  match r.frames with
  | f :: frames => { r with frames := { f with children := n :: f.children } :: frames }
  | [] =>
    match n.toElement? with
    | some e => { r with root := r.root.or (some e) }
    | none => r

/-- Ends the text since the last markup, which is a child unless it counts as white space. -/
def endRun (r : Reader) : Reader :=
  let r := if r.run = [] || r.blank then r else r.push (.text r.run.reverse)
  { r with run := [], blank := true }

/-- Goes back to text, when some markup has ended. -/
def toContent (r : Reader) : Reader := { r with mode := .content 0 }

/-- The tag of a start tag that has been read, and the namespaces that hold inside it.
The qualifiers of its name and its attributes must be bound. -/
def resolve? (r : Reader) (t : Opening) : Option (Tag × List (Text × Text)) := do
  let scope := t.bindings ++ r.scope
  let uri ← bound? scope (t.name.qualifier.getD [])
  if t.attributes.all fun a => (bound? scope (a.1.qualifier.getD [])).isSome then
    let attributes := t.attributes.foldl (fun table a => table.insert a.1.base a.2) ({} : Table Text Text)
    some (⟨t.name, if uri = [] then none else some uri, attributes⟩, scope)
  else none

/-- Begins an element, when its start tag has ended. -/
def openElement? (r : Reader) (t : Opening) : Option Reader := do
  let (tag, scope) ← r.resolve? t
  return { r with
    mode := .content 0, mayHaveDocType := false
    frames := { tag := tag, scope := scope } :: r.frames }

/-- Adds an element without children, whose only tag has ended. -/
def emptyElement? (r : Reader) (t : Opening) : Option Reader := do
  let (tag, _) ← r.resolve? t
  return { r with mode := .content 0, mayHaveDocType := false }.push (.element tag [])

/-- Ends the innermost element, whose name an end tag must repeat. -/
def closeElement? (r : Reader) (name : Text) : Option Reader := do
  let q ← QName.ofText? name
  match r.frames with
  | [] => none
  | f :: frames =>
    if f.tag.name = q then
      some ({ r with mode := .content 0, frames := frames }.push (.element f.tag f.children.reverse))
    else none

end Reader

end Gateway.Xml
