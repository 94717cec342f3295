import Gateway.Xml.Step
/-!
# Reading a document

A document is read from its first character to its last. The text of an entity is
read where the reference to it stands, and may refer to further entities, of which at
most ten follow one another before the document itself goes on. When nothing is left
to be closed the first of the elements that stand by themselves is the root.
-/
namespace Gateway.Xml

namespace Reader

/-- Reads a text, with `again` for what follows once an entity is put in. -/
def readWith (again : Text → Reader → Option Reader) : Text → Reader → Option Reader
  | [], r => some r
  | c :: s, r => do
    let (r, inserted) ← r.step c
    if inserted = [] then readWith again s r else again (inserted ++ s) r

/-- Reads a text in which at most `n` entities are put in. -/
def read : (n : Nat) → Text → Reader → Option Reader
  | 0 => readWith fun _ _ => none
  | n + 1 => readWith (read n)

/-- How many entities may follow one another before the document goes on. -/
def maxInsertions : Nat := 10

/-- The characters that one character of a document stands for in its encoding. Latin-1
takes each byte for a character. -/
def decoded (e : Encoding) (c : Char) : Option Text :=
  match e with
  | .assumed | .utf8 => some [c]
  | .latin1 => some ((Utf8.encodeChar c).map fun b => Char.ofNat b.toNat)
  | .ascii => if c.toNat < 0x80 then some [c] else none

/-- Reads one character of the document. -/
def feed (r : Reader) (c : Char) : Option Reader := do
  let s ← decoded r.encoding c
  s.foldlM (fun r c => r.read maxInsertions [c]) r

/-- Reads a document, one character after another. -/
def feedAll (r : Reader) (s : Text) : Option Reader := s.foldlM feed r

/-- The root, if the document may end here. -/
def finish (r : Reader) : Option Element :=
  match r.mode, r.frames with
  | .content _, [] => r.root
  | _, _ => none

end Reader

/-- The root element of a well-formed document. -/
def parse (s : Text) : Option Element := (({} : Reader).feedAll s).bind Reader.finish

end Gateway.Xml
