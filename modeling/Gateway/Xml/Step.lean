import Gateway.Xml.Reader
/-!
# Reading one character

What each character does to a reader, mode by mode. A character that the markup does
not allow ends the reading without a result. The end of a reference to a declared
entity also gives the entity's text, which is to be read next in its place.
-/
namespace Gateway.Xml.Reader

/-! ## Text and markup -/

/-- Outside of the root element there is only space between markup. Inside, text holds
all but ampersands, and no `]]>`. -/
def stepContent (r : Reader) (brackets : Nat) (c : Char) : Option Reader :=
  if c = '<' then some { r.endRun with mode := .markup false }
  else if r.frames.isEmpty then if isSpace c then some r.toContent else none
  else if c = '&' then some { r with mode := .reference [] (.content 0) }
  else if c = '>' && brackets = 2 then none
  else if isPlain r.edition c then
    some { r with
      mode := .content (if c = ']' then min 2 (brackets + 1) else 0)
      run := c :: r.run, blank := r.blank && isSpace c }
  else none

/-- The character that may stand before a document in UTF-8. -/
def byteOrderMark : Char := '\uFEFF'

/-- A byte order mark settles that the document is UTF-8. -/
def stepStart (r : Reader) (marked : Bool) (c : Char) : Option Reader :=
  if c = byteOrderMark && !marked then some { r with mode := .start true, encoding := .utf8 }
  else if c = '<' then some { r with mode := .markup true }
  else r.stepContent 0 c

/-- After `<`, the character that says what markup it is. End tags need an element to end. -/
def stepMarkup (r : Reader) (first : Bool) (c : Char) : Option Reader :=
  if c = '?' then some { r with mode := .target first [] false }
  else if c = '/' then if r.frames.isEmpty then none else some { r with mode := .endName [] }
  else if c = '!' then some { r with mode := .bang [] }
  else if isNameStart c then some { r with mode := .tagName [c] }
  else none

/-- A comment, a CDATA section inside the root, or a single document type declaration
before it. -/
def stepBang (r : Reader) (read : Text) (c : Char) : Option Reader :=
  let read := read ++ [c]
  if read = "--".toList then some { r with mode := .comment [] 0 }
  else if read = "[CDATA[".toList then
    if r.frames.isEmpty then none else some { r with mode := .cdata [] 0 }
  else if read = "DOCTYPE".toList then
    if r.mayHaveDocType then some { r with mode := .docType .between, mayHaveDocType := false } else none
  else if ["--".toList, "[CDATA[".toList, "DOCTYPE".toList].any read.isPrefixOf then
    some { r with mode := .bang read }
  else none

/-- Two dashes only stand before the `>` that ends a comment. -/
def stepComment (r : Reader) (text : Text) (dashes : Nat) (c : Char) : Option Reader :=
  match dashes with
  | 0 =>
    if c = '-' then some { r with mode := .comment text 1 }
    else if isAllowed r.edition c then some { r with mode := .comment (c :: text) 0 }
    else none
  | 1 =>
    if c = '-' then some { r with mode := .comment text 2 }
    else if isAllowed r.edition c then some { r with mode := .comment (c :: '-' :: text) 0 }
    else none
  | _ => if c = '>' then some (r.toContent.push (.comment text.reverse)) else none

/-- Ends a CDATA section, which is a child even if it is empty. -/
def endCData (r : Reader) (text : Text) : Reader :=
  { r.toContent.push (.cdata text.reverse) with blank := r.blank && text.all isSpace }

/-- In a CDATA section, which only `]]>` ends. -/
def stepCData (r : Reader) (text : Text) (brackets : Nat) (c : Char) : Option Reader :=
  match brackets with
  | 0 =>
    if c = ']' then some { r with mode := .cdata text 1 }
    else if isAllowed r.edition c then some { r with mode := .cdata (c :: text) 0 }
    else none
  | 1 =>
    if c = ']' then some { r with mode := .cdata text 2 }
    else if isAllowed r.edition c then some { r with mode := .cdata (c :: ']' :: text) 0 }
    else none
  | _ =>
    if c = '>' then some (r.endCData text)
    else if c = ']' then some { r with mode := .cdata (']' :: text) 2 }
    else if isAllowed r.edition c then some { r with mode := .cdata (c :: ']' :: ']' :: text) 0 }
    else none

/-! ## Processing instructions -/

/-- No target is "xml", but for the declaration that may begin the document. A target
that is followed by space may be empty. -/
def stepTarget (r : Reader) (first : Bool) (name : Text) (ending : Bool) (c : Char) : Option Reader :=
  let isXml := Text.sameLetters name.reverse "xml".toList
  if ending then
    if c = '>' && name ≠ [] && !isXml then some (r.toContent.push (.instruction name.reverse none))
    else none
  else if c = '?' then some { r with mode := .target first name true }
  else if isSpace c then
    if first && name.reverse = "xml".toList then some { r with mode := .declaration {} true }
    else if isXml then none
    else some { r with mode := .instruction name.reverse [] false }
  else if continuesName name c then some { r with mode := .target first (c :: name) false }
  else none

/-- After the target of a processing instruction, up to `?>`. -/
def stepInstruction (r : Reader) (target text : Text) (ending : Bool) (c : Char) : Option Reader :=
  if ending && c = '>' then some (r.toContent.push (.instruction target (some text.reverse)))
  else
    let text := if ending then '?' :: text else text
    if c = '?' then some { r with mode := .instruction target text true }
    else if isAllowed r.edition c then some { r with mode := .instruction target (c :: text) false }
    else none

/-! ## Tags -/

/-- After a name or a value in a start tag. Attributes have space before them. -/
def stepTag (r : Reader) (t : Opening) (spaced : Bool) (c : Char) : Option Reader :=
  if c = '>' then r.openElement? t
  else if c = '/' then some { r with mode := .emptyTag t }
  else if isSpace c then some { r with mode := .tag t true }
  else if spaced && isNameStart c then some { r with mode := .attribute t [c] }
  else none

/-- In the name of a start tag. Some qualifiers are not for elements. -/
def stepTagName (r : Reader) (name : Text) (c : Char) : Option Reader :=
  if isNameChar c then some { r with mode := .tagName (c :: name) }
  else do
    let name ← QName.ofText? name.reverse
    if isReserved name.qualifier then none else r.stepTag { name := name } false c

/-- After the name of an attribute, which the tag must not have yet. -/
def endAttributeName (r : Reader) (t : Opening) (name : Text) (mode : Holder → Mode) : Option Reader := do
  let name ← QName.ofText? name.reverse
  if t.attributes.any fun a => a.1 = name then none
  else some { r with mode := mode (.attribute t name) }

/-- In the name of an attribute. -/
def stepAttribute (r : Reader) (t : Opening) (name : Text) (c : Char) : Option Reader :=
  if isNameChar c then some { r with mode := .attribute t (c :: name) }
  else if c = '=' then r.endAttributeName t name .quote
  else if isSpace c then r.endAttributeName t name .equals
  else none

/-- In the name of an end tag. -/
def stepEndName (r : Reader) (name : Text) (c : Char) : Option Reader :=
  if c = '>' then r.closeElement? name.reverse
  else if isSpace c then some { r with mode := .endTag name.reverse }
  else if continuesName name c then some { r with mode := .endName (c :: name) }
  else none

/-- After the name of an end tag, where only space may stand. -/
def stepEndTag (r : Reader) (name : Text) (c : Char) : Option Reader :=
  if c = '>' then r.closeElement? name else if isSpace c then some r else none

/-! ## The XML declaration -/

/-- After a value, or before the first name, in an XML declaration. -/
def stepDeclaration (r : Reader) (d : Declaration) (spaced : Bool) (c : Char) : Option Reader :=
  if isSpace c then some { r with mode := .declaration d true }
  else if c = '?' then if d.stage = .version then none else some { r with mode := .declarationEnd d }
  else if spaced && isNameStart c then some { r with mode := .declarationName d [c] }
  else none

/-- In a name of an XML declaration, which must be one that may come now. -/
def stepDeclarationName (r : Reader) (d : Declaration) (name : Text) (c : Char) : Option Reader :=
  let allowed := d.stage.allows name.reverse
  if isNameChar c then some { r with mode := .declarationName d (c :: name) }
  else if c = '=' && allowed then some { r with mode := .quote (.declared d name.reverse) }
  else if isSpace c && allowed then some { r with mode := .equals (.declared d name.reverse) }
  else none

/-- Takes in one value of an XML declaration: a version that there is, the name of an encoding,
or yes or no. -/
def declare? (r : Reader) (d : Declaration) (name value : Text) : Option Reader :=
  if name = "version".toList then
    let next := Mode.declaration { d with stage := .encoding } false
    if value = "1.0".toList then some { r with mode := next, edition := .xml10 }
    else if value = "1.1".toList then some { r with mode := next, edition := .xml11 }
    else none
  else if name = "encoding".toList then
    some { r with mode := .declaration { stage := .standalone, encoding := some value } false }
  else if value = "yes".toList || value = "no".toList then
    some { r with mode := .declaration { d with stage := .nothing } false }
  else none

/-- At the end of an XML declaration the encoding that it names comes into force. -/
def stepDeclarationEnd (r : Reader) (d : Declaration) (c : Char) : Option Reader :=
  if c = '>' then
    match d.encoding with
    | none => some r.toContent
    | some name => do
      let e ← r.encoding.declare? name
      return { r.toContent with encoding := e }
  else none

/-! ## Values and references -/

/-- Between a name and its equals sign. -/
def stepEquals (r : Reader) (h : Holder) (c : Char) : Option Reader :=
  if c = '=' then some { r with mode := .quote h } else if isSpace c then some r else none

/-- Between an equals sign and the quotation mark that begins the value. -/
def stepQuote (r : Reader) (h : Holder) (c : Char) : Option Reader :=
  if c = '"' || c = '\'' then some { r with mode := .value h c [] } else if isSpace c then some r else none

/-- Goes on with the tag or the declaration that a value was for. -/
def endValue (r : Reader) (h : Holder) (value : Text) : Option Reader :=
  match h with
  | .attribute t name => do
    let t ← t.add? name value
    return { r with mode := .tag t false }
  | .declared d name => r.declare? d name value

/-- In a value, which ends with the quotation mark that began it. -/
def stepValue (r : Reader) (h : Holder) (quote : Char) (text : Text) (c : Char) : Option Reader :=
  if c = quote then r.endValue h text.reverse
  else if c = '&' then some { r with mode := .reference [] (.value h quote text) }
  else if c = '<' then none
  else if isPlain r.edition c then some { r with mode := .value h quote (c :: text) }
  else none

/-- Goes back to text or to a value with one more character. -/
def addChar (r : Reader) (back : Mode) (c : Char) : Reader :=
  match back with
  | .value h quote text => { r with mode := .value h quote (c :: text) }
  | _ => { r with mode := back, run := c :: r.run, blank := r.blank && isSpace c }

/-- Goes back with what an entity stands for. In text that is read as markup in its turn;
in a value it stands as it is. -/
def addEntity (r : Reader) (back : Mode) (s : Text) : Reader × Text :=
  match back with
  | .value h quote text => ({ r with mode := .value h quote (s.reverse ++ text) }, [])
  | _ => ({ r with mode := back }, s)

/-- At the end of a reference: to a character by its code or its name, or to an entity. -/
def endReference (r : Reader) (name : Text) (back : Mode) : Option (Reader × Text) :=
  match name with
  | [] => none
  | '#' :: code => (charReference? r.edition code).map fun c => (r.addChar back c, [])
  | _ =>
    match namedChar? name with
    | some c => some (r.addChar back c, [])
    | none => (r.entities.get? name).map (r.addEntity back)

/-- In the name of a reference. -/
def stepReference (r : Reader) (name : Text) (back : Mode) (c : Char) : Option (Reader × Text) :=
  if c = ';' then r.endReference name.reverse back
  else if if name = [] then isNameStart c || c = '#' else isNameChar c then
    some ({ r with mode := .reference (c :: name) back }, [])
  else none

/-! ## The document type declaration

Entities are remembered; all else is skipped. -/

/-- The first declaration of an entity counts. -/
def declareEntity (r : Reader) (name value : Text) : Reader :=
  { r with
    entities := if (r.entities.get? name).isSome then r.entities else r.entities.insert name value }

/-- In a document type declaration, up to the `>` that ends it. -/
def stepDocType (r : Reader) (d : DocType) (c : Char) : Option (Reader × Text) :=
  let go := fun (d : DocType) => some ({ r with mode := .docType d }, ([] : Text))
  match d with
  | .between =>
    if c = '>' then some (r.toContent, [])
    else if c = '<' then go .markup
    else if c = '%' then go (.parameter ['%'])
    else if c = '"' || c = '\'' then go (.quoted c)
    else go .between
  | .quoted quote => go (if c = quote then .between else .quoted quote)
  | .markup =>
    if c = '!' then go .bang
    else if c = '?' then go (.instruction false)
    else if c = '/' || isSpace c || isNameChar c then go .between
    else none
  | .instruction ending =>
    go (if ending && c = '>' then .between else .instruction (c = '?'))
  | .bang =>
    if c = '-' then go .commentStart
    else if c = 'E' || c = 'A' || c = 'N' then go (.keyword [c])
    else none
  | .commentStart => if c = '-' then go (.comment 0) else none
  | .comment dashes =>
    if dashes = 2 then if c = '>' then go .between else none
    else go (.comment (if c = '-' then dashes + 1 else 0))
  | .keyword name =>
    if 'A' ≤ c && c ≤ 'Z' then go (.keyword (c :: name))
    else if isSpace c then
      if name.reverse = "ENTITY".toList then go .beforeName
      else if ["NOTATION".toList, "ELEMENT".toList, "ATTLIST".toList].contains name.reverse then go (.rest none)
      else none
    else none
  | .beforeName =>
    if isSpace c then go .beforeName
    else if c = '%' then go .beforeParameterName
    else if isNameStart c then go (.entityName [c])
    else none
  | .beforeParameterName =>
    if isSpace c then go .beforeParameterName
    else if isNameStart c then go (.entityName [c, '%'])
    else none
  | .entityName name =>
    if isSpace c then go (.beforeValue name.reverse)
    else if isNameChar c then go (.entityName (c :: name))
    else none
  | .beforeValue name =>
    if isSpace c then go (.beforeValue name)
    else if c = 'S' || c = 'P' then
      some ({ r.declareEntity name [] with mode := .docType (.rest none) }, [])
    else if c = '"' || c = '\'' then go (.value name c [])
    else none
  | .value name quote text =>
    if c = quote then
      some ({ r.declareEntity name text.reverse with mode := .docType (.rest none) }, [])
    else if c = '&' then go (.ampersand name quote text)
    else if c = '%' then go (.included name quote text ['%'])
    else if isAllowed r.edition c then go (.value name quote (c :: text))
    else none
  | .ampersand name quote text =>
    if c = quote then none
    else if c = '#' then go (.number name quote text [])
    else if isAllowed r.edition c then go (.value name quote (c :: '&' :: text))
    else none
  | .number name quote text digits =>
    if c = quote then none
    else if c = ';' then
      (charReference? r.edition digits.reverse).bind fun x => go (.value name quote (x :: text))
    else if isAllowed r.edition c then go (.number name quote text (c :: digits))
    else none
  | .included name quote text parameter =>
    if c = ';' then
      (r.entities.get? parameter.reverse).bind fun s => go (.value name quote (s.reverse ++ text))
    else if isNameChar c then go (.included name quote text (c :: parameter))
    else none
  | .parameter name =>
    if c = ';' then
      (r.entities.get? name.reverse).map fun s => ({ r with mode := .docType .between }, s)
    else if isNameChar c then go (.parameter (c :: name))
    else none
  | .rest (some quote) => go (.rest (if c = quote then none else some quote))
  | .rest none =>
    if c = '>' then go .between
    else if c = '<' then none
    else if c = '"' || c = '\'' then go (.rest (some c))
    else go (.rest none)

/-! ## All modes -/

/-- Reads one character. Gives the reader after it and the text of an entity to be read next. -/
def step (r : Reader) (c : Char) : Option (Reader × Text) :=
  let plainly := fun (r : Option Reader) => r.map fun r => (r, ([] : Text))
  match r.mode with
  | .start marked => plainly (r.stepStart marked c)
  | .content brackets => plainly (r.stepContent brackets c)
  | .markup first => plainly (r.stepMarkup first c)
  | .bang read => plainly (r.stepBang read c)
  | .comment text dashes => plainly (r.stepComment text dashes c)
  | .cdata text brackets => plainly (r.stepCData text brackets c)
  | .target first name ending => plainly (r.stepTarget first name ending c)
  | .instruction target text ending => plainly (r.stepInstruction target text ending c)
  | .tagName name => plainly (r.stepTagName name c)
  | .tag t spaced => plainly (r.stepTag t spaced c)
  | .emptyTag t => plainly (if c = '>' then r.emptyElement? t else none)
  | .attribute t name => plainly (r.stepAttribute t name c)
  | .equals h => plainly (r.stepEquals h c)
  | .quote h => plainly (r.stepQuote h c)
  | .value h quote text => plainly (r.stepValue h quote text c)
  | .endName name => plainly (r.stepEndName name c)
  | .endTag name => plainly (r.stepEndTag name c)
  | .declaration d spaced => plainly (r.stepDeclaration d spaced c)
  | .declarationName d name => plainly (r.stepDeclarationName d name c)
  | .declarationEnd d => plainly (r.stepDeclarationEnd d c)
  | .docType d => r.stepDocType d c
  | .reference name back => r.stepReference name back c

end Gateway.Xml.Reader
