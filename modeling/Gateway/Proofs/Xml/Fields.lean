import Gateway.Proofs.Text
import Gateway.Proofs.Xml.RoundTrip
import Gateway.Xml.Path
/-!
# Fields of an element

An element may be a record: its children are fields, each a name and a text. A list of fields
is read as it was written (`denotes_fields`, `fields_map_fieldNode`), and a path of one segment
takes the first field that it stands for (`Element.textAt?_eq`, `Element.textAt?_any`). Here are
also the start tags that such elements stand in.
-/
namespace Gateway.Xml

/-! ## Names -/

/-- A name that has no qualifier. -/
structure IsLocalName (s : Text) : Prop where
  isName : isName s = true
  plain : ':' ∉ s

instance : DecidablePred IsLocalName := fun s =>
  decidable_of_iff (isName s = true ∧ ':' ∉ s) ⟨fun h => ⟨h.1, h.2⟩, fun h => ⟨h.isName, h.plain⟩⟩

namespace IsLocalName

variable {s : Text}

theorem ne_nil (h : IsLocalName s) : s ≠ [] := by
  rintro rfl
  exact absurd h.isName (by decide)

theorem ofText? (h : IsLocalName s) : QName.ofText? s = some ⟨none, s⟩ := by
  rw [QName.ofText?, List.splitOn_eq_singleton h.plain]
  exact if_neg h.ne_nil

theorem ofText?_qualified (h : IsLocalName s) {q : Text} (hq : ':' ∉ q) (hne : q ≠ []) :
    QName.ofText? (q ++ ':' :: s) = some ⟨some q, s⟩ := by
  rw [QName.ofText?, List.splitOn_append_cons_self_of_not_mem hq, List.splitOn_eq_singleton h.plain]
  simp [hne, h.ne_nil]

theorem isName_qualified (h : IsLocalName s) {q : Text} (hq : Xml.isName q = true) :
    Xml.isName (q ++ ':' :: s) = true := by
  cases q with
  | nil => cases hq
  | cons c q =>
    cases s with
    | nil => exact absurd rfl h.ne_nil
    | cons d s =>
      obtain ⟨hd, hs⟩ := isName_cons h.isName
      have hall : (q ++ ':' :: d :: s).all isNameChar = true := by
        simp only [List.all_append, List.all_cons, isNameChar_of_isNameStart hd, List.all_eq_true.2 hs,
          List.all_eq_true.2 (isName_cons hq).2, show isNameChar ':' = true by decide, Bool.and_true]
      rw [List.cons_append, Xml.isName, (isName_cons hq).1, hall, Bool.and_true]

end IsLocalName

/-! ## Start tags -/

variable {o : Opening} {a : Text × Text} {name uri : Text} {q : QName} {scope : List (Text × Text)}

/-- A namespace is declared by an attribute. -/
theorem Opening.with?_binding {qualifier : Text} (ho : o.attributes = []) (hp : IsLocalName qualifier)
    (hxmlns : qualifier ≠ "xmlns".toList) (hxml : qualifier ≠ "xml".toList) (huri : uri ≠ []) :
    o.with? ("xmlns".toList ++ ':' :: qualifier, uri) =
      some { o with bindings := o.bindings ++ [(qualifier, uri)] } := by
  have hq : QName.ofText? ("xmlns".toList ++ ':' :: qualifier) = some ⟨some "xmlns".toList, qualifier⟩ :=
    hp.ofText?_qualified (by decide) (by decide)
  have hfree : (decide (qualifier = "xmlns".toList) ||
      (decide (qualifier = "xml".toList) && decide (uri ≠ xmlUri)) || decide (uri = [])) = false := by
    rw [decide_eq_false hxmlns, decide_eq_false hxml, decide_eq_false huri, Bool.false_and, Bool.or_self, Bool.or_self]
  simp only [Opening.with?, hq, Option.bind_eq_bind, Option.bind_some, ho, List.any_nil, Bool.false_eq_true, if_false,
    Opening.add?, if_true, hfree]

theorem Opening.with?_attribute (ho : o.attributes = []) (hq : QName.ofText? a.1 = some q)
    (hxmlns : q.qualifier ≠ some "xmlns".toList) (hnone : q.qualifier ≠ none) :
    o.with? a = some { o with attributes := [(q, a.2)] } := by
  simp only [Opening.with?, hq, Option.bind_eq_bind, Option.bind_some, ho, List.any_nil, Bool.false_eq_true, if_false,
    Opening.add?, hxmlns, hnone, decide_false, Bool.false_and, List.nil_append]

/-- A start tag without attributes, of an element in a namespace or in none. -/
theorem opens_bare {uri : Option Text} (hname : isName name = true) (hq : QName.ofText? name = some q)
    (hu : isReserved q.qualifier = false) (huri : bound? scope (q.qualifier.getD []) = some (uri.getD []))
    (hne : uri ≠ some []) : Opens scope name [] ⟨q, uri, {}⟩ scope := by
  refine ⟨hname, hq, hu, nofun, { name := q }, rfl, fun r hr => ?_⟩
  have huri' : (if uri.getD [] = [] then none else some (uri.getD [])) = uri := by
    cases uri with
    | none => rfl
    | some uri => exact if_neg fun h => hne (congrArg some h)
  simp [Reader.resolve?, hr, huri, huri']

/-- The start tag of an element that declares the namespace it is in. -/
theorem opens_binding {qualifier base : Text} (hp : IsLocalName qualifier) (hbase : IsLocalName base)
    (hxmlns : qualifier ≠ "xmlns".toList) (hxml : qualifier ≠ "xml".toList) (huri : uri ≠ [])
    (hchars : ∀ c ∈ uri, isAllowed .xml10 c = true) :
    Opens scope (qualifier ++ ':' :: base) [("xmlns".toList ++ ':' :: qualifier, uri)]
      ⟨⟨some qualifier, base⟩, some uri, {}⟩ ((qualifier, uri) :: scope) := by
  have hunreserved : isReserved (some qualifier) = false := by
    simp only [isReserved, Option.some.injEq, decide_eq_false hxmlns, decide_eq_false hxml, Bool.or_self]
  have hwritable : Reader.IsWritable ("xmlns".toList ++ ':' :: qualifier, uri) :=
    ⟨hp.isName_qualified (by decide), hchars⟩
  refine ⟨hbase.isName_qualified hp.isName, hbase.ofText?_qualified hp.plain hp.ne_nil, hunreserved,
    by simpa using hwritable, { name := ⟨some qualifier, base⟩, bindings := [(qualifier, uri)] }, ?_, fun r hr => ?_⟩
  · rw [List.foldlM_cons, Opening.with?_binding rfl hp hxmlns hxml huri]
    rfl
  · simp [Reader.resolve?, hr, bound?, huri]

/-! ## Fields -/

/-- The node of a field, by its name and its text. -/
def fieldNode (a : Text × Text) : Node := .element ⟨⟨none, a.1⟩, none, {}⟩ (textNodes a.2)

/-- A field that can be written. -/
structure IsField (a : Text × Text) : Prop where
  name : IsLocalName a.1
  text : ∀ c ∈ a.2, isAllowed .xml10 c = true

theorem denotes_fields {scope : List (Text × Text)} (hscope : bound? scope [] = some []) {fields : List (Text × Text)}
    (h : ∀ a ∈ fields, IsField a) :
    Markup.Denotes scope [] (fields.map fun a => .field a.1 a.2) (fields.map fieldNode) := by
  induction fields with
  | nil => exact .done scope []
  | cons a fields ih =>
    obtain ⟨hname, htext⟩ := h a List.mem_cons_self
    exact .element (opens_bare hname.isName hname.ofText? rfl hscope nofun) (.text htext (.done scope a.2))
      (ih fun b hb => h b (List.mem_cons_of_mem _ hb))

theorem elements_map_textNodes (tag : Tag) (tagOf : Text × Text → Tag) (fields : List (Text × Text)) :
    (Element.mk tag (fields.map fun a => .element (tagOf a) (textNodes a.2))).elements =
      fields.map fun a => ⟨tagOf a, textNodes a.2⟩ := by
  simp [Element.elements, List.filterMap_map, Function.comp_def, Node.toElement?]

theorem elements_map_fieldNode (tag : Tag) (fields : List (Text × Text)) :
    (Element.mk tag (fields.map fieldNode)).elements = fields.map fun a => ⟨⟨⟨none, a.1⟩, none, {}⟩, textNodes a.2⟩ :=
  elements_map_textNodes tag (fun a => ⟨⟨none, a.1⟩, none, {}⟩) fields

/-- The elements in an element, by their names and by their texts without the blanks around them. -/
def Element.fields (e : Element) : List (QName × Text) :=
  e.elements.map fun c => (c.tag.name, Text.trim (c.text?.getD []))

theorem isBlank_of_isSpace {c : Char} (h : isSpace c = true) : Text.isBlank c = true := by
  have hcases : c = ' ' ∨ c = '\t' ∨ c = '\n' ∨ c = '\r' := by
    simpa [isSpace, or_assoc] using h
  rcases hcases with rfl | rfl | rfl | rfl <;> decide

theorem text?_textNodes (tag : Tag) (s : Text) :
    (Element.mk tag (textNodes s)).text?.getD [] = if s.all isSpace then [] else s := by
  unfold textNodes
  split
  · rfl
  · simp [Element.text?, Node.toText?]

/-- What is nothing but space is not read as text, and is nothing once it has been trimmed. -/
theorem trim_text?_textNodes (tag : Tag) (s : Text) :
    Text.trim ((Element.mk tag (textNodes s)).text?.getD []) = Text.trim s := by
  rw [text?_textNodes]
  split
  · next h =>
    rw [Text.trim_of_blank fun c hc => isBlank_of_isSpace (List.all_eq_true.1 h c hc)]
    rfl
  · rfl

theorem elements_textNodes (tag : Tag) (s : Text) : (Element.mk tag (textNodes s)).elements = [] := by
  unfold textNodes
  split <;> rfl

theorem fields_map_textNodes (tag : Tag) (tagOf : Text × Text → Tag) (fields : List (Text × Text)) :
    (Element.mk tag (fields.map fun a => .element (tagOf a) (textNodes a.2))).fields =
      fields.map fun a => ((tagOf a).name, Text.trim a.2) := by
  rw [Element.fields, elements_map_textNodes, List.map_map]
  exact List.map_congr_left fun a _ => congrArg (Prod.mk _) (trim_text?_textNodes _ a.2)

theorem fields_map_fieldNode (tag : Tag) (fields : List (Text × Text)) :
    (Element.mk tag (fields.map fieldNode)).fields = fields.map fun a => (⟨none, a.1⟩, Text.trim a.2) :=
  fields_map_textNodes tag (fun a => ⟨⟨none, a.1⟩, none, {}⟩) fields

namespace Element

variable {path : Text} {x : Segment}

/-- A path of one segment takes the first child that the segment stands for. -/
theorem child?_eq (hpath : segments path = [x]) (e : Element) : e.child? path = (e.matching x).head? := by
  rw [child?, hpath, descend?]
  cases e.matching x <;> rfl

theorem textAt?_of_covers {p : QName → Bool} (hpath : segments path = [x]) (hx : ∀ c : Element, x.covers c = p c.tag.name)
    (e : Element) : e.textAt? path = (e.fields.find? fun f => p f.1).map (·.2) := by
  rw [textAt?, child?_eq hpath, matching, List.head?_filter, funext hx, fields, List.find?_map, Option.map_map]
  rfl

/-- A path of one name takes the first field of that name, -/
theorem textAt?_eq (hpath : segments path = [.plain path]) (e : Element) :
    e.textAt? path = (e.fields.find? fun f => f.1 = ⟨none, path⟩).map (·.2) := by
  refine textAt?_of_covers (p := fun q => decide (q = ⟨none, path⟩)) hpath (fun c => ?_) e
  rw [Bool.eq_iff_iff]
  simp only [Segment.covers, Bool.and_eq_true, decide_eq_true_eq]
  obtain ⟨⟨⟨qualifier, base⟩, uri, attributes⟩, children⟩ := c
  simp [Element.name, Element.qualifier, and_comm]

/-- and one of a name with any qualifier the first field with this local name. -/
theorem textAt?_any {base : Text} (hpath : segments path = [.any base]) (e : Element) :
    e.textAt? path = (e.fields.find? fun f => f.1.base = base).map (·.2) :=
  textAt?_of_covers (p := fun q => decide (q.base = base)) hpath (fun _ => rfl) e

end Element

end Gateway.Xml
