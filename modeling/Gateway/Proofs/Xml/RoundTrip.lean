import Gateway.Proofs.Xml.Reading
/-!
# Documents read back

What stands inside of an element can be said without a reader (`Content`): a start tag names an
element in the namespaces that hold where it stands, and the texts between two tags or comments
are one text, or nothing when they are all space. Markup that is written is such content
(`Markup.Denotes.content`), whatever characters its texts are made of, and a document is read as
just that (`parse_declared`).
-/
namespace Gateway.Xml

/-! ## What is written -/

/-- The node of a text, which is none when there is nothing but space. -/
def textNodes (s : Text) : List Node := if s.all isSpace then [] else [.text s]

/-- A start tag that gives an element the tag `tag` where the namespaces `scope` hold. Inside of it `inner` hold. -/
structure Opens (scope : List (Text × Text)) (name : Text) (attributes : List (Text × Text)) (tag : Tag)
    (inner : List (Text × Text)) : Prop where
  isName : isName name = true
  qname : QName.ofText? name = some tag.name
  unreserved : isReserved tag.name.qualifier = false
  writable : ∀ a ∈ attributes, Reader.IsWritable a
  resolves : ∃ o : Opening, attributes.foldlM Opening.with? { name := tag.name } = some o ∧
    ∀ r : Reader, r.scope = scope → r.resolve? o = some (tag, inner)

/-- The nodes that markup stands for, after a text, where some namespaces hold. -/
inductive Markup.Denotes : List (Text × Text) → Text → List Markup → List Node → Prop
  | done (scope : List (Text × Text)) (s : Text) : Denotes scope s [] (textNodes s)
  | text {scope : List (Text × Text)} {s t : Text} {ms : List Markup} {nodes : List Node}
      (ht : ∀ c ∈ t, isAllowed .xml10 c = true) (h : Denotes scope (s ++ t) ms nodes) :
      Denotes scope s (.text t :: ms) nodes
  | element {scope inner attributes : List (Text × Text)} {s name : Text} {tag : Tag} {children ms : List Markup}
      {below nodes : List Node} (ho : Opens scope name attributes tag inner) (hbelow : Denotes inner [] children below)
      (h : Denotes scope [] ms nodes) :
      Denotes scope s (.element name attributes children :: ms) (textNodes s ++ .element tag below :: nodes)

/-- The text of a comment: no two dashes stand together in it, and none at its end. -/
structure IsComment (t : Text) : Prop where
  chars : ∀ c ∈ t, isAllowed .xml10 c = true
  dashes : ¬ ['-', '-'] <:+: t ++ ['-']

/-- A comment as it is written. -/
def commentText (t : Text) : Text := '<' :: ("!--".toList ++ t ++ "-->".toList)

/-- An element as a text, its tags around what it holds. -/
def elementText (name : Text) (attributes : List (Text × Text)) (content : Text) : Text :=
  '<' :: (name ++ attributes.flatMap Markup.attributeText ++ '>' :: content ++ "</".toList ++ name ++ ['>'])

/-- The nodes that stand inside of an element as a text, after another text, where some namespaces hold. -/
inductive Content : List (Text × Text) → Text → Text → List Node → Prop
  | done (scope : List (Text × Text)) (s : Text) : Content scope s [] (textNodes s)
  | text {scope : List (Text × Text)} {s t rest : Text} {nodes : List Node}
      (ht : ∀ c ∈ t, isAllowed .xml10 c = true) (h : Content scope (s ++ t) rest nodes) :
      Content scope s (Markup.escape t ++ rest) nodes
  | comment {scope : List (Text × Text)} {s t rest : Text} {nodes : List Node} (ht : IsComment t)
      (h : Content scope [] rest nodes) :
      Content scope s (commentText t ++ rest) (textNodes s ++ .comment t :: nodes)
  | element {scope inner attributes : List (Text × Text)} {s name content rest : Text} {tag : Tag}
      {below nodes : List Node} (ho : Opens scope name attributes tag inner) (hbelow : Content inner [] content below)
      (h : Content scope [] rest nodes) :
      Content scope s (elementText name attributes content ++ rest) (textNodes s ++ .element tag below :: nodes)

theorem Markup.write_element (name : Text) (attributes : List (Text × Text)) (children : List Markup) :
    Markup.write (.element name attributes children) = elementText name attributes (Markup.writeAll children) := by
  simp [Markup.write, elementText]

theorem Markup.Denotes.content {scope : List (Text × Text)} {s : Text} {ms : List Markup} {nodes : List Node}
    (h : Markup.Denotes scope s ms nodes) : Content scope s (Markup.writeAll ms) nodes := by
  induction h with
  | done scope s => exact .done scope s
  | text ht _ ih => exact .text ht ih
  | element ho _ _ ihbelow ih =>
    rw [Markup.writeAll, Markup.write_element]
    exact .element ho ihbelow ih

/-- A frame with more children. -/
def Frame.with (f : Frame) (nodes : List Node) : Frame := { f with children := nodes.reverse ++ f.children }

theorem Frame.with_with (f : Frame) (nodes nodes' : List Node) :
    (f.with nodes).with nodes' = f.with (nodes ++ nodes') := by
  simp [Frame.with]

namespace Reader

variable {r : Reader} {f : Frame} {fs : List Frame} {scope inner attributes : List (Text × Text)}
  {name s t content : Text} {tag : Tag} {nodes below : List Node}

/-- The reader just after an angle bracket. -/
def atMarkup (r : Reader) : Reader := { r with mode := .markup false, run := [], blank := true }

/-- The reader inside an element. -/
def within (r : Reader) (f : Frame) (fs : List Frame) : Reader := { r with frames := f :: fs, mayHaveDocType := false }

theorem IsPlain.atMarkup (hr : r.IsPlain) : r.atMarkup.IsPlain := ⟨hr.edition, hr.encoding⟩

theorem IsPlain.within (hr : r.IsPlain) (f : Frame) (fs : List Frame) : (r.within f fs).IsPlain :=
  ⟨hr.edition, hr.encoding⟩

/-! ## Tags -/

/-- After the name of a start tag a reader goes on as after an attribute of it. -/
theorem IsPlain.feedAll_tagName (hr : r.IsPlain) {q : QName} (hq : QName.ofText? name = some q)
    (hu : isReserved q.qualifier = false) {c : Char} (hc : isNameChar c = false) (t : Text) :
    { r with mode := .tagName name.reverse }.feedAll (c :: t) =
      { r with mode := .tag { name := q } false }.feedAll (c :: t) := by
  have hstep : { r with mode := .tagName name.reverse }.step c =
      { r with mode := .tag { name := q } false }.step c := by
    simp only [step, stepTagName, hc, Bool.false_eq_true, if_false, List.reverse_reverse, hq, Option.bind_eq_bind,
      Option.bind_some, hu]
    rfl
  exact (hr.mode _).feedAll_cons (hr.mode _) hstep t

theorem IsPlain.reads_name (hr : r.IsPlain) (hname : isName name = true) :
    { r with mode := .markup false }.Reads name { r with mode := .tagName name.reverse } := by
  cases name with
  | nil => cases hname
  | cons c s =>
    obtain ⟨hc, hs⟩ := isName_cons hname
    have hbegin : { r with mode := .markup false }.step c = some ({ r with mode := .tagName [c] }, []) := by
      simp [step, stepMarkup, hc, ne_mark_of_isNameChar (isNameChar_of_isNameStart hc)]
    rw [List.reverse_cons]
    exact (hr.mode _).reads hbegin (hr.reads_gathering .tagName
      (fun gathered _ d hd => by simp [step, stepTagName, hs d hd]) (List.cons_ne_nil c []))

theorem openElement?_eq {o : Opening} (h : r.resolve? o = some (tag, inner)) :
    r.openElement? o = some { r.within { tag := tag, scope := inner } r.frames with mode := .content 0 } := by
  rw [openElement?, h]
  rfl

theorem IsPlain.reads_startTag (hr : r.IsPlain) (ho : Opens r.scope name attributes tag inner) :
    r.atMarkup.Reads (name ++ attributes.flatMap Markup.attributeText ++ ['>'])
      ((r.within { tag := tag, scope := inner } r.frames).inText [] 0) := by
  have hr := hr.atMarkup
  obtain ⟨o, ho₁, ho₂⟩ := ho.resolves
  have hclose : { r.atMarkup with mode := .tag o false }.step '>' =
      some ((r.within { tag := tag, scope := inner } r.frames).inText [] 0, []) :=
    congrArg (Option.map fun r => (r, [])) (openElement?_eq (ho₂ { r.atMarkup with mode := .tag o false } rfl))
  have hattributes : { r.atMarkup with mode := .tag { name := tag.name } false }.Reads
      (attributes.flatMap Markup.attributeText ++ ['>']) _ :=
    (hr.reads_attributes ho.writable ho₁).append ((hr.mode _).reads hclose (reads_nil _))
  rw [List.append_assoc]
  refine (hr.reads_name ho.isName).append ?_
  -- what follows the name, an attribute or the end of the tag, does not belong to it
  obtain ⟨c, t, ht, hc⟩ : ∃ c t, attributes.flatMap Markup.attributeText ++ ['>'] = c :: t ∧
      isNameChar c = false := by
    cases attributes with
    | nil => exact ⟨'>', [], rfl, by decide⟩
    | cons a attributes => exact ⟨' ', _, rfl, by decide⟩
  rw [ht] at hattributes ⊢
  exact (hr.feedAll_tagName ho.qname ho.unreserved hc t).trans hattributes

theorem IsPlain.reads_endTag (hr : r.IsPlain) (hname : isName name = true)
    (hq : QName.ofText? name = some f.tag.name) :
    (r.within f fs).atMarkup.Reads ('/' :: name ++ ['>'])
      (({ r with frames := fs, mayHaveDocType := false }.inText [] 0).push (.element f.tag f.children.reverse)) := by
  have hr := (hr.within f fs).atMarkup
  cases name with
  | nil => cases hname
  | cons c s =>
    obtain ⟨hc, hs⟩ := isName_cons hname
    have hstep : ∀ gathered d, isNameChar d = true → continuesName gathered d = true →
        { (r.within f fs).atMarkup with mode := .endName gathered }.step d =
          some ({ (r.within f fs).atMarkup with mode := .endName (d :: gathered) }, []) := by
      intro gathered d hd hcont
      simp [step, stepEndName, hcont, isSpace_of_isNameChar hd, ne_mark_of_isNameChar hd]
    have hgather := hr.reads_gathering .endName (fun gathered hg d hd => hstep gathered d (hs d hd)
      (by simp [continuesName, hg, hs d hd])) (List.cons_ne_nil c [])
    have hend : { (r.within f fs).atMarkup with mode := .endName (s.reverse ++ [c]) }.step '>' =
        some (({ r with frames := fs, mayHaveDocType := false }.inText [] 0).push
          (.element f.tag f.children.reverse), []) := by
      simp [step, stepEndName, closeElement?, hq, inText, Reader.within, Reader.atMarkup]
    exact hr.reads rfl ((hr.mode _).reads (hstep [] c (isNameChar_of_isNameStart hc) (by simp [continuesName, hc]))
      (hgather.append ((hr.mode _).reads hend (reads_nil _))))

/-! ## Elements -/

/-- Ends the text after which the next markup begins. -/
theorem IsPlain.reads_lt (hr : r.IsPlain) (s : Text) (brackets : Nat) :
    ((r.within f fs).inText s brackets).Reads ['<'] (r.within (f.with (textNodes s)) fs).atMarkup := by
  refine IsPlain.reads ⟨hr.edition, hr.encoding⟩ ?_ (reads_nil _)
  cases hs : s.all isSpace with
  | true => simp [step, stepContent, inText, endRun, textNodes, hs, Frame.with, Reader.within, Reader.atMarkup]
  | false =>
    have hne : s ≠ [] := by
      rintro rfl
      cases hs
    simp [step, stepContent, inText, endRun, push, textNodes, hs, hne, Frame.with, Reader.within, Reader.atMarkup]

/-- Inside an element where `scope` holds, a text is read as nodes up to the next angle bracket. -/
def ReadsAs (scope : List (Text × Text)) (s content : Text) (nodes : List Node) : Prop :=
  ∀ (r : Reader) (f : Frame) (fs : List Frame) (brackets : Nat), r.IsPlain → f.scope = scope →
    ((r.within f fs).inText s brackets).Reads (content ++ ['<']) (r.within (f.with nodes) fs).atMarkup

/-- An element is read, after its first angle bracket, if what it holds is. -/
theorem IsPlain.reads_element (hr : r.IsPlain) (ho : Opens r.scope name attributes tag inner)
    (hbelow : ReadsAs inner [] content below) :
    r.atMarkup.Reads (elementText name attributes content).tail
      (({ r with mayHaveDocType := false }.inText [] 0).push (.element tag below)) := by
  have hcontent := hbelow r { tag := tag, scope := inner } r.frames 0 hr rfl
  have hend : (r.within (Frame.with { tag := tag, scope := inner } below) r.frames).atMarkup.Reads _ _ :=
    hr.reads_endTag ho.isName ho.qname
  have hall := (hr.reads_startTag ho).append (hcontent.append hend)
  simpa [Frame.with, elementText] using hall

/-! ## Comments -/

/-- What is left of a comment once no dash, or one, of those that may end it has been read. -/
theorem IsPlain.reads_commentEnd (hr : r.IsPlain) (ht : ∀ c ∈ t, isAllowed .xml10 c = true) (gathered : Text) :
    (¬ ['-', '-'] <:+: t ++ ['-'] → { r with mode := .comment gathered 0 }.Reads (t ++ ['-', '-', '>'])
      (r.toContent.push (.comment (gathered.reverse ++ t)))) ∧
    (¬ ['-', '-'] <:+: '-' :: (t ++ ['-']) → { r with mode := .comment gathered 1 }.Reads (t ++ ['-', '-', '>'])
      (r.toContent.push (.comment (gathered.reverse ++ '-' :: t)))) := by
  induction t generalizing gathered with
  | nil =>
    refine ⟨fun _ => ?_, fun h => absurd List.infix_rfl h⟩
    rw [List.append_nil]
    exact (hr.mode _).reads rfl ((hr.mode _).reads rfl ((hr.mode _).reads rfl (reads_nil _)))
  | cons c t ih =>
    have ih := ih fun d hd => ht d (List.mem_cons_of_mem _ hd)
    have hc := ht c List.mem_cons_self
    refine ⟨fun h => ?_, fun h => ?_⟩
    · by_cases hdash : c = '-'
      · subst hdash
        exact (hr.mode _).reads rfl ((ih gathered).2 h)
      · have hstep : { r with mode := .comment gathered 0 }.step c =
            some ({ r with mode := .comment (c :: gathered) 0 }, []) := by
          simp [step, stepComment, hdash, hr.edition, hc]
        have hrest := (ih (c :: gathered)).1 fun h' => h (List.infix_cons h')
        rw [List.reverse_cons, List.append_assoc] at hrest
        exact (hr.mode _).reads hstep hrest
    · have hdash : c ≠ '-' := by
        rintro rfl
        exact h ⟨[], t ++ ['-'], rfl⟩
      have hstep : { r with mode := .comment gathered 1 }.step c =
          some ({ r with mode := .comment (c :: '-' :: gathered) 0 }, []) := by
        simp [step, stepComment, hdash, hr.edition, hc]
      have hrest := (ih (c :: '-' :: gathered)).1 fun h' => h (List.infix_cons (List.infix_cons h'))
      rw [List.reverse_cons, List.reverse_cons, List.append_assoc, List.append_assoc] at hrest
      exact (hr.mode _).reads hstep hrest

theorem IsPlain.reads_comment (hr : r.IsPlain) (ht : IsComment t) :
    r.atMarkup.Reads (commentText t).tail ((r.inText [] 0).push (.comment t)) := by
  have hr := hr.atMarkup
  have hend := (hr.reads_commentEnd ht.chars []).1 ht.dashes
  exact hr.reads rfl ((hr.mode _).reads rfl ((hr.mode _).reads rfl hend))

/-! ## Content -/

theorem readsAs_content (h : Content scope s content nodes) : ReadsAs scope s content nodes := by
  induction h with
  | done scope s => exact fun r f fs brackets hr _ => hr.reads_lt s brackets
  | text ht _ ih =>
    intro r f fs brackets hr hscope
    obtain ⟨brackets', htext⟩ := (hr.within f fs).reads_escape rfl ht _ brackets
    rw [List.append_assoc]
    exact htext.append (ih r f fs brackets' hr hscope)
  | @comment scope s t rest nodes ht _ ih =>
    intro r f fs brackets hr hscope
    have hcomment : (r.within (f.with (textNodes s)) fs).atMarkup.Reads _
        ((r.within ((f.with (textNodes s)).with [.comment t]) fs).inText [] 0) :=
      (hr.within (f.with (textNodes s)) fs).reads_comment ht
    have hafter := ih r ((f.with (textNodes s)).with [.comment t]) fs 0 hr hscope
    have hall := (hr.reads_lt s brackets).append (hcomment.append hafter)
    simpa [commentText, Frame.with_with] using hall
  | @element scope inner attributes s name content rest tag below nodes ho _ _ ihbelow ih =>
    intro r f fs brackets hr hscope
    subst hscope
    have helement : (r.within (f.with (textNodes s)) fs).atMarkup.Reads _
        ((r.within ((f.with (textNodes s)).with [.element tag below]) fs).inText [] 0) :=
      (hr.within (f.with (textNodes s)) fs).reads_element ho ihbelow
    have hafter := ih r ((f.with (textNodes s)).with [.element tag below]) fs 0 hr rfl
    have hall := (hr.reads_lt s brackets).append (helement.append hafter)
    simpa [elementText, Frame.with_with] using hall

end Reader

/-! ## Characters that are allowed

Names, tags and escaped texts hold nothing that a document may not hold, and so content can be the
text of an element in its turn. -/

theorem isAllowed_of_isNameChar {c : Char} (h : isNameChar c = true) : isAllowed .xml10 c = true := by
  have hlow : ∀ n < 0x20, isNameChar (Char.ofNat n) = false := by decide
  have hhigh : isNameChar (Char.ofNat 0xFFFE) = false ∧ isNameChar (Char.ofNat 0xFFFF) = false := by decide
  have hvalid : c.toNat < 0xD800 ∨ 0xDFFF < c.toNat := c.valid.imp_right And.left
  rw [← Char.ofNat_toNat c] at h
  by_cases hn : c.toNat < 0x20 ∨ c.toNat = 0xFFFE ∨ c.toNat = 0xFFFF
  · rcases hn with hn | hn | hn
    · exact absurd h (by rw [hlow _ hn]; exact Bool.false_ne_true)
    · exact absurd h (by rw [hn, hhigh.1]; exact Bool.false_ne_true)
    · exact absurd h (by rw [hn, hhigh.2]; exact Bool.false_ne_true)
  · simp only [isAllowed, Bool.or_eq_true, Bool.and_eq_true, decide_eq_true_eq]
    omega

theorem isAllowed_of_isName {s : Text} (h : isName s = true) : ∀ c ∈ s, isAllowed .xml10 c = true := by
  cases s with
  | nil => cases h
  | cons d s =>
    obtain ⟨hd, hs⟩ := isName_cons h
    exact List.forall_mem_cons.2 ⟨isAllowed_of_isNameChar (isNameChar_of_isNameStart hd),
      fun c hc => isAllowed_of_isNameChar (hs c hc)⟩

theorem isAllowed_escapeChar {c : Char} (hc : isAllowed .xml10 c = true) :
    ∀ d ∈ Markup.escapeChar c, isAllowed .xml10 d = true := by
  unfold Markup.escapeChar
  split
  case h_4 => exact List.forall_mem_singleton.2 hc
  all_goals exact List.all_eq_true.1 (by decide)

theorem isAllowed_escapeValueChar {c : Char} (hc : isAllowed .xml10 c = true) :
    ∀ d ∈ Markup.escapeValueChar c, isAllowed .xml10 d = true := by
  unfold Markup.escapeValueChar
  split
  case h_5 => exact isAllowed_escapeChar hc
  all_goals exact List.all_eq_true.1 (by decide)

theorem isAllowed_flatMap {escape : Char → Text} {s : Text} (hs : ∀ c ∈ s, isAllowed .xml10 c = true)
    (hescape : ∀ c, isAllowed .xml10 c = true → ∀ d ∈ escape c, isAllowed .xml10 d = true) :
    ∀ c ∈ s.flatMap escape, isAllowed .xml10 c = true := by
  intro c hc
  obtain ⟨d, hd, hc⟩ := List.mem_flatMap.1 hc
  exact hescape d (hs d hd) c hc

theorem isAllowed_attributeText {a : Text × Text} (ha : Reader.IsWritable a) :
    ∀ c ∈ Markup.attributeText a, isAllowed .xml10 c = true := by
  have hvalue := isAllowed_flatMap ha.2 fun c hc => isAllowed_escapeValueChar hc
  simp only [Markup.attributeText, List.forall_mem_append, List.forall_mem_cons]
  exact ⟨⟨⟨⟨by decide, isAllowed_of_isName ha.1⟩, List.all_eq_true.1 (by decide)⟩, hvalue⟩, by decide,
    List.forall_mem_nil _⟩

theorem isAllowed_elementText {name content : Text} {attributes : List (Text × Text)} (hname : isName name = true)
    (ha : ∀ a ∈ attributes, Reader.IsWritable a) (hcontent : ∀ c ∈ content, isAllowed .xml10 c = true) :
    ∀ c ∈ elementText name attributes content, isAllowed .xml10 c = true := by
  have hattributes : ∀ c ∈ attributes.flatMap Markup.attributeText, isAllowed .xml10 c = true := by
    intro c hc
    obtain ⟨a, hmem, hc⟩ := List.mem_flatMap.1 hc
    exact isAllowed_attributeText (ha a hmem) c hc
  have hname := isAllowed_of_isName hname
  simp only [elementText, List.forall_mem_append, List.forall_mem_cons]
  exact ⟨by decide, ⟨⟨⟨⟨hname, hattributes⟩, by decide, hcontent⟩, List.all_eq_true.1 (by decide)⟩, hname⟩,
    by decide, List.forall_mem_nil _⟩

theorem Content.isAllowed {scope : List (Text × Text)} {s content : Text} {nodes : List Node}
    (h : Content scope s content nodes) : ∀ c ∈ content, isAllowed .xml10 c = true := by
  induction h with
  | done scope s => exact nofun
  | text ht _ ih => exact List.forall_mem_append.2 ⟨isAllowed_flatMap ht fun c hc => isAllowed_escapeChar hc, ih⟩
  | comment ht _ ih =>
    simp only [commentText, List.forall_mem_append, List.forall_mem_cons]
    exact ⟨⟨by decide, ⟨List.all_eq_true.1 (by decide), ht.chars⟩, List.all_eq_true.1 (by decide)⟩, ih⟩
  | element ho _ _ ihbelow ih =>
    exact List.forall_mem_append.2 ⟨isAllowed_elementText ho.isName ho.writable ihbelow, ih⟩

/-! ## Documents -/

open Reader (reads_nil readsAs_content)

/-- What stands in front of every document that is written. -/
def declaration : Text := "<?xml version=\"1.0\" encoding=\"UTF-8\"?>".toList

theorem Markup.document_eq (m : Markup) : m.document = declaration ++ m.write := rfl

theorem reads_declaration : ({} : Reader).Reads (declaration ++ ['<']) (Reader.atMarkup { encoding := .utf8 }) := by
  -- one step for each character
  repeat refine Reader.IsPlain.reads ⟨rfl, fun _ => rfl⟩ rfl ?_
  exact reads_nil _

theorem parse_declared {name content : Text} {attributes inner : List (Text × Text)} {tag : Tag} {nodes : List Node}
    (ho : Opens outerScope name attributes tag inner) (h : Content inner [] content nodes) :
    parse (declaration ++ elementText name attributes content) = some ⟨tag, nodes⟩ := by
  have hplain : Reader.IsPlain { encoding := .utf8 } := ⟨rfl, fun _ => rfl⟩
  have hall := reads_declaration.append (hplain.reads_element ho (readsAs_content h))
  have htext : declaration ++ ['<'] ++ (elementText name attributes content).tail =
      declaration ++ elementText name attributes content := List.append_assoc _ _ _
  rw [htext, Reader.Reads] at hall
  rw [parse, hall]
  rfl

/-- A written document is read as what its markup stands for. -/
theorem parse_document {name : Text} {attributes inner : List (Text × Text)} {tag : Tag} {children : List Markup}
    {nodes : List Node} (ho : Opens outerScope name attributes tag inner)
    (h : Markup.Denotes inner [] children nodes) :
    parse (Markup.document (.element name attributes children)) = some ⟨tag, nodes⟩ := by
  rw [Markup.document_eq, Markup.write_element]
  exact parse_declared ho h.content

end Gateway.Xml
