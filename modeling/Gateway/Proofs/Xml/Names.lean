import Gateway.Proofs.Xml.Fields
/-!
# The names in a document

An element of a tree is found by its place: the number of a child element at each level on
the way down to it. Whatever a document holds, every element of its tree has a proper name,
one whose qualifier is a name of its own (`parse_isProper`). A reader takes its names from
start tags only, so this is kept by every character that it reads (`Reader.IsProper.step`):
a name that is being read is a name already, and the elements that were begun or added
have proper ones.
-/
namespace Gateway.Xml

/-! ## Places -/

/-- The element at a place: the numbers, level by level, of the child elements on the way down to it. -/
def Element.at? (e : Element) : List Nat → Option Element
  | [] => some e
  | i :: place => e.elements[i]?.bind fun c => c.at? place

/-! ## Proper names -/

/-- The qualifier, if there is one, is a name that has none itself. -/
def QName.IsProper (q : QName) : Prop := ∀ x, q.qualifier = some x → IsLocalName x

theorem QName.isProper_of_ofText? {s : Text} {q : QName} (hs : isName s = true) (h : QName.ofText? s = some q) :
    q.IsProper := by
  intro x hx
  by_cases hcolon : ':' ∈ s
  · obtain ⟨front, rest, rfl, hfront⟩ := List.eq_append_cons_of_mem hcolon
    obtain ⟨part, parts, hparts⟩ := List.exists_cons_of_ne_nil (List.splitOn_ne_nil ':' rest)
    rw [ofText?, List.splitOn_append_cons_self_of_not_mem hfront, hparts] at h
    cases parts with
    | cons _ _ => cases h
    | nil =>
      simp only [Option.ite_none_left_eq_some, Bool.or_eq_true, decide_eq_true_eq, not_or, Option.some.injEq] at h
      obtain ⟨⟨hne, -⟩, rfl⟩ := h
      obtain rfl : front = x := Option.some.inj hx
      -- a name that begins with another text begins as a name
      cases front with
      | nil => exact absurd rfl hne
      | cons c front =>
        obtain ⟨hc, hall⟩ := isName_cons hs
        refine ⟨?_, hfront⟩
        rw [isName, hc, Bool.true_and, List.all_eq_true]
        exact fun d hd => hall d (List.mem_append_left _ hd)
  · rw [ofText?, List.splitOn_eq_singleton hcolon] at h
    simp only [Option.ite_none_left_eq_some, Option.some.injEq] at h
    obtain ⟨-, rfl⟩ := h
    cases hx

/-- Every element of the tree has a proper name. -/
def Element.IsProper (e : Element) : Prop := ∀ place d, e.at? place = some d → d.tag.name.IsProper

/-- The node, if it is an element, has proper names only. -/
def Node.IsProper (n : Node) : Prop := ∀ e, n.toElement? = some e → e.IsProper

theorem Element.isProper_mk {tag : Tag} {children : List Node} (htag : tag.name.IsProper)
    (hchildren : ∀ n ∈ children, n.IsProper) : Element.IsProper ⟨tag, children⟩ := by
  intro place d hd
  cases place with
  | nil =>
    obtain rfl := Option.some.inj hd
    exact htag
  | cons i place =>
    obtain ⟨c, hc, hd⟩ := Option.bind_eq_some_iff.1 hd
    obtain ⟨n, hn, hnc⟩ := List.mem_filterMap.1 (List.mem_of_getElem? hc)
    exact hchildren n hn c hnc place d hd

theorem Node.isProper_element {tag : Tag} {children : List Node} (htag : tag.name.IsProper)
    (hchildren : ∀ n ∈ children, n.IsProper) : (Node.element tag children).IsProper := by
  rintro e he
  obtain rfl := Option.some.inj he
  exact Element.isProper_mk htag hchildren

/-! ## Results -/

/-- Whatever the result is, it has a property. -/
def Gives {α : Type} (P : α → Prop) (o : Option α) : Prop := ∀ a, o = some a → P a

section Gives

variable {α β : Type} {P : α → Prop} {Q : β → Prop}

@[simp] theorem gives_none : Gives P none := nofun

@[simp] theorem gives_some {a : α} : Gives P (some a) ↔ P a := by simp [Gives]

@[simp] theorem gives_true {o : Option α} : Gives (fun _ => True) o := fun _ _ => trivial

@[simp] theorem gives_ite {p : Prop} [Decidable p] {o o' : Option α} :
    Gives P (if p then o else o') ↔ (p → Gives P o) ∧ (¬ p → Gives P o') := by
  by_cases hp : p <;> simp [hp]

@[simp] theorem gives_bind {o : Option α} {f : α → Option β} :
    Gives Q (o.bind f) ↔ ∀ a, o = some a → Gives Q (f a) := by
  cases o <;> simp

@[simp] theorem gives_map {o : Option α} {f : α → β} : Gives Q (o.map f) ↔ Gives (fun a => Q (f a)) o := by
  cases o <;> simp

/-- What one step after another keeps. -/
theorem Gives.foldlM {f : α → β → Option α} (h : ∀ a, P a → ∀ b, Gives P (f a b)) {a : α} (ha : P a)
    (s : List β) :
    Gives P (s.foldlM f a) := by
  induction s generalizing a with
  | nil => simpa using ha
  | cons b s ih =>
    rw [List.foldlM_cons]
    exact gives_bind.2 fun a' ha' => ih (h a ha b a' ha')

end Gives

/-! ## What a reader has read of names -/

/-- The value is for a tag with a proper name, unless it is for the declaration in front. -/
def Holder.IsProper : Holder → Prop
  | .attribute o _ => o.name.IsProper
  | .declared _ _ => True

/-- The name of the start tag that the reader stands in is proper. While it is still being
read it is a name, and so has a proper one if it has any. -/
def Mode.IsProper : Mode → Prop
  | .tagName name => isName name.reverse = true
  | .tag o _ | .emptyTag o | .attribute o _ => o.name.IsProper
  | .equals h | .quote h | .value h _ _ => h.IsProper
  | .reference _ back => back.IsProper
  | _ => True

/-- The element that was begun has a proper name, and so has every element in it so far. -/
structure Frame.IsProper (f : Frame) : Prop where
  tag : f.tag.name.IsProper
  children : ∀ n ∈ f.children, n.IsProper

/-- What the reader has of the tree: the elements that were begun, and the root. -/
structure AreProper (frames : List Frame) (root : Option Element) : Prop where
  frames : ∀ f ∈ frames, f.IsProper
  root : Gives Element.IsProper root

/-- Every name that the reader has taken for an element's is proper. -/
structure Reader.IsProper (r : Reader) : Prop where
  mode : r.mode.IsProper
  tree : AreProper r.frames r.root

namespace Reader

variable {r : Reader} {o : Opening} {h : Holder} {back : Mode}

/-- Nothing else of a reader has to do with names. -/
@[simp] theorem isProper_mk {mode : Mode} {run : Text} {blank : Bool} {frames : List Frame} {root : Option Element}
    {mayHaveDocType : Bool} {edition : Edition} {encoding : Encoding} {entities : Table Text Text} :
    Reader.IsProper ⟨mode, run, blank, frames, root, mayHaveDocType, edition, encoding, entities⟩ ↔
      mode.IsProper ∧ AreProper frames root := ⟨fun h => ⟨h.mode, h.tree⟩, fun h => ⟨h.1, h.2⟩⟩

@[simp] theorem isProper_toContent : r.toContent.IsProper ↔ AreProper r.frames r.root := by
  simp [toContent, Mode.IsProper]

theorem IsProper.push (hr : r.IsProper) {n : Node} (hn : n.IsProper) : (r.push n).IsProper := by
  unfold Reader.push
  split
  · next f frames hframes =>
    obtain ⟨hf, hrest⟩ := List.forall_mem_cons.1 (hframes ▸ hr.tree.frames)
    exact ⟨hr.mode, List.forall_mem_cons.2 ⟨⟨hf.tag, List.forall_mem_cons.2 ⟨hn, hf.children⟩⟩, hrest⟩, hr.tree.root⟩
  · split
    · next e he =>
      refine ⟨hr.mode, hr.tree.frames, fun root hroot => ?_⟩
      rcases Option.or_eq_some_iff.1 hroot with h | ⟨-, h⟩
      · exact hr.tree.root root h
      · exact hn root (he.trans h)
    · exact hr

theorem IsProper.endRun (hr : r.IsProper) : AreProper r.endRun.frames r.endRun.root := by
  have h : (if r.run = [] || r.blank then r else r.push (.text r.run.reverse)).IsProper := by
    split
    · exact hr
    · exact hr.push nofun
  exact h.tree

/-! ## Tags -/

theorem gives_resolve? (r : Reader) (o : Opening) : Gives (fun t => t.1.name = o.name) (r.resolve? o) := by
  simp [resolve?]

theorem IsProper.openElement? (hr : r.IsProper) (ho : o.name.IsProper) : Gives IsProper (r.openElement? o) := by
  refine gives_bind.2 fun t ht => gives_some.2 ⟨trivial, List.forall_mem_cons.2 ⟨⟨?_, nofun⟩, hr.tree.frames⟩, hr.tree.root⟩
  exact (gives_resolve? r o t ht).symm ▸ ho

theorem IsProper.emptyElement? (hr : r.IsProper) (ho : o.name.IsProper) : Gives IsProper (r.emptyElement? o) := by
  refine gives_bind.2 fun t ht => gives_some.2 ?_
  have hcontent : { r with mode := .content 0, mayHaveDocType := false }.IsProper := ⟨trivial, hr.tree⟩
  exact hcontent.push (Node.isProper_element ((gives_resolve? r o t ht).symm ▸ ho) fun _ hn => absurd hn List.not_mem_nil)

theorem IsProper.closeElement? (hr : r.IsProper) (name : Text) : Gives IsProper (r.closeElement? name) := by
  refine gives_bind.2 fun q _ => ?_
  split
  · exact gives_none
  · next f frames hframes =>
    obtain ⟨hf, hrest⟩ := List.forall_mem_cons.1 (hframes ▸ hr.tree.frames)
    refine gives_ite.2 ⟨fun _ => gives_some.2 ?_, fun _ => gives_none⟩
    have hcontent : { r with mode := .content 0, frames := frames }.IsProper := ⟨trivial, hrest, hr.tree.root⟩
    exact hcontent.push (Node.isProper_element hf.tag fun n hn => hf.children n (List.mem_reverse.1 hn))

theorem IsProper.stepTag (hr : r.IsProper) (ho : o.name.IsProper) (spaced : Bool) (c : Char) :
    Gives IsProper (r.stepTag o spaced c) := by
  simp [Reader.stepTag, Mode.IsProper, hr.tree, ho, hr.openElement? ho]

/-- The name of an element is made here. -/
theorem IsProper.stepTagName (hr : r.IsProper) {name : Text} (hname : isName name.reverse = true) (c : Char) :
    Gives IsProper (r.stepTagName name c) := by
  refine gives_ite.2 ⟨fun hc => gives_some.2 ⟨?_, hr.tree⟩, fun _ => gives_bind.2 fun q hq => ?_⟩
  · show isName (c :: name).reverse = true
    rw [List.reverse_cons]
    cases hreverse : name.reverse with
    | nil =>
      rw [hreverse] at hname
      cases hname
    | cons d s =>
      rw [hreverse] at hname
      simpa [isName, hc] using isName_cons hname
  · exact gives_ite.2 ⟨fun _ => gives_none, fun _ => hr.stepTag (QName.isProper_of_ofText? hname hq) false c⟩

theorem IsProper.endAttributeName (hr : r.IsProper) (ho : o.name.IsProper) (name : Text) {mode : Holder → Mode}
    (hmode : ∀ h : Holder, h.IsProper → (mode h).IsProper) : Gives IsProper (r.endAttributeName o name mode) := by
  refine gives_bind.2 fun q _ => gives_ite.2 ⟨fun _ => gives_none, fun _ => gives_some.2 ⟨hmode _ ?_, hr.tree⟩⟩
  exact ho

theorem IsProper.stepAttribute (hr : r.IsProper) (ho : o.name.IsProper) (name : Text) (c : Char) :
    Gives IsProper (r.stepAttribute o name c) := by
  have hquote : Gives IsProper (r.endAttributeName o name .quote) := hr.endAttributeName ho name fun _ h => h
  have hequals : Gives IsProper (r.endAttributeName o name .equals) := hr.endAttributeName ho name fun _ h => h
  simp [Reader.stepAttribute, Mode.IsProper, hr.tree, ho, hquote, hequals]

theorem IsProper.stepEndName (hr : r.IsProper) (name : Text) (c : Char) : Gives IsProper (r.stepEndName name c) := by
  simp [Reader.stepEndName, Mode.IsProper, hr.tree, hr.closeElement?]

theorem IsProper.stepEndTag (hr : r.IsProper) (name : Text) (c : Char) : Gives IsProper (r.stepEndTag name c) := by
  simp [Reader.stepEndTag, hr, hr.closeElement?]

/-! ## Values and references -/

theorem gives_add? (o : Opening) (name : QName) (value : Text) :
    Gives (fun o' => o'.name = o.name) (o.add? name value) := by
  simp [Opening.add?]

theorem IsProper.declare? (hr : r.IsProper) (d : Declaration) (name value : Text) : Gives IsProper (r.declare? d name value) := by
  simp only [Reader.declare?, gives_ite, gives_some, gives_none, isProper_mk, Mode.IsProper, hr.tree, and_self, implies_true]

theorem IsProper.endValue (hr : r.IsProper) (hh : h.IsProper) (value : Text) : Gives IsProper (r.endValue h value) := by
  match h, hh with
  | .attribute o name, ho =>
    refine gives_bind.2 fun o' ho' => gives_some.2 ⟨?_, hr.tree⟩
    have hname : o'.name = o.name := gives_add? o name value o' ho'
    show o'.name.IsProper
    exact hname.symm ▸ ho
  | .declared d name, _ => exact hr.declare? d name value

theorem IsProper.stepValue (hr : r.IsProper) (hh : h.IsProper) (quote : Char) (text : Text) (c : Char) :
    Gives IsProper (r.stepValue h quote text c) := by
  simp [Reader.stepValue, Mode.IsProper, hr.tree, hh, hr.endValue hh]

theorem IsProper.addChar (hr : r.IsProper) (hback : back.IsProper) (c : Char) : (r.addChar back c).IsProper := by
  unfold Reader.addChar
  split
  · exact ⟨hback, hr.tree⟩
  · exact ⟨hback, hr.tree⟩

theorem IsProper.addEntity (hr : r.IsProper) (hback : back.IsProper) (s : Text) : (r.addEntity back s).1.IsProper := by
  unfold Reader.addEntity
  split
  · exact ⟨hback, hr.tree⟩
  · exact ⟨hback, hr.tree⟩

theorem IsProper.endReference (hr : r.IsProper) (hback : back.IsProper) (name : Text) :
    Gives (fun t => t.1.IsProper) (r.endReference name back) := by
  unfold Reader.endReference
  split
  · exact gives_none
  · exact gives_map.2 fun c _ => hr.addChar hback c
  · split
    · exact gives_some.2 (hr.addChar hback _)
    · exact gives_map.2 fun s _ => hr.addEntity hback s

theorem IsProper.stepReference (hr : r.IsProper) (hback : back.IsProper) (name : Text) (c : Char) :
    Gives (fun t => t.1.IsProper) (r.stepReference name back c) := by
  simp [Reader.stepReference, Mode.IsProper, hr.tree, hback, hr.endReference hback]

/-! ## What is not a tag -/

theorem IsProper.stepContent (hr : r.IsProper) (brackets : Nat) (c : Char) : Gives IsProper (r.stepContent brackets c) := by
  simp [Reader.stepContent, Mode.IsProper, hr.tree, hr.endRun]

theorem IsProper.stepStart (hr : r.IsProper) (marked : Bool) (c : Char) : Gives IsProper (r.stepStart marked c) := by
  simp [Reader.stepStart, Mode.IsProper, hr.tree, hr.stepContent]

theorem IsProper.stepMarkup (hr : r.IsProper) (first : Bool) (c : Char) : Gives IsProper (r.stepMarkup first c) := by
  simp +contextual [Reader.stepMarkup, Mode.IsProper, hr.tree, isName]

theorem IsProper.stepBang (hr : r.IsProper) (read : Text) (c : Char) : Gives IsProper (r.stepBang read c) := by
  simp only [Reader.stepBang, gives_ite, gives_some, gives_none, isProper_mk, Mode.IsProper, hr.tree, and_self, implies_true]

theorem IsProper.pushContent (hr : r.IsProper) {n : Node} (hn : n.toElement? = none) : (r.toContent.push n).IsProper := by
  refine (isProper_toContent.2 hr.tree).push fun e he => ?_
  rw [hn] at he
  cases he

theorem IsProper.stepComment (hr : r.IsProper) (text : Text) (dashes : Nat) (c : Char) :
    Gives IsProper (r.stepComment text dashes c) := by
  have hend : (r.toContent.push (.comment text.reverse)).IsProper := hr.pushContent rfl
  unfold Reader.stepComment
  split <;> simp [Mode.IsProper, hr.tree, hend]

theorem IsProper.stepCData (hr : r.IsProper) (text : Text) (brackets : Nat) (c : Char) :
    Gives IsProper (r.stepCData text brackets c) := by
  have hend : (r.endCData text).IsProper :=
    have h : (r.toContent.push (.cdata text.reverse)).IsProper := hr.pushContent rfl
    ⟨h.mode, h.tree⟩
  unfold Reader.stepCData
  split <;> simp [Mode.IsProper, hr.tree, hend]

theorem IsProper.stepTarget (hr : r.IsProper) (first : Bool) (name : Text) (ending : Bool) (c : Char) :
    Gives IsProper (r.stepTarget first name ending c) := by
  have hend : (r.toContent.push (.instruction name.reverse none)).IsProper := hr.pushContent rfl
  simp [Reader.stepTarget, Mode.IsProper, hr.tree, hend]

theorem IsProper.stepInstruction (hr : r.IsProper) (target text : Text) (ending : Bool) (c : Char) :
    Gives IsProper (r.stepInstruction target text ending c) := by
  have hend : (r.toContent.push (.instruction target (some text.reverse))).IsProper := hr.pushContent rfl
  simp [Reader.stepInstruction, Mode.IsProper, hr.tree, hend]

theorem IsProper.stepDeclaration (hr : r.IsProper) (d : Declaration) (spaced : Bool) (c : Char) :
    Gives IsProper (r.stepDeclaration d spaced c) := by
  simp [Reader.stepDeclaration, Mode.IsProper, hr.tree]

theorem IsProper.stepDeclarationName (hr : r.IsProper) (d : Declaration) (name : Text) (c : Char) :
    Gives IsProper (r.stepDeclarationName d name c) := by
  simp [Reader.stepDeclarationName, Mode.IsProper, Holder.IsProper, hr.tree]

theorem IsProper.stepDeclarationEnd (hr : r.IsProper) (d : Declaration) (c : Char) :
    Gives IsProper (r.stepDeclarationEnd d c) := by
  unfold Reader.stepDeclarationEnd
  split
  · split <;> simp [hr.tree, Reader.toContent, Mode.IsProper]
  · exact gives_none

theorem IsProper.stepEquals (hr : r.IsProper) (hh : h.IsProper) (c : Char) : Gives IsProper (r.stepEquals h c) := by
  simp [Reader.stepEquals, Mode.IsProper, hr, hr.tree, hh]

theorem IsProper.stepQuote (hr : r.IsProper) (hh : h.IsProper) (c : Char) : Gives IsProper (r.stepQuote h c) := by
  simp [Reader.stepQuote, Mode.IsProper, hr, hr.tree, hh]

/-- A document type declaration says nothing of elements. -/
theorem IsProper.stepDocType (hr : r.IsProper) (d : DocType) (c : Char) :
    Gives (fun t => t.1.IsProper) (r.stepDocType d c) := by
  have hgo (d : DocType) : { r with mode := .docType d }.IsProper := ⟨trivial, hr.tree⟩
  unfold Reader.stepDocType
  split <;> simp [Mode.IsProper, declareEntity, hr.tree]

/-! ## A document -/

theorem IsProper.step (hr : r.IsProper) (c : Char) : Gives (fun t => t.1.IsProper) (r.step c) := by
  have hmode := hr.mode
  unfold Reader.step
  generalize r.mode = mode at hmode ⊢
  match mode, hmode with
  | .start marked, _ => exact gives_map.2 (hr.stepStart marked c)
  | .content brackets, _ => exact gives_map.2 (hr.stepContent brackets c)
  | .markup first, _ => exact gives_map.2 (hr.stepMarkup first c)
  | .bang read, _ => exact gives_map.2 (hr.stepBang read c)
  | .comment text dashes, _ => exact gives_map.2 (hr.stepComment text dashes c)
  | .cdata text brackets, _ => exact gives_map.2 (hr.stepCData text brackets c)
  | .target first name ending, _ => exact gives_map.2 (hr.stepTarget first name ending c)
  | .instruction target text ending, _ => exact gives_map.2 (hr.stepInstruction target text ending c)
  | .tagName _, hname => exact gives_map.2 (hr.stepTagName hname c)
  | .tag _ spaced, ho => exact gives_map.2 (hr.stepTag ho spaced c)
  | .emptyTag _, ho => exact gives_map.2 (gives_ite.2 ⟨fun _ => hr.emptyElement? ho, fun _ => gives_none⟩)
  | .attribute _ name, ho => exact gives_map.2 (hr.stepAttribute ho name c)
  | .equals _, hh => exact gives_map.2 (hr.stepEquals hh c)
  | .quote _, hh => exact gives_map.2 (hr.stepQuote hh c)
  | .value _ quote text, hh => exact gives_map.2 (hr.stepValue hh quote text c)
  | .endName name, _ => exact gives_map.2 (hr.stepEndName name c)
  | .endTag name, _ => exact gives_map.2 (hr.stepEndTag name c)
  | .declaration d spaced, _ => exact gives_map.2 (hr.stepDeclaration d spaced c)
  | .declarationName d name, _ => exact gives_map.2 (hr.stepDeclarationName d name c)
  | .declarationEnd d, _ => exact gives_map.2 (hr.stepDeclarationEnd d c)
  | .docType d, _ => exact hr.stepDocType d c
  | .reference name back, hmode =>
    have hback : back.IsProper := hmode
    exact hr.stepReference hback name c

theorem IsProper.readWith {again : Text → Reader → Option Reader}
    (hagain : ∀ s (r : Reader), r.IsProper → Gives IsProper (again s r)) (hr : r.IsProper) (s : Text) :
    Gives IsProper (readWith again s r) := by
  induction s generalizing r with
  | nil => exact gives_some.2 hr
  | cons c s ih =>
    refine gives_bind.2 fun t ht => ?_
    have ht : t.1.IsProper := hr.step c t ht
    exact gives_ite.2 ⟨fun _ => ih ht, fun _ => hagain _ _ ht⟩

/-- The entities that are put in are read as any other text. -/
theorem IsProper.read (n : Nat) (hr : r.IsProper) (s : Text) : Gives IsProper (read n s r) := by
  induction n generalizing r s with
  | zero => exact hr.readWith (fun _ _ _ => gives_none) s
  | succ n ih => exact hr.readWith (fun s r hr => ih hr s) s

theorem IsProper.feed (hr : r.IsProper) (c : Char) : Gives IsProper (r.feed c) :=
  gives_bind.2 fun s _ => Gives.foldlM (fun _ hr c => hr.read maxInsertions [c]) hr s

theorem IsProper.feedAll (hr : r.IsProper) (s : Text) : Gives IsProper (r.feedAll s) :=
  Gives.foldlM (fun _ hr c => hr.feed c) hr s

theorem IsProper.finish (hr : r.IsProper) : Gives Element.IsProper r.finish := by
  unfold Reader.finish
  split
  · exact hr.tree.root
  · exact gives_none

end Reader

/-- Whatever a document holds, its elements have proper names. -/
theorem parse_isProper (s : Text) : Gives Element.IsProper (parse s) := by
  have hstart : Reader.IsProper {} := ⟨trivial, nofun, nofun⟩
  exact gives_bind.2 fun r hr => (hstart.feedAll s r hr).finish

end Gateway.Xml
