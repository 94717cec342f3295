import Mathlib.Data.List.Forall2
import Gateway.Proofs.Calls
import Gateway.Proofs.Xml.Names
/-!
# What a path finds

A path goes down one level for each of its segments, at each level to the first child that
the segment stands for and never back from there (`Element.Leads`). So the path of two
paths finds what the second finds from what the first found (`Element.child?_append`). A
segment `*:n` stands for whatever `n` stands for with some qualifier or none. Where all
segments of a path are so, nothing depends on the qualifiers of a tree: what is found in
one tree is found at the same place in every tree that is the same but for its qualifiers
(`Element.Requalified.findAlike`).
-/
namespace Gateway.Xml

/-! ## Segments -/

theorem IsLocalName.ne_star {x : Text} (hx : IsLocalName x) : x ≠ ['*'] := by
  rintro rfl
  exact absurd hx.isName (by decide)

namespace Segment

variable {n x : Text} {e : Element}

theorem ofText_any (n : Text) : ofText ('*' :: ':' :: n) = .any n := by
  have hcut : Text.cutAt? [':'] ('*' :: ':' :: n) = some (['*'], n) :=
    Text.cutAt?_singleton_eq_some_iff.2 ⟨rfl, by decide⟩
  rw [ofText, hcut]
  rfl

theorem ofText_plain (hn : ':' ∉ n) : ofText n = .plain n := by
  rw [ofText, Text.cutAt?_singleton_eq_none_iff.2 hn]

theorem ofText_qualified (hx : ':' ∉ x) (hne : x ≠ ['*']) (n : Text) : ofText (x ++ ':' :: n) = .qualified x n := by
  rw [ofText, Text.cutAt?_singleton_eq_some_iff.2 ⟨rfl, hx⟩]
  split
  · next h => exact absurd (congrArg Prod.fst (Option.some.inj h)) hne
  · next h =>
    obtain ⟨rfl, rfl⟩ := Prod.mk.inj (Option.some.inj h)
    rfl
  · next h => cases h

theorem covers_any : (ofText ('*' :: ':' :: n)).covers e = true ↔ e.name = n := by
  simp [ofText_any, covers]

theorem covers_plain (hn : ':' ∉ n) : (ofText n).covers e = true ↔ e.name = n ∧ e.qualifier = none := by
  simp [ofText_plain hn, covers]

theorem covers_qualified (hx : ':' ∉ x) (hne : x ≠ ['*']) :
    (ofText (x ++ ':' :: n)).covers e = true ↔ e.name = n ∧ e.qualifier = some x := by
  simp [ofText_qualified hx hne, covers]

theorem name_of_covers (hx : ':' ∉ x) (h : (ofText (x ++ ':' :: n)).covers e = true) : e.name = n := by
  by_cases hne : x = ['*']
  · subst hne
    exact covers_any.1 h
  · exact ((covers_qualified hx hne).1 h).1

/-- A name under any qualifier is the name without one or with some one. -/
theorem covers_any_iff (hn : ':' ∉ n) (e : Element) :
    (ofText ('*' :: ':' :: n)).covers e = true ↔
      (ofText n).covers e = true ∨ ∃ x, ':' ∉ x ∧ (ofText (x ++ ':' :: n)).covers e = true := by
  constructor
  · exact fun h => .inr ⟨['*'], by decide, h⟩
  · rintro (h | ⟨x, hx, h⟩)
    · exact covers_any.2 ((covers_plain hn).1 h).1
    · exact covers_any.2 (name_of_covers hx h)

/-- It is enough to try names as qualifiers where the element has no other. -/
theorem covers_any_iff_of_isProper (hn : ':' ∉ n) (he : e.tag.name.IsProper) :
    (ofText ('*' :: ':' :: n)).covers e = true ↔
      (ofText n).covers e = true ∨ ∃ x, IsLocalName x ∧ (ofText (x ++ ':' :: n)).covers e = true := by
  constructor
  · intro h
    have hname := covers_any.1 h
    cases hq : e.qualifier with
    | none => exact .inl ((covers_plain hn).2 ⟨hname, hq⟩)
    | some x =>
      have hx : IsLocalName x := he x hq
      exact .inr ⟨x, hx, (covers_qualified hx.plain hx.ne_star).2 ⟨hname, hq⟩⟩
  · exact fun h => (covers_any_iff hn e).2 (h.imp_right fun ⟨x, hx, h⟩ => ⟨x, hx.plain, h⟩)

end Segment

/-! ## Down one level after another -/

theorem length_segments (path : Text) : (segments path).length = path.count '.' + 1 := by
  rw [segments, List.length_map, Text.length_splitOn]

namespace Element

variable {e c d : Element} {es : List Element} {x : Segment} {xs : List Segment} {i : Nat} {place : List Nat}

theorem descend?_cons (e : Element) (x : Segment) (xs : List Segment) :
    e.descend? (x :: xs) = (e.elements.find? x.covers).bind fun c => c.descend? xs := by
  rw [descend?, ← List.head?_filter, matching]
  cases e.elements.filter x.covers <;> rfl

theorem descend?_append (e : Element) (xs ys : List Segment) :
    e.descend? (xs ++ ys) = (e.descend? xs).bind fun c => c.descend? ys := by
  induction xs generalizing e with
  | nil => rfl
  | cons x xs ih =>
    rw [List.cons_append, descend?_cons, descend?_cons, Option.bind_assoc]
    exact congrArg _ (funext ih)

theorem child?_append (e : Element) (p q : Text) :
    e.child? (p ++ '.' :: q) = (e.child? p).bind fun c => c.child? q := by
  rw [child?, segments, List.splitOn_append_cons_self, List.map_append]
  exact descend?_append e (segments p) (segments q)

theorem find?_append {s : Text} (hs : '.' ∉ s) (root : Element) (q : Text) :
    root.find? (s ++ '.' :: q) = if (Segment.ofText s).covers root then root.child? q else none := by
  rw [find?, segments, List.splitOn_append_cons_self_of_not_mem hs, List.map_cons]
  rfl

/-- The first of some elements that a segment stands for, by its number. -/
inductive First (x : Segment) : List Element → Nat → Element → Prop where
  | here {c : Element} {es : List Element} (h : x.covers c = true) : First x (c :: es) 0 c
  | later {b c : Element} {es : List Element} {i : Nat} (h : x.covers b = false) (hf : First x es i c) :
    First x (b :: es) (i + 1) c

theorem First.getElem? (h : First x es i c) : es[i]? = some c := by
  induction h with
  | here => rfl
  | later _ _ ih => exact ih

theorem find?_eq_some_iff : es.find? x.covers = some c ↔ ∃ i, First x es i c := by
  constructor
  · intro h
    induction es with
    | nil => cases h
    | cons b es ih =>
      cases hb : x.covers b with
      | true =>
        rw [List.find?_cons_of_pos hb] at h
        obtain rfl := Option.some.inj h
        exact ⟨0, .here hb⟩
      | false =>
        rw [List.find?_cons_of_neg (Bool.not_eq_true _ ▸ hb)] at h
        obtain ⟨i, hi⟩ := ih h
        exact ⟨i + 1, .later hb hi⟩
  · rintro ⟨i, h⟩
    induction h with
    | here h => exact List.find?_cons_of_pos h
    | later h _ ih => exact (List.find?_cons_of_neg (Bool.not_eq_true _ ▸ h)).trans ih

/-- Segments lead from an element down to a place: each of them goes to the first child
that it stands for, wherever that leads. -/
inductive Leads : Element → List Segment → List Nat → Element → Prop where
  | here (e : Element) : Leads e [] [] e
  | down {e c d : Element} {x : Segment} {xs : List Segment} {i : Nat} {place : List Nat}
      (first : First x e.elements i c) (goes : Leads c xs place d) : Leads e (x :: xs) (i :: place) d

/-- Each segment is one level. -/
theorem Leads.length_eq (h : Leads e xs place d) : place.length = xs.length := by
  induction h with
  | here => rfl
  | down _ _ ih => simp [ih]

theorem Leads.at? (h : Leads e xs place d) : e.at? place = some d := by
  induction h with
  | here => rfl
  | down first _ ih => rw [Element.at?, first.getElem?, Option.bind_some, ih]

theorem descend?_eq_some_iff : e.descend? xs = some d ↔ ∃ place, Leads e xs place d := by
  constructor
  · intro h
    induction xs generalizing e with
    | nil =>
      obtain rfl := Option.some.inj h
      exact ⟨[], .here e⟩
    | cons x xs ih =>
      rw [descend?_cons] at h
      obtain ⟨c, hc, h⟩ := Option.bind_eq_some_iff.1 h
      obtain ⟨i, hfirst⟩ := find?_eq_some_iff.1 hc
      obtain ⟨place, hplace⟩ := ih h
      exact ⟨i :: place, .down hfirst hplace⟩
  · rintro ⟨place, h⟩
    induction h with
    | here => rfl
    | down first _ ih => rw [descend?_cons, find?_eq_some_iff.2 ⟨_, first⟩, Option.bind_some, ih]

end Element

/-! ## Other qualifiers -/

/-- The same but for the qualifiers of elements. -/
inductive Node.Requalified : Node → Node → Prop where
  | element (tag : Tag) (qualifier : Option Text) {children children' : List Node}
      (h : List.Forall₂ Node.Requalified children children') :
      Node.Requalified (.element tag children) (.element { tag with name := ⟨qualifier, tag.name.base⟩ } children')
  | other {n : Node} (h : n.toElement? = none) : Node.Requalified n n

/-- The same elements but for the qualifiers of their names and of those below. -/
def Element.Requalified (e e' : Element) : Prop := e.toNode.Requalified e'.toNode

theorem Node.Requalified.toElement? {n n' : Node} (h : n.Requalified n') :
    Option.Rel Element.Requalified n.toElement? n'.toElement? := by
  cases h with
  | element tag qualifier h => exact .some (.element tag qualifier h)
  | other h =>
    rw [h]
    exact .none

namespace Element

variable {e e' c c' root root' : Element} {x : Segment} {xs : List Segment} {i : Nat}

theorem Requalified.name (h : e.Requalified e') : e.name = e'.name := by
  obtain ⟨tag, children⟩ := e
  obtain ⟨tag', children'⟩ := e'
  cases h with
  | element => rfl
  | other h => cases h

theorem Requalified.elements (h : e.Requalified e') : List.Forall₂ Requalified e.elements e'.elements := by
  obtain ⟨tag, children⟩ := e
  obtain ⟨tag', children'⟩ := e'
  cases h with
  | element _ _ h => exact List.rel_filterMap (fun _ _ h => h.toElement?) h
  | other h => cases h

theorem Requalified.covers (h : e.Requalified e') {n : Text} :
    (Segment.any n).covers e = (Segment.any n).covers e' := by
  rw [Segment.covers, Segment.covers, h.name]

/-- What two trees give is nothing in either, or stands at the same place in both and is the
same but for qualifiers. -/
inductive FindAlike (e e' : Element) (xs : List Segment) : Option Element → Option Element → Prop where
  | nothing : FindAlike e e' xs none none
  | found {place : List Nat} {d d' : Element} (h : Leads e xs place d) (h' : Leads e' xs place d')
      (hd : d.Requalified d') : FindAlike e e' xs (some d) (some d')

/-- What is found alike below two elements is found alike from above, where they have the same number. -/
theorem FindAlike.down {o o' : Option Element} (first : First x e.elements i c) (first' : First x e'.elements i c')
    (h : FindAlike c c' xs o o') : FindAlike e e' (x :: xs) o o' := by
  cases h with
  | nothing => exact .nothing
  | found h h' hd => exact .found (.down first h) (.down first' h') hd

/-- The first of some elements with a name has the same number among their counterparts. -/
theorem exists_first_of_forall₂ {es es' : List Element} (h : List.Forall₂ Requalified es es') (n : Text) :
    (es.find? (Segment.any n).covers = none ∧ es'.find? (Segment.any n).covers = none) ∨
      ∃ i c c', First (.any n) es i c ∧ First (.any n) es' i c' ∧ c.Requalified c' := by
  induction h with
  | nil => exact .inl ⟨rfl, rfl⟩
  | @cons e e' es es' he _ ih =>
    cases hc : (Segment.any n).covers e with
    | true => exact .inr ⟨0, e, e', .here hc, .here (he.covers ▸ hc), he⟩
    | false =>
      have hc' : (Segment.any n).covers e' = false := he.covers ▸ hc
      rcases ih with ⟨hnone, hnone'⟩ | ⟨i, c, c', hfirst, hfirst', hcc⟩
      · exact .inl ⟨by rw [List.find?_cons, hc, hnone], by rw [List.find?_cons, hc', hnone']⟩
      · exact .inr ⟨i + 1, c, c', .later hc hfirst, .later hc' hfirst', hcc⟩

theorem Requalified.findAlike (h : e.Requalified e') (hxs : ∀ x ∈ xs, ∃ n, x = .any n) :
    FindAlike e e' xs (e.descend? xs) (e'.descend? xs) := by
  induction xs generalizing e e' with
  | nil => exact .found (.here e) (.here e') h
  | cons x xs ih =>
    obtain ⟨⟨n, rfl⟩, hrest⟩ := List.forall_mem_cons.1 hxs
    rw [descend?_cons, descend?_cons]
    rcases exists_first_of_forall₂ h.elements n with ⟨hnone, hnone'⟩ | ⟨i, c, c', hfirst, hfirst', hcc⟩
    · rw [hnone, hnone']
      exact .nothing
    · rw [find?_eq_some_iff.2 ⟨i, hfirst⟩, find?_eq_some_iff.2 ⟨i, hfirst'⟩, Option.bind_some, Option.bind_some]
      exact (ih hcc hrest).down hfirst hfirst'

/-- All segments of a path are names under any qualifier. -/
def IsWild (path : Text) : Prop := ∀ s ∈ List.splitOn '.' path, ∃ n, s = '*' :: ':' :: n

theorem IsWild.segments {path : Text} (h : IsWild path) : ∀ x ∈ Xml.segments path, ∃ n, x = .any n := by
  rintro x hx
  obtain ⟨s, hs, rfl⟩ := List.mem_map.1 hx
  obtain ⟨n, rfl⟩ := h s hs
  exact ⟨n, Segment.ofText_any n⟩

theorem Requalified.findAlike_find? (h : root.Requalified root') {path : Text} (hpath : IsWild path) :
    FindAlike root root' (Xml.segments path).tail (root.find? path) (root'.find? path) := by
  have hxs := hpath.segments
  rw [find?, find?]
  cases hsegments : Xml.segments path with
  | nil => exact .nothing
  | cons x xs =>
    rw [hsegments] at hxs
    obtain ⟨⟨n, rfl⟩, hrest⟩ := List.forall_mem_cons.1 hxs
    show FindAlike root root' xs (if _ then _ else _) (if _ then _ else _)
    rw [← h.covers]
    split
    · exact h.findAlike hrest
    · exact .nothing

end Element

end Xml

/-! ## Replies -/

open Xml (Element)

theorem replyPath_eq (action : Text) : "*:Envelope.*:Body.*:".toList ++ action ++ "Response".toList =
    "*:Envelope".toList ++ '.' :: ("*:Body".toList ++ '.' :: ("*:".toList ++ action ++ "Response".toList)) := by
  simp

/-- Of the envelope and the body of a reply only the local names matter, -/
theorem replyTo?_eq (action : Text) (document : Element) :
    replyTo? action document =
      if document.name = "Envelope".toList then
        (document.elements.find? fun c => c.name = "Body".toList).bind fun c =>
          c.child? ("*:".toList ++ action ++ "Response".toList)
      else none := by
  have hbody : document.child? "*:Body".toList = document.elements.find? fun c => c.name = "Body".toList := by
    rw [Element.child?_eq (x := .any "Body".toList) (by decide), Element.matching, List.head?_filter]
    rfl
  rw [replyTo?, replyPath_eq, Element.find?_append (by decide), Element.child?_append, hbody]
  exact if_congr (Xml.Segment.covers_any (n := "Envelope".toList)) rfl rfl

/-- and of the answer in it, too. -/
theorem Xml.Element.Requalified.findAlike_replyTo? {document document' : Element} (h : document.Requalified document')
    {action : Text} (haction : '.' ∉ action) :
    Element.FindAlike document document' [.any "Body".toList, .any (action ++ "Response".toList)]
      (replyTo? action document) (replyTo? action document') := by
  have hlast : '.' ∉ "*:".toList ++ action ++ "Response".toList := by
    simp [haction]
  have hsplit : List.splitOn '.' ("*:Envelope.*:Body.*:".toList ++ action ++ "Response".toList) =
      ["*:Envelope".toList, "*:Body".toList, "*:".toList ++ action ++ "Response".toList] := by
    rw [replyPath_eq, List.splitOn_append_cons_self_of_not_mem (by decide),
      List.splitOn_append_cons_self_of_not_mem (by decide), List.splitOn_eq_singleton hlast]
  have hwild : Element.IsWild ("*:Envelope.*:Body.*:".toList ++ action ++ "Response".toList) := by
    rw [Element.IsWild, hsplit]
    simp only [List.forall_mem_cons]
    exact ⟨⟨_, rfl⟩, ⟨_, rfl⟩, ⟨_, rfl⟩, nofun⟩
  have hsegments : (Xml.segments ("*:Envelope.*:Body.*:".toList ++ action ++ "Response".toList)).tail =
      [.any "Body".toList, .any (action ++ "Response".toList)] := by
    rw [Xml.segments, hsplit, List.map_cons, List.tail_cons, List.map_cons, List.map_singleton]
    exact congrArg₂ (fun x y => [x, y]) (Xml.Segment.ofText_any _) (Xml.Segment.ofText_any _)
  exact hsegments ▸ h.findAlike_find? hwild

/-! ## Paths -/

open Xml (Segment IsLocalName)

/-- The path of two paths finds what the second finds from what the first found, and a path
that starts with the root goes on from the root. What a path finds from an element stands as
many levels below it as the path has segments, at the place to which the first children that
these stand for lead, each below the one before. A name with the qualifier `*` stands for
the same elements as the name alone and the name with any qualifier, and for an element with
a proper name, as all those of a document have, it is enough to try qualifiers that are names.
So a path of such names only finds the same in all trees that are the same but for their
qualifiers. This is how a reply is found under whatever qualifiers it comes. -/
theorem Xml.paths_compose :
    (∀ (e : Element) (p q : Text), e.child? (p ++ '.' :: q) = (e.child? p).bind fun c => c.child? q) ∧
    (∀ (root : Element) (s q : Text), '.' ∉ s →
      root.find? (s ++ '.' :: q) = if (Segment.ofText s).covers root then root.child? q else none) ∧
    (∀ (e c : Element) (p : Text), e.child? p = some c ↔
      ∃ place, e.Leads (segments p) place c ∧ place.length = p.count '.' + 1 ∧ e.at? place = some c) ∧
    (∀ (n : Text) (e : Element), ':' ∉ n → ((Segment.ofText ('*' :: ':' :: n)).covers e = true ↔
      (Segment.ofText n).covers e = true ∨ ∃ x, ':' ∉ x ∧ (Segment.ofText (x ++ ':' :: n)).covers e = true)) ∧
    (∀ (n : Text) (e : Element), ':' ∉ n → e.tag.name.IsProper → ((Segment.ofText ('*' :: ':' :: n)).covers e = true ↔
      (Segment.ofText n).covers e = true ∨ ∃ x, IsLocalName x ∧ (Segment.ofText (x ++ ':' :: n)).covers e = true)) ∧
    (∀ (document : Text) (root e : Element) (place : List Nat), parse document = some root → root.at? place = some e →
      e.tag.name.IsProper) ∧
    (∀ (e e' : Element) (p : Text), e.Requalified e' → Element.IsWild p →
      Element.FindAlike e e' (segments p) (e.child? p) (e'.child? p) ∧
        Element.FindAlike e e' (segments p).tail (e.find? p) (e'.find? p)) ∧
    (∀ (document : Element) (action : Text), replyTo? action document =
      if document.name = "Envelope".toList then
        (document.elements.find? fun c => c.name = "Body".toList).bind fun c =>
          c.child? ("*:".toList ++ action ++ "Response".toList)
      else none) ∧
    (∀ (document document' : Element) (action : Text), document.Requalified document' → '.' ∉ action →
      Element.FindAlike document document' [.any "Body".toList, .any (action ++ "Response".toList)]
        (replyTo? action document) (replyTo? action document')) := by
  refine ⟨Element.child?_append, fun root s q hs => Element.find?_append hs root q, fun e c p => ?_,
    fun n e hn => Segment.covers_any_iff hn e, fun n e hn he => Segment.covers_any_iff_of_isProper hn he,
    fun document root e place hroot he => parse_isProper document root hroot place e he,
    fun e e' p h hp => ⟨h.findAlike hp.segments, h.findAlike_find? hp⟩,
    fun document action => replyTo?_eq action document,
    fun document document' action h haction => h.findAlike_replyTo? haction⟩
  constructor
  · intro h
    obtain ⟨place, hplace⟩ := Element.descend?_eq_some_iff.1 h
    exact ⟨place, hplace, hplace.length_eq.trans (length_segments p), hplace.at?⟩
  · rintro ⟨place, hplace, -⟩
    exact Element.descend?_eq_some_iff.2 ⟨place, hplace⟩

/-- A reply under some qualifiers. -/
def replyUnder (envelope body answer : Option Text) : Element :=
  ⟨{ Call.envelopeTag with name := ⟨envelope, "Envelope".toList⟩ },
    [.element { Call.bodyTag with name := ⟨body, "Body".toList⟩ }
      [.element ⟨⟨answer, "GetResponse".toList⟩, some "urn:g".toList, {}⟩ []]]⟩

/-- A reply as it is usually written, and under other qualifiers or none. -/
theorem Xml.paths_compose_reply :
    let root := replyUnder (some ['s']) (some ['s']) (some ['u'])
    let root' := replyUnder none (some ['b']) none
    let answer : Element := ⟨⟨⟨some ['u'], "GetResponse".toList⟩, some "urn:g".toList, {}⟩, []⟩
    root.child? "*:Body.*:GetResponse".toList = (root.child? "*:Body".toList).bind (·.child? "*:GetResponse".toList) ∧
    root.find? "s:Envelope.s:Body".toList =
      (if (Segment.ofText "s:Envelope".toList).covers root then root.child? "s:Body".toList else none) ∧
    (∃ place, root.Leads (segments "*:Body.*:GetResponse".toList) place answer ∧ place.length = 2 ∧
      root.at? place = some answer) ∧
    ((Segment.ofText "GetResponse".toList).covers answer = true ∨
      ∃ x, ':' ∉ x ∧ (Segment.ofText (x ++ ':' :: "GetResponse".toList)).covers answer = true) ∧
    ((Segment.ofText "GetResponse".toList).covers answer = true ∨
      ∃ x, IsLocalName x ∧ (Segment.ofText (x ++ ':' :: "GetResponse".toList)).covers answer = true) ∧
    Element.FindAlike root root' (segments "*:Body".toList) (root.child? "*:Body".toList) (root'.child? "*:Body".toList) ∧
    Element.FindAlike root root' [.any "Body".toList, .any "GetResponse".toList]
      (replyTo? "Get".toList root) (replyTo? "Get".toList root') := by
  intro root root' answer
  obtain ⟨happend, hfind, hplace, hany, hname, hproper, hlike, -, hreply⟩ := Xml.paths_compose
  have hsame : root.Requalified root' :=
    .element _ none (.cons (.element _ (some ['b']) (.cons (.element _ none .nil) .nil)) .nil)
  have hparse : parse (Call.text { action := "GetResponse".toList } "urn:g".toList) = some root :=
    Call.parse_text ⟨by decide, nofun⟩ (by decide) (List.all_eq_true.1 (by decide))
  have hanswer : root.child? "*:Body.*:GetResponse".toList = some answer := by rfl
  have hwild : Element.IsWild "*:Body".toList := List.forall_mem_singleton.2 ⟨_, rfl⟩
  have hcolon : ':' ∉ "GetResponse".toList := by decide
  have hcovers : (Segment.ofText "*:GetResponse".toList).covers answer = true := by decide
  have hnamed : answer.tag.name.IsProper := hproper _ root answer [0, 0] hparse rfl
  exact ⟨happend root "*:Body".toList "*:GetResponse".toList, hfind _ _ _ (by decide : '.' ∉ "s:Envelope".toList),
    (hplace _ _ _).1 hanswer, (hany _ _ hcolon).1 hcovers, (hname _ _ hcolon hnamed).1 hcovers,
    (hlike _ _ _ hsame hwild).1, hreply _ _ _ hsame (by decide : '.' ∉ "Get".toList)⟩

end Gateway
