import Gateway.Proofs.Mappings
/-!
# Listings read back

A listing is a document of items in any order: rows that describe mappings, rows that are
malformed, other elements and comments (`Listing.Item`). Escaped as a text in a reply it is read as
the mappings of its rows, in order, and no item disturbs another (`Reply.mappings_listed`). Whether
a row is kept depends on what its seven fields say and on nothing else, and it is kept just when a
reply that says the same of one mapping can be used.
-/
namespace Gateway

open Xml (Content Element IsComment IsField IsLocalName Node Opens commentText elementText isAllowed outerScope)
open Text (decimal trim)

/-! ## Rows -/

namespace Mapping.Field

/-- The name of a field in a row. -/
def rowName : Field → Text
  | .description => "NewDescription".toList
  | .externalPort => "NewExternalPort".toList
  | .internalPort => "NewInternalPort".toList
  | .lease => "NewLeaseTime".toList
  | .transport => "NewProtocol".toList
  | .internalClient => "NewInternalClient".toList
  | .enabled => "NewEnabled".toList

theorem segments_path_rowFields (x : Field) : Xml.segments (rowFields.path x) = [.any x.rowName] := by
  cases x <;> decide

theorem isLocalName_rowName (x : Field) : IsLocalName x.rowName := by
  cases x <;> decide

variable {m : Mapping}

theorem isAllowed_text (h : ∀ c ∈ m.description, isAllowed .xml10 c = true) (x : Field) :
    ∀ c ∈ x.text m, isAllowed .xml10 c = true := by
  cases x with
  | description => exact h
  | externalPort | internalPort | lease => exact Operation.isAllowed_decimal _
  | transport => exact Operation.isAllowed_transport _
  | internalClient => exact Operation.isAllowed_address _
  | enabled =>
    refine List.all_eq_true.1 (?_ : (if m.enabled then ['1'] else ['0']).all (isAllowed .xml10) = true)
    cases m.enabled <;> decide

theorem trim_text (h : trim m.description = m.description) (x : Field) : trim (x.text m) = x.text m := by
  cases x with
  | description => exact h
  | externalPort | internalPort | lease => exact trim_decimal _
  | transport => exact trim_transport _
  | internalClient => exact trim_address _
  | enabled =>
    change trim (if m.enabled then ['1'] else ['0']) = if m.enabled then ['1'] else ['0']
    cases m.enabled <;> decide

/-- What the first field of this name says in a list of fields. -/
def found? (fields : List (Text × Text)) (x : Field) : Option Text :=
  (fields.find? fun a => a.1 = x.rowName).map fun a => trim a.2

end Mapping.Field

namespace Reply

variable {tag : Xml.Tag} {e : Element}

theorem rows_nil (tag : Xml.Tag) : rows ⟨tag, []⟩ = [] := rfl

theorem rows_append (tag : Xml.Tag) (before after : List Node) :
    rows ⟨tag, before ++ after⟩ = rows ⟨tag, before⟩ ++ rows ⟨tag, after⟩ := by
  simp only [rows, Element.matching, Element.elements, List.filterMap_append, List.filter_append]

theorem rows_cons_row (h : e.name = "PortMappingEntry".toList) (nodes : List Node) :
    rows ⟨tag, e.toNode :: nodes⟩ = (Mapping.ofElement? Mapping.rowFields e).toList ++ rows ⟨tag, nodes⟩ := by
  have hcovers : (Xml.Segment.any "PortMappingEntry".toList).covers e = true := decide_eq_true h
  have hmatching : Element.matching ⟨tag, e.toNode :: nodes⟩ (.any "PortMappingEntry".toList) =
      e :: Element.matching ⟨tag, nodes⟩ (.any "PortMappingEntry".toList) := List.filter_cons_of_pos hcovers
  rw [rows, hmatching, List.filterMap_cons]
  cases Mapping.ofElement? Mapping.rowFields e <;> rfl

theorem rows_cons_other (h : e.name ≠ "PortMappingEntry".toList) (nodes : List Node) :
    rows ⟨tag, e.toNode :: nodes⟩ = rows ⟨tag, nodes⟩ := by
  have hcovers : (Xml.Segment.any "PortMappingEntry".toList).covers e = false := decide_eq_false h
  have hmatching : Element.matching ⟨tag, e.toNode :: nodes⟩ (.any "PortMappingEntry".toList) =
      Element.matching ⟨tag, nodes⟩ (.any "PortMappingEntry".toList) :=
    List.filter_cons_of_neg (by rw [hcovers]; exact Bool.false_ne_true)
  rw [rows, hmatching]
  rfl

end Reply

namespace Listing

/-! ## Items -/

/-- What a listing is made of. A row is given by its fields, each a name and a text. -/
inductive Item where
  | mapping (m : Mapping) (fields : List (Text × Text))
  | malformed (fields : List (Text × Text))
  | other (name : Text) (attributes : List (Text × Text)) (content : Text)
  | comment (s : Text)

/-- The namespace of a listing. -/
def uri : Text := "urn:schemas-upnp-org:gw:WANIPConnection".toList

/-- The namespaces that hold in a listing. -/
def scope : List (Text × Text) := (['p'], uri) :: outerScope

/-- A field of a row as it is written. -/
def fieldText (a : Text × Text) : Text := elementText ('p' :: ':' :: a.1) [] (Xml.Markup.escape a.2)

/-- A row as it is written. -/
def rowText (fields : List (Text × Text)) : Text :=
  elementText "p:PortMappingEntry".toList [] (fields.flatMap fieldText)

namespace Item

/-- An item as it is written. -/
def text : Item → Text
  | .mapping _ fields | .malformed fields => rowText fields
  | .other name attributes content => elementText name attributes content
  | .comment s => commentText s

/-- The mapping that an item describes, if it is a row that describes one. -/
def mapping? : Item → Option Mapping
  | .mapping m _ => some m
  | .malformed _ | .other _ _ _ | .comment _ => none

/-- A row describes a mapping if the first field of each name says what is so of the mapping, perhaps between blanks,
whatever other fields there are. It is malformed if some field is missing or says what it may not say. -/
inductive IsWritable : Item → Prop
  | mapping {m : Mapping} {fields : List (Text × Text)} (hm : m.IsListable) (hfields : ∀ a ∈ fields, IsField a)
      (htexts : ∀ x, Mapping.Field.found? fields x = some (x.text m)) : IsWritable (.mapping m fields)
  | malformed {fields : List (Text × Text)} (hfields : ∀ a ∈ fields, IsField a)
      (hbad : ∃ x, ∀ s, Mapping.Field.found? fields x = some s → x.allows s = false) : IsWritable (.malformed fields)
  | other {name content : Text} {attributes inner : List (Text × Text)} {tag : Xml.Tag} {below : List Node}
      (ho : Opens scope name attributes tag inner) (hbelow : Content inner [] content below)
      (hname : tag.name.base ≠ "PortMappingEntry".toList) : IsWritable (.other name attributes content)
  | comment {s : Text} (hs : IsComment s) : IsWritable (.comment s)

end Item

/-- The document of some items. -/
def text (items : List Item) : Text :=
  Xml.declaration ++ elementText "p:PortMappingList".toList [("xmlns:p".toList, uri)] (items.flatMap Item.text)

/-- The reply that has a listing as a text. -/
def reply (items : List Item) : Call where
  action := "GetListOfPortMappingsResponse".toList
  arguments := [("NewPortListing".toList, text items)]

/-! ## What a row is read as -/

/-- What a field of a row is read as. -/
def fieldNode (a : Text × Text) : Node := .element ⟨⟨some ['p'], a.1⟩, some uri, {}⟩ (Xml.textNodes a.2)

/-- What a row is read as. -/
def rowElement (fields : List (Text × Text)) : Element :=
  ⟨⟨⟨some ['p'], "PortMappingEntry".toList⟩, some uri, {}⟩, fields.map fieldNode⟩

variable {fields : List (Text × Text)}

theorem opens_qualified {base : Text} (h : IsLocalName base) :
    Opens scope ('p' :: ':' :: base) [] ⟨⟨some ['p'], base⟩, some uri, {}⟩ scope :=
  Xml.opens_bare (h.isName_qualified (by decide : Xml.isName ['p'] = true))
    (h.ofText?_qualified (by decide : ':' ∉ ['p']) (by decide)) rfl rfl (by decide)

theorem content_fields (h : ∀ a ∈ fields, IsField a) :
    Content scope [] (fields.flatMap fieldText) (fields.map fieldNode) := by
  induction fields with
  | nil => exact .done scope []
  | cons a fields ih =>
    obtain ⟨ha, h⟩ := List.forall_mem_cons.1 h
    have hbelow : Content scope [] (Xml.Markup.escape a.2 ++ []) (Xml.textNodes a.2) :=
      .text ha.text (.done scope a.2)
    rw [List.append_nil] at hbelow
    exact .element (opens_qualified ha.name) hbelow (ih h)

theorem content_row (h : ∀ a ∈ fields, IsField a) {rest : Text} {nodes : List Node} (hrest : Content scope [] rest nodes) :
    Content scope [] (rowText fields ++ rest) ((rowElement fields).toNode :: nodes) :=
  .element (opens_qualified (by decide)) (content_fields h) hrest

theorem fields_rowElement (fields : List (Text × Text)) :
    (rowElement fields).fields = fields.map fun a => (⟨some ['p'], a.1⟩, trim a.2) :=
  Xml.fields_map_textNodes _ (fun a => ⟨⟨some ['p'], a.1⟩, some uri, {}⟩) fields

theorem textAt?_rowElement (fields : List (Text × Text)) (x : Mapping.Field) :
    (rowElement fields).textAt? (Mapping.rowFields.path x) = x.found? fields := by
  rw [Element.textAt?_any x.segments_path_rowFields, fields_rowElement, List.find?_map, Option.map_map]
  rfl

/-- Each item of a listing is one node, and the mappings in the rows are the mappings of the items. -/
theorem exists_content {items : List Item} (h : ∀ x ∈ items, x.IsWritable) (tag : Xml.Tag) :
    ∃ nodes, Content scope [] (items.flatMap Item.text) nodes ∧
      Reply.rows ⟨tag, nodes⟩ = items.filterMap Item.mapping? := by
  induction items with
  | nil => exact ⟨[], .done scope [], rfl⟩
  | cons x items ih =>
    obtain ⟨hx, h⟩ := List.forall_mem_cons.1 h
    obtain ⟨nodes, hcontent, hrows⟩ := ih h
    rw [List.flatMap_cons, List.filterMap_cons]
    cases hx with
    | @mapping m fields hm hfields htexts =>
      have hread : Mapping.ofElement? Mapping.rowFields (rowElement fields) = some m :=
        Mapping.ofElement?_text hm fun x => (textAt?_rowElement fields x).trans (htexts x)
      refine ⟨_, content_row hfields hcontent, ?_⟩
      rw [Reply.rows_cons_row rfl, hread, hrows]
      rfl
    | @malformed fields hfields hbad =>
      have hread : Mapping.ofElement? Mapping.rowFields (rowElement fields) = none := by
        obtain ⟨x, hx⟩ := hbad
        -- a row that is read has all of its fields, and none of them says what it may not say
        refine Option.eq_none_iff_forall_ne_some.2 fun m hm => ?_
        obtain ⟨s, hs, hallows⟩ := Mapping.allows_of_ofElement? hm x
        rw [textAt?_rowElement] at hs
        exact absurd hallows (by rw [hx s hs]; exact Bool.false_ne_true)
      refine ⟨_, content_row hfields hcontent, ?_⟩
      rw [Reply.rows_cons_row rfl, hread, hrows]
      rfl
    | @other name content attributes inner otherTag below ho hbelow hname =>
      refine ⟨_, .element ho hbelow hcontent, ?_⟩
      exact (Reply.rows_cons_other (e := ⟨otherTag, below⟩) hname nodes).trans hrows
    | comment hs => exact ⟨_, .comment hs hcontent, hrows⟩

/-! ## Rows of mappings -/

/-- The fields of a mapping in the order of the specification. -/
def fieldsOf (m : Mapping) : List (Text × Text) :=
  ("NewRemoteHost".toList, []) ::
    [Mapping.Field.externalPort, .transport, .internalPort, .internalClient, .enabled, .description, .lease].map
      fun x => (x.rowName, x.text m)

variable {m : Mapping}

theorem isField_fieldsOf (hchars : ∀ c ∈ m.description, isAllowed .xml10 c = true) : ∀ a ∈ fieldsOf m, IsField a :=
  List.forall_mem_cons.2 ⟨⟨by decide, nofun⟩,
    List.forall_mem_map.2 fun x _ => ⟨x.isLocalName_rowName, x.isAllowed_text hchars⟩⟩

theorem isWritable_fieldsOf (hm : m.IsListable) (htrim : trim m.description = m.description)
    (hchars : ∀ c ∈ m.description, isAllowed .xml10 c = true) : (Item.mapping m (fieldsOf m)).IsWritable := by
  refine .mapping hm (isField_fieldsOf hchars) fun x => ?_
  rw [← x.trim_text htrim]
  cases x <;> rfl

/-! ## What a listing is read as -/

/-- The tag that a listing is read with. -/
def listTag : Xml.Tag := ⟨⟨some ['p'], "PortMappingList".toList⟩, some uri, {}⟩

theorem isAllowed_uri : ∀ c ∈ uri, isAllowed .xml10 c = true := List.all_eq_true.1 (by decide)

theorem opens_list : Opens outerScope "p:PortMappingList".toList [("xmlns:p".toList, uri)] listTag scope :=
  Xml.opens_binding (by decide : IsLocalName ['p']) (by decide : IsLocalName "PortMappingList".toList) (by decide)
    (by decide) (by decide) isAllowed_uri

variable {items : List Item} {nodes : List Node}

theorem parse_text (h : Content scope [] (items.flatMap Item.text) nodes) :
    Xml.parse (text items) = some ⟨listTag, nodes⟩ :=
  Xml.parse_declared opens_list h

theorem isAllowed_text (h : Content scope [] (items.flatMap Item.text) nodes) :
    ∀ c ∈ text items, isAllowed .xml10 c = true :=
  List.forall_mem_append.2 ⟨List.all_eq_true.1 (by decide),
    Xml.isAllowed_elementText opens_list.isName opens_list.writable h.isAllowed⟩

/-- A document begins and ends with an angle bracket. -/
theorem trim_text (items : List Item) : trim (text items) = text items := by
  refine Text.trim_of_ends ?_ ?_
  · intro c hc
    cases hc
    decide
  · intro c hc
    rw [text, elementText, ← List.cons_append, ← List.append_assoc, List.getLast?_concat] at hc
    cases hc
    decide

end Listing

/-! ## Replies -/

namespace Reply

/-- The reply lists mappings in the rows of this element. -/
def Lists (body : Text) (list : Element) : Prop :=
  ∃ document answer listing, Xml.parse body = some document ∧
    replyTo? "GetListOfPortMappings".toList document = some answer ∧
    answer.textAt? "NewPortListing".toList = some listing ∧ Xml.parse listing = some list ∧
    list.name = "PortMappingList".toList

/-- The reply describes a mapping by the fields of this element. -/
def Describes (body : Text) (entry : Element) : Prop :=
  ∃ document, Xml.parse body = some document ∧ replyTo? "GetGenericPortMappingEntry".toList document = some entry

variable {body : Text} {list entry row : Element}

theorem mappings_of_lists (h : Lists body list) : mappings body = .ok (rows list) := by
  obtain ⟨document, answer, listing, hbody, hanswer, hlisting, hlist, hname⟩ := h
  rw [mappings, answer_eq _ hbody hanswer, hlisting]
  simp only [Option.elim_some, bind, Except.bind, hlist, hname, if_true]

theorem mapping_of_describes (h : Describes body entry) :
    (mapping body).toOption = Mapping.ofElement? Mapping.replyFields entry := by
  obtain ⟨document, hbody, hentry⟩ := h
  rw [mapping, answer_eq _ hbody hentry]
  cases Mapping.ofElement? Mapping.replyFields entry <;> rfl

theorem lists_reply {items : List Listing.Item} {nodes : List Node} {serviceType : Text}
    (h : Content Listing.scope [] (items.flatMap Listing.Item.text) nodes) (hne : serviceType ≠ [])
    (hs : ∀ c ∈ serviceType, isAllowed .xml10 c = true) :
    Lists ((Listing.reply items).text serviceType) ⟨Listing.listTag, nodes⟩ := by
  have hwritable : (Listing.reply items).IsWritable := by
    refine ⟨show IsLocalName "GetListOfPortMappingsResponse".toList by decide, List.forall_mem_singleton.2 ⟨?_, ?_⟩⟩
    · exact show IsLocalName "NewPortListing".toList by decide
    · exact Listing.isAllowed_text h
  have hreply : replyTo? "GetListOfPortMappings".toList ((Listing.reply items).envelopeElement serviceType) =
      some ((Listing.reply items).requestElement serviceType) :=
    Call.replyTo?_envelopeElement (by decide)
      (show (Listing.reply items).action = "GetListOfPortMappingsResponse".toList from rfl)
  have hlisting : ((Listing.reply items).requestElement serviceType).textAt? "NewPortListing".toList =
      some (Listing.text items) := by
    rw [Mapping.textAt?_arguments (Call.fields_requestElement _ _)
      (show Xml.segments "NewPortListing".toList = [.plain _] by decide)]
    exact congrArg some (Listing.trim_text items)
  exact ⟨_, _, _, Call.parse_text hwritable hne hs, hreply, hlisting, Listing.parse_text h, rfl⟩

/-- A row stands for what a reply that says the same of one mapping stands for, and does not change what the items
before and after it stand for. -/
theorem mappings_row {before after : List Node} {entryBody : Text} (h : Lists body list)
    (hlist : list.children = before ++ row.toNode :: after) (hrow : row.name = "PortMappingEntry".toList)
    (hentry : Describes entryBody entry)
    (hsame : ∀ x, entry.textAt? (Mapping.replyFields.path x) = row.textAt? (Mapping.rowFields.path x)) :
    mappings body = .ok (rows ⟨list.tag, before⟩ ++ (mapping entryBody).toOption.toList ++ rows ⟨list.tag, after⟩) := by
  rw [mappings_of_lists h, mapping_of_describes hentry, Mapping.ofElement?_congr hsame, List.append_assoc,
    ← rows_cons_row hrow, ← rows_append, ← hlist]

/-- A listing is read as its mappings in order, whatever else is in it. And in every listing a row is kept just when a
reply that says the same of one mapping, by the names that it uses, can be used, and then for the same mapping. -/
theorem mappings_listed (items : List Listing.Item) (hitems : ∀ x ∈ items, x.IsWritable) (serviceType : Text)
    (hne : serviceType ≠ []) (hs : ∀ c ∈ serviceType, isAllowed .xml10 c = true) :
    mappings ((Listing.reply items).text serviceType) = .ok (items.filterMap Listing.Item.mapping?) ∧
    ∀ (body entryBody : Text) (list row entry : Element) (before after : List Node), Lists body list →
      list.children = before ++ row.toNode :: after → row.name = "PortMappingEntry".toList → Describes entryBody entry →
      (∀ x, entry.textAt? (Mapping.replyFields.path x) = row.textAt? (Mapping.rowFields.path x)) →
      mappings body =
        .ok (rows ⟨list.tag, before⟩ ++ (mapping entryBody).toOption.toList ++ rows ⟨list.tag, after⟩) := by
  refine ⟨?_, fun body entryBody list row entry before after => mappings_row⟩
  obtain ⟨nodes, hcontent, hrows⟩ := Listing.exists_content hitems Listing.listTag
  rw [mappings_of_lists (lists_reply hcontent hne hs), hrows]

end Reply

namespace Listing

/-- A mapping with a description that looks like markup. -/
def camera : Mapping where
  description := "</NewDescription><!-- ]]>&lt;\"".toList
  externalPort := 80
  internalPort := 8080
  lease := .ofSeconds 3600
  transport := .udp
  internalClient := .v4 ⟨10, 0, 0, 2⟩
  enabled := true

/-- A mapping that is switched off, with a lease without an end. -/
def game : Mapping where
  description := "game".toList
  externalPort := 5000
  internalPort := 5001
  lease := .ofSeconds 0
  transport := .tcp
  internalClient := .v4 ⟨192, 168, 1, 30⟩
  enabled := false

/-- The fields of a row without a client. -/
def clientless : List (Text × Text) := (fieldsOf game).filter fun a => a.1 ≠ "NewInternalClient".toList

/-- The second of the two mappings has its fields backwards. -/
def mixed : List Item :=
  [.comment " rows ".toList, .mapping camera (fieldsOf camera), .malformed clientless,
    .other "p:note".toList [] (rowText (fieldsOf camera)),
    .mapping game (fieldsOf game).reverse]

theorem isListable_camera : camera.IsListable := ⟨⟨3600, by decide, rfl⟩, ⟨10, 0, 0, 2⟩, rfl⟩

theorem isListable_game : game.IsListable := ⟨⟨0, by decide, rfl⟩, ⟨192, 168, 1, 30⟩, rfl⟩

theorem isField_game : ∀ a ∈ fieldsOf game, IsField a :=
  isField_fieldsOf (List.all_eq_true.1 (by decide))

theorem isField_camera : ∀ a ∈ fieldsOf camera, IsField a :=
  isField_fieldsOf (List.all_eq_true.1 (by decide))

theorem isWritable_mixed : ∀ x ∈ mixed, x.IsWritable := by
  have hmalformed : (Item.malformed clientless).IsWritable := by
    refine .malformed (fun a ha => isField_game a (List.mem_of_mem_filter ha)) ⟨.internalClient, fun s hs => ?_⟩
    have hnone : Mapping.Field.found? clientless .internalClient = none := by decide
    rw [hnone] at hs
    cases hs
  have hreverse : (Item.mapping game (fieldsOf game).reverse).IsWritable :=
    .mapping isListable_game (fun a ha => isField_game a (List.mem_reverse.1 ha)) fun x => by
      cases x <;> decide
  have hother : (Item.other "p:note".toList [] (rowText (fieldsOf camera))).IsWritable := by
    have hbelow := content_row isField_camera (.done scope [])
    rw [List.append_nil] at hbelow
    exact .other (opens_qualified (by decide : IsLocalName "note".toList)) hbelow (by decide)
  simp only [mixed, List.forall_mem_cons]
  exact ⟨.comment ⟨List.all_eq_true.1 (by decide), by decide⟩,
    isWritable_fieldsOf isListable_camera (by decide) (List.all_eq_true.1 (by decide)), hmalformed, hother, hreverse,
    nofun⟩

/-- A reply that says the same of one mapping as a row of `game`. -/
def gameReply : Call where
  action := "GetGenericPortMappingEntryResponse".toList
  arguments := [Mapping.Field.description, .externalPort, .internalPort, .lease, .transport, .internalClient, .enabled].map
    fun x => (Mapping.replyFields.path x, x.text game)

theorem mappings_listed_mixed : (∀ x ∈ mixed, x.IsWritable) ∧
    Reply.mappings ((reply mixed).text (ipServiceType .two)) = .ok [camera, game] ∧
    Reply.mappings ((reply [.mapping game (fieldsOf game)]).text (ipServiceType .two)) =
      .ok (Reply.mapping (gameReply.text (ipServiceType .two))).toOption.toList := by
  obtain ⟨hne, hs⟩ := isAllowed_serviceType ⟨.two, .inl rfl⟩
  obtain ⟨hmixed, hrow⟩ := Reply.mappings_listed mixed isWritable_mixed (ipServiceType .two) hne hs
  refine ⟨isWritable_mixed, hmixed, ?_⟩
  have hlists : Reply.Lists ((reply [.mapping game (fieldsOf game)]).text (ipServiceType .two))
      ⟨listTag, [(rowElement (fieldsOf game)).toNode]⟩ :=
    Reply.lists_reply (content_row isField_game (.done scope [])) hne hs
  have hwritable : gameReply.IsWritable := by
    refine ⟨show IsLocalName "GetGenericPortMappingEntryResponse".toList by decide,
      List.forall_mem_map.2 fun x _ => ⟨?_, x.isAllowed_text (List.all_eq_true.1 (by decide))⟩⟩
    cases x <;> decide
  have hdescribes : Reply.Describes (gameReply.text (ipServiceType .two)) (gameReply.requestElement (ipServiceType .two)) :=
    ⟨_, Call.parse_text hwritable hne hs, replyTo?_entry rfl _⟩
  have hsame : ∀ x, (gameReply.requestElement (ipServiceType .two)).textAt? (Mapping.replyFields.path x) =
      (rowElement (fieldsOf game)).textAt? (Mapping.rowFields.path x) := by
    intro x
    rw [Mapping.textAt?_arguments (Call.fields_requestElement _ _) (Mapping.segments_path_replyFields x),
      textAt?_rowElement]
    cases x <;> decide
  have hgame := hrow _ _ _ _ _ [] [] hlists rfl rfl hdescribes hsame
  rwa [Reply.rows_nil, List.nil_append, List.append_nil] at hgame

end Listing

end Gateway
