import Gateway.Proofs.Net.Address
import Gateway.Proofs.Xml.Fields
import Gateway.Session
/-!
# Calls as services read them

Whatever the arguments of a call are, what is sent is read as an envelope with a body, the body
as the request for the action, and the request as the arguments in order, each with its text
(`Call.parse_text`). No argument can begin an element, end one or be taken for a name. So it is
with every operation of a session (`parse_call`).
-/
namespace Gateway

open Xml (Element IsField IsLocalName Markup Opens fieldNode isAllowed outerScope)

/-! ## Envelopes -/

namespace Call

/-- What a call says can be written. -/
structure IsWritable (c : Call) : Prop where
  action : IsLocalName c.action
  arguments : ∀ a ∈ c.arguments, IsField a

variable {c : Call} {serviceType : Text}

/-- The namespaces that hold in an envelope. -/
def envelopeScope : List (Text × Text) := (['s'], envelopeUri) :: outerScope

/-- The tag that an envelope is read with. -/
def envelopeTag : Xml.Tag :=
  ⟨⟨some ['s'], "Envelope".toList⟩, some envelopeUri, ({} : Table Text Text).insert "encodingStyle".toList encodingUri⟩

/-- The tag that a body is read with. -/
def bodyTag : Xml.Tag := ⟨⟨some ['s'], "Body".toList⟩, some envelopeUri, {}⟩

theorem envelopeUri_ne_nil : envelopeUri ≠ [] := by decide

/-- What the reader knows of an envelope's tag when it has read the attributes. -/
def envelopeOpening : Xml.Opening where
  name := envelopeTag.name
  attributes := [(⟨some ['s'], "encodingStyle".toList⟩, encodingUri)]
  bindings := [(['s'], envelopeUri)]

theorem opens_envelope : Opens outerScope "s:Envelope".toList
    [("xmlns:s".toList, envelopeUri), ("s:encodingStyle".toList, encodingUri)] envelopeTag envelopeScope := by
  have hwritable : ∀ a ∈ [("xmlns:s".toList, envelopeUri), ("s:encodingStyle".toList, encodingUri)],
      Xml.Reader.IsWritable a := by
    simp only [List.forall_mem_cons]
    exact ⟨⟨by decide, List.all_eq_true.1 (by decide)⟩, ⟨by decide, List.all_eq_true.1 (by decide)⟩, nofun⟩
  have hbinding : Xml.Opening.with? { name := envelopeTag.name } ("xmlns:s".toList, envelopeUri) =
      some { name := envelopeTag.name, bindings := [(['s'], envelopeUri)] } :=
    Xml.Opening.with?_binding rfl (by decide) (by decide) (by decide) (by decide)
  have hattribute : Xml.Opening.with? { name := envelopeTag.name, bindings := [(['s'], envelopeUri)] }
      ("s:encodingStyle".toList, encodingUri) = some envelopeOpening :=
    Xml.Opening.with?_attribute rfl (show Xml.QName.ofText? "s:encodingStyle".toList = _ by decide)
      (by decide) (by decide)
  refine ⟨by decide, by decide, by decide, hwritable, envelopeOpening, ?_, fun r hr => ?_⟩
  · rw [List.foldlM_cons, hbinding]
    exact hattribute
  · simp [Xml.Reader.resolve?, hr, envelopeOpening, envelopeTag, envelopeScope, Xml.bound?, envelopeUri_ne_nil]

theorem opens_body : Opens envelopeScope "s:Body".toList [] bodyTag envelopeScope := by
  refine Xml.opens_bare ?_ ?_ ?_ ?_ ?_
  all_goals decide

theorem opens_request {action : Text} (ha : IsLocalName action) (hne : serviceType ≠ [])
    (hs : ∀ c ∈ serviceType, isAllowed .xml10 c = true) :
    Opens envelopeScope ("u:".toList ++ action) [("xmlns:u".toList, serviceType)]
      ⟨⟨some ['u'], action⟩, some serviceType, {}⟩ ((['u'], serviceType) :: envelopeScope) :=
  Xml.opens_binding (by decide : IsLocalName ['u']) ha (by decide) (by decide) hne hs

/-! ## What is read -/

/-- The element that a call is read as. -/
def requestElement (c : Call) (serviceType : Text) : Element :=
  ⟨⟨⟨some ['u'], c.action⟩, some serviceType, {}⟩, c.arguments.map fieldNode⟩

/-- The body that a call is read as. -/
def bodyElement (c : Call) (serviceType : Text) : Element := ⟨bodyTag, [(c.requestElement serviceType).toNode]⟩

/-- The envelope that a call is read as. -/
def envelopeElement (c : Call) (serviceType : Text) : Element := ⟨envelopeTag, [(c.bodyElement serviceType).toNode]⟩

theorem parse_text (hc : c.IsWritable) (hne : serviceType ≠ []) (hs : ∀ x ∈ serviceType, isAllowed .xml10 x = true) :
    Xml.parse (c.text serviceType) = some (c.envelopeElement serviceType) := by
  have hfields : Markup.Denotes ((['u'], serviceType) :: envelopeScope) [] _ (c.arguments.map fieldNode) :=
    Xml.denotes_fields rfl hc.arguments
  have hrequest : Markup.Denotes envelopeScope [] [c.toMarkup serviceType] [(c.requestElement serviceType).toNode] :=
    .element (opens_request hc.action hne hs) hfields (.done _ [])
  exact Xml.parse_document opens_envelope (.element opens_body hrequest (.done _ []))

/-- The request is what the path of its names leads to. -/
theorem find?_envelopeElement {path : Text} {x y z : Xml.Segment} (hpath : Xml.segments path = [x, y, z])
    (hx : x.covers (c.envelopeElement serviceType) = true) (hy : y.covers (c.bodyElement serviceType) = true)
    (hz : z.covers (c.requestElement serviceType) = true) :
    (c.envelopeElement serviceType).find? path = some (c.requestElement serviceType) := by
  have hbody : (c.envelopeElement serviceType).matching y = [c.bodyElement serviceType] :=
    List.filter_cons_of_pos hy
  have hrequest : (c.bodyElement serviceType).matching z = [c.requestElement serviceType] :=
    List.filter_cons_of_pos hz
  simp only [Element.find?, hpath, hx, if_true, Element.descend?, hbody, hrequest]

/-- A reply that is written like a call answers the action it is named for. -/
theorem replyTo?_envelopeElement {action name : Text} (hpath : Xml.segments ("*:Envelope.*:Body.*:".toList ++ action ++
    "Response".toList) = [.any "Envelope".toList, .any "Body".toList, .any name]) (hname : c.action = name) :
    replyTo? action (c.envelopeElement serviceType) = some (c.requestElement serviceType) :=
  find?_envelopeElement hpath rfl rfl (decide_eq_true hname)

theorem fields_requestElement (c : Call) (serviceType : Text) :
    (c.requestElement serviceType).fields = c.arguments.map fun a => (⟨none, a.1⟩, Text.trim a.2) :=
  Xml.fields_map_fieldNode _ _

theorem elements_requestElement (c : Call) (serviceType : Text) :
    (c.requestElement serviceType).children = (c.requestElement serviceType).elements.map Element.toNode ∧
      ∀ e ∈ (c.requestElement serviceType).elements, e.elements = [] := by
  rw [requestElement, Xml.elements_map_fieldNode, List.map_map]
  refine ⟨rfl, fun e he => ?_⟩
  obtain ⟨a, -, rfl⟩ := List.mem_map.1 he
  exact Xml.elements_textNodes _ a.2

end Call

/-! ## Operations -/

namespace Operation

/-- What the user says of a mapping in words. -/
def description : Operation → Text
  | .add _ _ _ description _ => description
  | .externalAddress | .mapping _ | .mappings _ _ _ _ | .delete _ _ => []

theorem isAllowed_of_mem_addressChars : ∀ c ∈ addressChars, isAllowed .xml10 c = true :=
  List.all_eq_true.1 (by decide)

theorem isAllowed_decimal (n : Nat) : ∀ c ∈ Text.decimal n, isAllowed .xml10 c = true := fun c hc =>
  isAllowed_of_mem_addressChars c (isAddressPiece_toDigits (by decide) (by decide) n hc)

theorem isAllowed_address (x : IpAddress) : ∀ c ∈ x.text, isAllowed .xml10 c = true := fun c hc =>
  isAllowed_of_mem_addressChars c (IpAddress.mem_addressChars_of_mem_text hc)

theorem isAllowed_transport (transport : Transport) : ∀ c ∈ transport.text, isAllowed .xml10 c = true := by
  refine List.all_eq_true.1 ?_
  cases transport <;> decide

/-- The names in a call are the same whatever its parameters are. -/
theorem isLocalName_call (o : Operation) (client : Text) :
    IsLocalName (o.call client).action ∧ ∀ a ∈ (o.call client).arguments, IsLocalName a.1 := by
  cases o
  all_goals
    delta call
    simp only [List.forall_mem_cons, List.not_mem_nil, false_implies, implies_true, and_true]
    decide

theorem isAllowed_call (o : Operation) (client : IpAddress) (hd : ∀ c ∈ o.description, isAllowed .xml10 c = true) :
    ∀ a ∈ (o.call client.text).arguments, ∀ c ∈ a.2, isAllowed .xml10 c = true := by
  delta call
  cases o with
  | externalAddress => exact nofun
  | mapping index =>
    simp only [List.forall_mem_cons]
    exact ⟨isAllowed_decimal _, nofun⟩
  | mappings transport first last count =>
    simp only [List.forall_mem_cons]
    exact ⟨isAllowed_decimal _, isAllowed_decimal _, isAllowed_transport _, isAllowed_decimal _, nofun⟩
  | add transport externalPort internalPort description lease =>
    simp only [List.forall_mem_cons]
    exact ⟨nofun, isAllowed_decimal _, isAllowed_transport _, isAllowed_decimal _, isAllowed_address _,
      List.all_eq_true.1 (by decide), hd, isAllowed_decimal _, nofun⟩
  | delete transport externalPort =>
    simp only [List.forall_mem_cons]
    exact ⟨nofun, isAllowed_decimal _, isAllowed_transport _, nofun⟩

theorem isWritable_call (o : Operation) (client : IpAddress) (hd : ∀ c ∈ o.description, isAllowed .xml10 c = true) :
    (o.call client.text).IsWritable := by
  obtain ⟨haction, hnames⟩ := isLocalName_call o client.text
  exact ⟨haction, fun a ha => ⟨hnames a ha, isAllowed_call o client hd a ha⟩⟩

end Operation

/-! ## Service types -/

/-- A service that controls connections has a type that can be written, and is not nothing. -/
theorem isAllowed_serviceType {serviceType : Text}
    (h : ∃ v, serviceType = ipServiceType v ∨ serviceType = pppServiceType v) :
    serviceType ≠ [] ∧ ∀ c ∈ serviceType, isAllowed .xml10 c = true := by
  rw [← List.all_eq_true]
  obtain ⟨v, rfl | rfl⟩ := h
  all_goals cases v <;> decide

/-- Whatever its parameters are, an operation calls its action with its arguments and nothing else: what it sends is
read as an envelope with a body, which holds one request, which holds the arguments in order, each with its text. -/
theorem parse_call (o : Operation) (client : IpAddress) (serviceType : Text)
    (hs : ∃ v, serviceType = ipServiceType v ∨ serviceType = pppServiceType v)
    (hd : ∀ c ∈ o.description, isAllowed .xml10 c = true) :
    ∃ envelope body request : Element,
      Xml.parse ((o.call client.text).text serviceType) = some envelope ∧
      envelope.name = "Envelope".toList ∧ envelope.children = [body.toNode] ∧
      body.name = "Body".toList ∧ body.children = [request.toNode] ∧
      request.tag.name = ⟨some ['u'], (o.call client.text).action⟩ ∧ request.tag.uri = some serviceType ∧
      request.children = request.elements.map Element.toNode ∧ (∀ e ∈ request.elements, e.elements = []) ∧
      request.fields = (o.call client.text).arguments.map fun a => (⟨none, a.1⟩, Text.trim a.2) := by
  obtain ⟨hne, hchars⟩ := isAllowed_serviceType hs
  have hparse := Call.parse_text (o.isWritable_call client hd) hne hchars
  obtain ⟨hchildren, hplain⟩ := (o.call client.text).elements_requestElement serviceType
  exact ⟨_, _, _, hparse, rfl, rfl, rfl, rfl, rfl, rfl, hchildren, hplain, Xml.fields_map_fieldNode _ _⟩

/-- A description that would end its element, and the request with it. -/
def markupDescription : Text := " </NewPortMappingDescription></u:AddPortMapping>]]>&lt;\"\t".toList

theorem parse_call_markup : ∃ envelope body request : Element,
    Xml.parse (((Operation.add .udp 80 8080 markupDescription (.ofSeconds 3600)).call
      (IpAddress.v4 ⟨10, 0, 0, 2⟩).text).text (ipServiceType .two)) = some envelope ∧
    envelope.children = [body.toNode] ∧ body.children = [request.toNode] ∧ request.fields.length = 8 ∧
    request.fields[6]? = some (⟨none, "NewPortMappingDescription".toList⟩,
      "</NewPortMappingDescription></u:AddPortMapping>]]>&lt;\"".toList) := by
  obtain ⟨envelope, body, request, hparse, -, hbody, -, hrequest, -, -, -, -, hfields⟩ :=
    parse_call (.add .udp 80 8080 markupDescription (.ofSeconds 3600)) (.v4 ⟨10, 0, 0, 2⟩) (ipServiceType .two)
      ⟨.two, .inl rfl⟩ (List.all_eq_true.1 (by decide))
  refine ⟨envelope, body, request, hparse, hbody, hrequest, ?_⟩
  rw [hfields]
  decide

end Gateway
