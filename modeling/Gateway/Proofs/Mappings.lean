import Gateway.Proofs.Calls
/-!
# Mappings read back

What is added reads back the same. The arguments of the request that adds a mapping have the
names of the fields that a mapping is read from, and each is written so that its field reads it
(`Mapping.ofElement?_added`). So a gateway that answers with the arguments it was sent, in
whatever envelope, describes the mapping that was asked for (`mapping_echoed`).
-/
namespace Gateway

open Xml (Element isAllowed)
open Text (decimal trim)

/-! ## Values -/

theorem isBlank_of_mem_addressChars {c : Char} (h : c ∈ addressChars) : Text.isBlank c = false := by
  have hnone : addressChars.any Text.isBlank = false := by decide
  exact Bool.eq_false_iff.2 (List.any_eq_false.1 hnone c h)

theorem trim_decimal (n : Nat) : trim (decimal n) = decimal n :=
  Text.trim_of_nonblank fun _ hc =>
    isBlank_of_mem_addressChars (isAddressPiece_toDigits (by decide) (by decide) n hc)

theorem trim_address (x : IpAddress) : trim x.text = x.text :=
  Text.trim_of_nonblank fun _ hc => isBlank_of_mem_addressChars (IpAddress.mem_addressChars_of_mem_text hc)

theorem trim_transport (transport : Transport) : trim transport.text = transport.text := by
  cases transport <;> decide

theorem Transport.ofText?_text (transport : Transport) : ofText? transport.text = some transport := by
  cases transport <;> decide

theorem Duration.seconds_ofSeconds (n : Nat) : (ofSeconds n).seconds = n :=
  Nat.mul_div_cancel n (by decide)

/-! ## Fields -/

namespace Mapping

/-- The fields of a mapping. -/
inductive Field where
  | description
  | externalPort
  | internalPort
  | lease
  | transport
  | internalClient
  | enabled
  deriving DecidableEq, Repr

/-- The path to a field. -/
def Fields.path (f : Fields) : Field → Text
  | .description => f.description
  | .externalPort => f.externalPort
  | .internalPort => f.internalPort
  | .lease => f.lease
  | .transport => f.transport
  | .internalClient => f.internalClient
  | .enabled => f.enabled

namespace Field

/-- What a field says of a mapping. -/
def text (m : Mapping) : Field → Text
  | .description => m.description
  | .externalPort => decimal m.externalPort.toNat
  | .internalPort => decimal m.internalPort.toNat
  | .lease => decimal m.lease.seconds
  | .transport => m.transport.text
  | .internalClient => m.internalClient.text
  | .enabled => if m.enabled then ['1'] else ['0']

/-- Whether a field may say this of a mapping. A description may say anything. -/
def allows (s : Text) : Field → Bool
  | .description => true
  | .externalPort | .internalPort => (Text.number? 65536 s).isSome
  | .lease => (Text.number? 0x10000000000000000 s).isSome
  | .transport => (Transport.ofText? s).isSome
  | .internalClient => (IpAddress.parse? s).isSome
  | .enabled => (Element.flagOfText? s).isSome

end Field

/-- A mapping that a gateway can describe: its lease is a number of seconds, which has 64 bits, and its client has an
IPv4 address. -/
structure IsListable (m : Mapping) : Prop where
  lease : ∃ n < 0x10000000000000000, m.lease = .ofSeconds n
  client : ∃ x, m.internalClient = .v4 x

variable {e : Element} {fields : Fields} {path : Text} {m : Mapping}

/-- Nothing but the texts of the seven fields matters. -/
theorem ofElement?_congr {fields' : Fields} {e' : Element}
    (h : ∀ x, e.textAt? (fields.path x) = e'.textAt? (fields'.path x)) : ofElement? fields e = ofElement? fields' e' := by
  have hdescription : e.textAt? fields.description = e'.textAt? fields'.description := h .description
  have hexternal : e.textAt? fields.externalPort = e'.textAt? fields'.externalPort := h .externalPort
  have hinternal : e.textAt? fields.internalPort = e'.textAt? fields'.internalPort := h .internalPort
  have hlease : e.textAt? fields.lease = e'.textAt? fields'.lease := h .lease
  have htransport : e.textAt? fields.transport = e'.textAt? fields'.transport := h .transport
  have hclient : e.textAt? fields.internalClient = e'.textAt? fields'.internalClient := h .internalClient
  have henabled : e.textAt? fields.enabled = e'.textAt? fields'.enabled := h .enabled
  simp only [ofElement?, Element.portAt?, Element.numberAt?, Element.addressAt?, Element.flagAt?, hdescription,
    hexternal, hinternal, hlease, htransport, hclient, henabled]

theorem isSome_of_bind {α : Type} {o : Option Text} {f : Text → Option α} {a : α} (h : o.bind f = some a) :
    ∃ s, o = some s ∧ (f s).isSome = true := by
  obtain ⟨s, ho, hs⟩ := Option.bind_eq_some_iff.1 h
  exact ⟨s, ho, hs ▸ rfl⟩

theorem isSome_of_portAt? {port : UInt16} (h : e.portAt? path = some port) :
    ∃ s, e.textAt? path = some s ∧ (Text.number? 65536 s).isSome = true := by
  obtain ⟨n, hn, -⟩ := Option.map_eq_some_iff.1 h
  exact isSome_of_bind hn

/-- What is read as a mapping says of it what each field may say. -/
theorem allows_of_ofElement? (h : ofElement? fields e = some m) (x : Field) :
    ∃ s, e.textAt? (fields.path x) = some s ∧ x.allows s = true := by
  simp only [ofElement?, Option.bind_eq_bind, Option.bind_eq_some_iff] at h
  obtain ⟨description, hdescription, _, hexternal, _, hinternal, _, hlease, _, htransport, _, hclient, _, henabled, -⟩ := h
  cases x with
  | description => exact ⟨description, hdescription, rfl⟩
  | externalPort => exact isSome_of_portAt? hexternal
  | internalPort => exact isSome_of_portAt? hinternal
  | lease => exact isSome_of_bind hlease
  | transport => exact isSome_of_bind (Option.bind_eq_some_iff.2 htransport)
  | internalClient => exact isSome_of_bind hclient
  | enabled => exact isSome_of_bind henabled

theorem numberAt?_decimal {bound n : Nat} (h : e.textAt? path = some (decimal n)) (hn : n < bound) :
    e.numberAt? bound path = some n := by
  rw [Element.numberAt?, h]
  exact Text.number?_decimal hn

theorem portAt?_decimal {port : UInt16} (h : e.textAt? path = some (decimal port.toNat)) :
    e.portAt? path = some port := by
  rw [Element.portAt?, numberAt?_decimal h port.toNat_lt]
  simp

/-- Each field reads what it says. -/
theorem ofElement?_text (hm : m.IsListable) (h : ∀ x : Field, e.textAt? (fields.path x) = some (x.text m)) :
    ofElement? fields e = some m := by
  obtain ⟨⟨n, hn, hlease⟩, x, hclient⟩ := hm
  obtain ⟨description, externalPort, internalPort, lease, transport, internalClient, enabled⟩ := m
  subst hlease hclient
  have hdescription : e.textAt? fields.description = some description := h .description
  have hexternal : e.portAt? fields.externalPort = some externalPort := portAt?_decimal (h .externalPort)
  have hinternal : e.portAt? fields.internalPort = some internalPort := portAt?_decimal (h .internalPort)
  have hlease : e.numberAt? 0x10000000000000000 fields.lease = some n :=
    numberAt?_decimal ((h .lease).trans (congrArg (some ∘ decimal) (Duration.seconds_ofSeconds n))) hn
  have htransport : e.textAt? fields.transport = some transport.text := h .transport
  have haddress : e.addressAt? fields.internalClient = some (.v4 x) := by
    rw [Element.addressAt?, show e.textAt? fields.internalClient = _ from h .internalClient]
    exact IpAddress.parse?_text x
  have hflag : e.flagAt? fields.enabled = some enabled := by
    rw [Element.flagAt?, show e.textAt? fields.enabled = some (if enabled then ['1'] else ['0']) from h .enabled]
    cases enabled <;> decide
  simp only [ofElement?, hdescription, hexternal, hinternal, hlease, htransport, transport.ofText?_text, haddress, hflag,
    Option.bind_eq_bind, Option.bind_some, Option.pure_def]

/-! ## Arguments -/

/-- The mapping that an operation to add one asks for. -/
def added (transport : Transport) (externalPort internalPort : UInt16) (client : Ipv4) (description : Text)
    (lease : Duration) : Mapping where
  description := trim description
  externalPort := externalPort
  internalPort := internalPort
  lease := .ofSeconds lease.seconds
  transport := transport
  internalClient := .v4 client
  enabled := true

/-- An argument is found by its name. -/
theorem textAt?_arguments {arguments : List (Text × Text)} {name : Text}
    (he : e.fields = arguments.map fun a => (⟨none, a.1⟩, trim a.2)) (hname : Xml.segments name = [.plain name]) :
    e.textAt? name = (arguments.find? fun a => a.1 = name).map fun a => trim a.2 := by
  rw [Element.textAt?_eq hname, he, List.find?_map, Option.map_map]
  simp only [Function.comp_def, Xml.QName.mk.injEq, true_and]

theorem segments_path_replyFields (x : Field) : Xml.segments (replyFields.path x) = [.plain (replyFields.path x)] := by
  cases x <;> decide

/-- Each field of a mapping reads the argument of the same name. -/
theorem ofElement?_added (transport : Transport) (externalPort internalPort : UInt16) (client : Ipv4)
    (description : Text) (lease : Duration) (hl : lease.seconds < 0x10000000000000000)
    (he : e.fields = ((Operation.add transport externalPort internalPort description lease).call
      client.text).arguments.map fun a => (⟨none, a.1⟩, trim a.2)) :
    ofElement? replyFields e = some (added transport externalPort internalPort client description lease) := by
  refine ofElement?_text ⟨⟨lease.seconds, hl, rfl⟩, client, rfl⟩ fun x => ?_
  rw [textAt?_arguments he (segments_path_replyFields x)]
  cases x with
  | description => rfl
  | externalPort => exact congrArg some (trim_decimal _)
  | internalPort => exact congrArg some (trim_decimal _)
  | lease => exact congrArg some ((trim_decimal _).trans (congrArg decimal (Duration.seconds_ofSeconds _).symm))
  | transport => exact congrArg some (trim_transport _)
  | internalClient => exact congrArg some (trim_address (.v4 client))
  | enabled => rfl

end Mapping

/-! ## Replies -/

theorem Reply.answer_eq {α : Type} {action body : Text} {document reply : Element} (read : Element → Option α)
    (hparse : Xml.parse body = some document) (hreply : replyTo? action document = some reply) :
    answer action read body = (read reply).elim (.error .incomplete) .ok := by
  rw [answer, hparse]
  simp only [hreply, Option.bind_some]
  cases read reply <;> rfl

theorem Reply.mapping_eq_ok {body : Text} {document reply : Element} {m : Mapping}
    (hparse : Xml.parse body = some document)
    (hreply : replyTo? "GetGenericPortMappingEntry".toList document = some reply)
    (hm : Mapping.ofElement? Mapping.replyFields reply = some m) : Reply.mapping body = .ok m := by
  rw [Reply.mapping, Reply.answer_eq _ hparse hreply, hm]
  rfl

theorem replyTo?_entry {c : Call} (hc : c.action = "GetGenericPortMappingEntryResponse".toList) (serviceType : Text) :
    replyTo? "GetGenericPortMappingEntry".toList (c.envelopeElement serviceType) = some (c.requestElement serviceType) :=
  Call.replyTo?_envelopeElement (by decide) hc

/-- The answer of a gateway that gives the arguments of a request back. -/
def echo (request : Element) : Call where
  action := "GetGenericPortMappingEntryResponse".toList
  arguments := request.elements.map fun e => (e.name, e.text?.getD [])

variable {c : Call} {serviceType : Text}

theorem arguments_echo (c : Call) (serviceType : Text) : (echo (c.requestElement serviceType)).arguments =
    c.arguments.map fun a => (a.1, if a.2.all Xml.isSpace then [] else a.2) := by
  change (c.requestElement serviceType).elements.map (fun e => (e.name, e.text?.getD [])) = _
  rw [Call.requestElement, Xml.elements_map_fieldNode, List.map_map]
  exact List.map_congr_left fun a _ => congrArg (Prod.mk a.1) (Xml.text?_textNodes _ a.2)

theorem isWritable_echo (hc : c.IsWritable) : (echo (c.requestElement serviceType)).IsWritable := by
  refine ⟨show Xml.IsLocalName "GetGenericPortMappingEntryResponse".toList by decide, ?_⟩
  rw [arguments_echo]
  refine List.forall_mem_map.2 fun a ha => ⟨(hc.arguments a ha).name, ?_⟩
  dsimp only
  split
  · exact nofun
  · exact (hc.arguments a ha).text

theorem fields_echo (c : Call) (serviceType serviceType' : Text) :
    ((echo (c.requestElement serviceType)).requestElement serviceType').fields =
      (c.requestElement serviceType).fields := by
  rw [Call.fields_requestElement, arguments_echo, List.map_map, Call.fields_requestElement]
  refine List.map_congr_left fun a _ => congrArg (Prod.mk _) ?_
  rw [← Xml.trim_text?_textNodes ⟨⟨none, a.1⟩, none, {}⟩ a.2, Xml.text?_textNodes]

theorem replyTo?_echo (request : Element) (serviceType : Text) :
    replyTo? "GetGenericPortMappingEntry".toList ((echo request).envelopeElement serviceType) =
      some ((echo request).requestElement serviceType) :=
  replyTo?_entry rfl serviceType

/-! ## What is added -/

/-- What is added reads back the same, from every reply that gives the request's arguments back, by their names and
their texts, and so from the one that is written like a call. The seconds of a lease are a number of 64 bits. -/
theorem mapping_echoed (transport : Transport) (externalPort internalPort : UInt16) (client : Ipv4)
    (description : Text) (lease : Duration) (serviceType : Text)
    (hs : ∃ v, serviceType = ipServiceType v ∨ serviceType = pppServiceType v)
    (hd : ∀ c ∈ description, isAllowed .xml10 c = true) (hl : lease.seconds < 0x10000000000000000) :
    ∃ request : Element,
      (Xml.parse (((Operation.add transport externalPort internalPort description lease).call client.text).text
        serviceType)).bind (·.find? "s:Envelope.s:Body.u:AddPortMapping".toList) = some request ∧
      (∀ (body : Text) (document reply : Element), Xml.parse body = some document →
        replyTo? "GetGenericPortMappingEntry".toList document = some reply → reply.fields = request.fields →
        Reply.mapping body = .ok (.added transport externalPort internalPort client description lease)) ∧
      Reply.mapping ((echo request).text serviceType) =
        .ok (.added transport externalPort internalPort client description lease) := by
  obtain ⟨hne, hchars⟩ := isAllowed_serviceType hs
  let o := Operation.add transport externalPort internalPort description lease
  have hwritable : (o.call client.text).IsWritable := o.isWritable_call (.v4 client) hd
  have hparse := Call.parse_text hwritable hne hchars
  have hfind : ((o.call client.text).envelopeElement serviceType).find?
      "s:Envelope.s:Body.u:AddPortMapping".toList = some ((o.call client.text).requestElement serviceType) :=
    Call.find?_envelopeElement (show Xml.segments _ =
      [.qualified ['s'] "Envelope".toList, .qualified ['s'] "Body".toList, .qualified ['u'] "AddPortMapping".toList]
      by decide) rfl rfl rfl
  have hread : ∀ (body : Text) (document reply : Element), Xml.parse body = some document →
      replyTo? "GetGenericPortMappingEntry".toList document = some reply →
      reply.fields = ((o.call client.text).requestElement serviceType).fields →
      Reply.mapping body = .ok (.added transport externalPort internalPort client description lease) := by
    intro body document reply hbody hreply hfields
    exact Reply.mapping_eq_ok hbody hreply (Mapping.ofElement?_added transport externalPort internalPort client
      description lease hl (hfields.trans (Xml.fields_map_fieldNode _ _)))
  refine ⟨(o.call client.text).requestElement serviceType, ?_, hread, ?_⟩
  · rw [hparse]
    exact hfind
  · exact hread _ _ _ (Call.parse_text (isWritable_echo hwritable) hne hchars) (replyTo?_echo _ _) (fields_echo _ _ _)

/-- A lease of an hour and a half second, and a description that would end its element. -/
theorem mapping_echoed_markup : ∃ request : Element,
    (Xml.parse (((Operation.add .udp 80 8080 markupDescription ⟨3600500000000⟩).call (Ipv4.text ⟨10, 0, 0, 2⟩)).text
      (pppServiceType .one))).bind (·.find? "s:Envelope.s:Body.u:AddPortMapping".toList) = some request ∧
    Reply.mapping ((echo request).text (pppServiceType .one)) = .ok
      { description := "</NewPortMappingDescription></u:AddPortMapping>]]>&lt;\"".toList
        externalPort := 80, internalPort := 8080, lease := .ofSeconds 3600, transport := .udp
        internalClient := .v4 ⟨10, 0, 0, 2⟩, enabled := true } := by
  obtain ⟨request, hrequest, -, hecho⟩ := mapping_echoed .udp 80 8080 ⟨10, 0, 0, 2⟩ markupDescription ⟨3600500000000⟩
    (pppServiceType .one) ⟨.one, .inr rfl⟩ (List.all_eq_true.1 (by decide)) (by decide)
  exact ⟨request, hrequest, hecho.trans (congrArg Except.ok (by decide))⟩

end Gateway
