import Mathlib.Data.List.Forall2
import Gateway.Device
import Gateway.Proofs.Xml.Fields
/-!
# Descriptions read back

An element describes a device if its fields are there, each once: in any order, under any
qualifiers, with text, comments and elements of other names among them (`Element.LaysOut`), and
the elements in its lists describe the services and the devices of the device in turn
(`Device.AllDescribed`). Every tree of devices is described by some element, and every element that
describes it is read as that tree (`Device.read_described`).
-/
namespace Gateway

open Xml (Element Node Segment segments)
open Text (trim)

/-! ## Layouts -/

namespace Xml.Element

/-- The element holds this text, perhaps with blanks around it. -/
def Holds (e : Element) (s : Text) : Prop :=
  ∃ before after, (∀ c ∈ before, Text.isBlank c = true) ∧ (∀ c ∈ after, Text.isBlank c = true) ∧
    e.text?.getD [] = before ++ s ++ after

/-- Of the names `names`, the children of `e` have the ones of these fields, in any order. What else there is
among the children does not matter. -/
structure LaysOut (e : Element) (names : List Text) (fields : List (Text × Element)) : Prop where
  named : ∀ f ∈ fields, f.2.name = f.1
  among : (e.elements.filter fun c => names.contains c.name).Perm (fields.map (·.2))

/-- The fields of one name. -/
def fieldsNamed (fields : List (Text × Element)) (name : Text) : List Element :=
  (fields.filter fun f => f.1 = name).map (·.2)

variable {e : Element} {names : List Text} {fields : List (Text × Element)} {path name s : Text}

theorem Holds.trim_text? (h : e.Holds s) (hs : trim s = s) : trim (e.text?.getD []) = s := by
  obtain ⟨before, after, hbefore, hafter, htext⟩ := h
  rw [htext, Text.trim_append_blank hafter, Text.trim_blank_append hbefore, hs]

theorem LaysOut.matching (h : e.LaysOut names fields) (hname : name ∈ names) :
    (e.matching (.any name)).Perm (fieldsNamed fields name) := by
  have hamong := h.among.filter fun c => decide (c.name = name)
  have hleft : ((e.elements.filter fun c => names.contains c.name).filter fun c => decide (c.name = name)) =
      e.matching (.any name) := by
    rw [List.filter_filter]
    refine List.filter_congr fun c _ => ?_
    by_cases hc : c.name = name
    · simp [Segment.covers, hc, hname]
    · simp [Segment.covers, hc]
  have hright : (fields.map (·.2)).filter (fun c => decide (c.name = name)) = fieldsNamed fields name := by
    rw [fieldsNamed, List.filter_map]
    refine congrArg _ (List.filter_congr fun f hf => ?_)
    rw [Function.comp_apply, h.named f hf]
  rwa [hleft, hright] at hamong

/-- A field of which there is one at most is found, or found to be absent. -/
theorem LaysOut.child? (h : e.LaysOut names fields) (name : Text) (hpath : segments path = [.any name])
    (hname : name ∈ names) {found : Option Element} (hfound : fieldsNamed fields name = found.toList) :
    e.child? path = found := by
  have hmatching := h.matching hname
  rw [hfound] at hmatching
  rw [child?_eq hpath]
  cases found with
  | none => rw [hmatching.eq_nil]; rfl
  | some c => rw [hmatching.eq_singleton]; rfl

theorem LaysOut.textAt? (h : e.LaysOut names fields) (name : Text) (hpath : segments path = [.any name])
    (hname : name ∈ names) {c : Element} (hc : fieldsNamed fields name = [c])
    (hholds : c.Holds s) (hs : trim s = s) : e.textAt? path = some s := by
  have hchild : e.child? path = some c := h.child? name hpath hname hc
  rw [Element.textAt?, hchild, Option.map_some, hholds.trim_text? hs]

/-- The elements in a list, which may be absent. -/
def listed : Option Element → List Element
  | some list => list.elements
  | none => []

end Xml.Element

/-! ## Services -/

theorem Url.buffer_parse (s : Text) : (parse s).buffer = s := rfl

namespace Service

/-- The names of the fields that a service is read from. -/
def fieldNames : List Text := ["serviceId".toList, "serviceType".toList, "controlURL".toList]

/-- The element describes the service. -/
def Described (s : Service) (e : Element) : Prop :=
  ∃ id serviceType controlUrl : Element,
    e.LaysOut fieldNames
      [("serviceId".toList, id), ("serviceType".toList, serviceType), ("controlURL".toList, controlUrl)] ∧
    id.Holds s.id ∧ serviceType.Holds s.serviceType ∧ controlUrl.Holds s.controlUrl.buffer

/-- No text of the service has blanks around it, and its control URL is not empty. -/
structure IsTrimmed (s : Service) : Prop where
  id : trim s.id = s.id
  serviceType : trim s.serviceType = s.serviceType
  controlUrl : ∃ t ≠ [], trim t = t ∧ s.controlUrl = Url.parse t

theorem ofElement?_of_described {s : Service} {e : Element} (h : s.Described e) (hs : s.IsTrimmed) :
    ofElement? e = some s := by
  obtain ⟨id, serviceType, controlUrl, hlaid, hid, htype, hurl⟩ := h
  obtain ⟨t, hne, ht, hparse⟩ := hs.controlUrl
  rw [hparse, Url.buffer_parse] at hurl
  have hid : e.textAt? "*:serviceId".toList = some s.id :=
    hlaid.textAt? "serviceId".toList (by decide) (by decide) rfl hid hs.id
  have htype : e.textAt? "*:serviceType".toList = some s.serviceType :=
    hlaid.textAt? "serviceType".toList (by decide) (by decide) rfl htype hs.serviceType
  have hurl : e.textAt? "*:controlURL".toList = some t :=
    hlaid.textAt? "controlURL".toList (by decide) (by decide) rfl hurl ht
  simp only [ofElement?, hid, htype, hurl, Option.bind_eq_bind, Option.bind_some, hne, if_false, Option.pure_def]
  rw [← hparse]

theorem listedIn_eq (e : Element) :
    listedIn e = (Element.listed (e.child? "*:serviceList".toList)).filterMap ofElement? := by
  rw [listedIn]
  cases e.child? "*:serviceList".toList <;> rfl

end Service

/-! ## Devices -/

namespace Device

/-- The names of the fields that a device is read from. -/
def fieldNames : List Text :=
  ["deviceType".toList, "friendlyName".toList, "UDN".toList, "serviceList".toList, "deviceList".toList]

/-- The fields of a device. It need not have any list. -/
structure Parts where
  deviceType : Element
  friendlyName : Element
  udn : Element
  serviceList : Option Element
  deviceList : Option Element

/-- The fields with their names, those that there are. -/
def Parts.fields (p : Parts) : List (Text × Element) :=
  [("deviceType".toList, p.deviceType), ("friendlyName".toList, p.friendlyName), ("UDN".toList, p.udn)] ++
    p.serviceList.toList.map (("serviceList".toList, ·)) ++ p.deviceList.toList.map (("deviceList".toList, ·))

theorem Parts.fieldsNamed_fields (p : Parts) :
    Element.fieldsNamed p.fields "deviceType".toList = [p.deviceType] ∧
    Element.fieldsNamed p.fields "friendlyName".toList = [p.friendlyName] ∧
    Element.fieldsNamed p.fields "UDN".toList = [p.udn] ∧
    Element.fieldsNamed p.fields "serviceList".toList = p.serviceList.toList ∧
    Element.fieldsNamed p.fields "deviceList".toList = p.deviceList.toList := by
  obtain ⟨deviceType, friendlyName, udn, serviceList, deviceList⟩ := p
  cases serviceList <;> cases deviceList <;> exact ⟨rfl, rfl, rfl, rfl, rfl⟩

/-- The elements describe the devices, one each. -/
inductive AllDescribed : List Device → List Element → Prop
  | nil : AllDescribed [] []
  | cons {d : Device} {e : Element} {ds : List Device} {es : List Element} (p : Parts)
      (hlaid : e.LaysOut fieldNames p.fields) (htype : p.deviceType.Holds d.deviceType)
      (hname : p.friendlyName.Holds d.friendlyName) (hudn : p.udn.Holds d.udn)
      (hservices : List.Forall₂ Service.Described d.services (Element.listed p.serviceList))
      (hdevices : AllDescribed d.devices (Element.listed p.deviceList)) (htail : AllDescribed ds es) :
      AllDescribed (d :: ds) (e :: es)

/-- The element describes the device and all that is below it. -/
def Described (d : Device) (e : Element) : Prop := AllDescribed [d] [e]

/-- No text in the device, its services and all the devices below it has blanks around it. -/
inductive IsTrimmed : Device → Prop
  | intro {d : Device} (deviceType : trim d.deviceType = d.deviceType) (udn : trim d.udn = d.udn)
      (friendlyName : trim d.friendlyName = d.friendlyName) (services : ∀ s ∈ d.services, s.IsTrimmed)
      (devices : ∀ c ∈ d.devices, IsTrimmed c) : IsTrimmed d

/-! ## What is read -/

theorem ofNodes_eq (nodes : List Node) : ofNodes nodes = (nodes.filterMap Node.toElement?).filterMap ofElement? := by
  induction nodes with
  | nil => rfl
  | cons n nodes ih =>
    rw [ofNodes, ih]
    cases n with
    | element tag children =>
      rw [List.filterMap_cons_some (f := Node.toElement?) rfl, List.filterMap_cons,
        show ofElement? ⟨tag, children⟩ = ofNode? (.element tag children) from rfl]
      cases ofNode? (.element tag children) <;> rfl
    | text _ | cdata _ | comment _ | instruction _ _ => rfl

theorem listedAmong_eq (nodes : List Node) : listedAmong nodes =
    (Element.listed ((nodes.filterMap Node.toElement?).find? (Segment.any "deviceList".toList).covers)).filterMap
      ofElement? := by
  induction nodes with
  | nil => rfl
  | cons n nodes ih =>
    cases n with
    | element tag children =>
      rw [listedAmong, List.filterMap_cons_some (f := Node.toElement?) rfl, List.find?_cons]
      by_cases h : tag.name.base = "deviceList".toList
      · simp only [h, if_true, Segment.covers, Element.name, decide_true]
        exact ofNodes_eq children
      · simp only [h, if_false, Segment.covers, Element.name, decide_false]
        exact ih
    | text _ | cdata _ | comment _ | instruction _ _ => exact ih

theorem listedAmong_children (e : Element) :
    listedAmong e.children = (Element.listed (e.child? "*:deviceList".toList)).filterMap ofElement? := by
  rw [listedAmong_eq, Element.child?_eq (show segments "*:deviceList".toList = [.any "deviceList".toList] by decide),
    Element.matching, List.head?_filter]
  rfl

theorem ofElement?_eq (e : Element) :
    ofElement? e = (alone? e).map fun d => { d with devices := listedAmong e.children } := by
  rw [ofElement?, Element.toNode, ofNode?]

theorem ofElement?_of_alone? {d : Device} {e : Element} (h : alone? e = some { d with devices := [] })
    (hdevices : listedAmong e.children = d.devices) : ofElement? e = some d := by
  rw [ofElement?_eq, h, hdevices]
  cases d
  rfl

end Device

/-! ## What is described -/

theorem filterMap_of_forall₂ {α β : Type} {f : β → Option α} {as : List α} {bs : List β}
    (h : List.Forall₂ (fun a b => f b = some a) as bs) : bs.filterMap f = as := by
  induction h with
  | nil => rfl
  | cons h _ ih => rw [List.filterMap_cons_some h, ih]

namespace Device

variable {d : Device} {e : Element} {p : Parts}

theorem listedIn_of_described (hlaid : e.LaysOut fieldNames p.fields)
    (h : List.Forall₂ Service.Described d.services (Element.listed p.serviceList))
    (hd : ∀ s ∈ d.services, s.IsTrimmed) : Service.listedIn e = d.services := by
  have hchild : e.child? "*:serviceList".toList = p.serviceList :=
    hlaid.child? "serviceList".toList (by decide) (by decide) p.fieldsNamed_fields.2.2.2.1
  have hread : List.Forall₂ (fun s c => Service.ofElement? c = some s) d.services (Element.listed p.serviceList) :=
    ((List.forall₂_and_left _ _).2 ⟨hd, h⟩).imp fun _ _ hs => Service.ofElement?_of_described hs.2 hs.1
  rw [Service.listedIn_eq, hchild, filterMap_of_forall₂ hread]

theorem alone?_of_described (hlaid : e.LaysOut fieldNames p.fields) (htype : p.deviceType.Holds d.deviceType)
    (hname : p.friendlyName.Holds d.friendlyName) (hudn : p.udn.Holds d.udn)
    (hservices : Service.listedIn e = d.services) (hd : d.IsTrimmed) : alone? e = some { d with devices := [] } := by
  obtain ⟨hdeviceType, hd_udn, hfriendlyName, -, -⟩ := hd
  obtain ⟨h₁, h₂, h₃, -, -⟩ := p.fieldsNamed_fields
  have htype : e.textAt? "*:deviceType".toList = some d.deviceType :=
    hlaid.textAt? "deviceType".toList (by decide) (by decide) h₁ htype hdeviceType
  have hudn : e.textAt? "*:UDN".toList = some d.udn :=
    hlaid.textAt? "UDN".toList (by decide) (by decide) h₃ hudn hd_udn
  have hname : e.textAt? "*:friendlyName".toList = some d.friendlyName :=
    hlaid.textAt? "friendlyName".toList (by decide) (by decide) h₂ hname hfriendlyName
  simp only [alone?, htype, hudn, hname, hservices, Option.bind_eq_bind, Option.bind_some, Option.pure_def]

/-- One device for each element, whatever is below. -/
theorem forall₂_of_described {ds : List Device} {es : List Element} (h : AllDescribed ds es)
    (hds : ∀ d ∈ ds, d.IsTrimmed) : List.Forall₂ (fun d e => ofElement? e = some d) ds es := by
  -- over the layouts: one hypothesis is for the devices in the list of this one, the other for its siblings
  induction h with
  | nil => exact .nil
  | cons p hlaid htype hname hudn hservices _ _ ihdevices ihtail =>
    obtain ⟨hd, hds⟩ := List.forall_mem_cons.1 hds
    refine .cons ?_ (ihtail hds)
    cases id hd with
    | intro _ _ _ hservicesTrimmed hdevicesTrimmed =>
    have halone := alone?_of_described hlaid htype hname hudn
      (listedIn_of_described hlaid hservices hservicesTrimmed) hd
    refine ofElement?_of_alone? halone ?_
    rw [listedAmong_children, hlaid.child? "deviceList".toList (by decide) (by decide)
      p.fieldsNamed_fields.2.2.2.2]
    exact filterMap_of_forall₂ (ihdevices hdevicesTrimmed)

end Device

/-! ## Describing -/

namespace Xml.Element

/-- An element that has only a name and children. -/
def record (name : Text) (children : List Element) : Element := ⟨⟨⟨none, name⟩, none, {}⟩, children.map toNode⟩

/-- An element that has only a name and a text. -/
def leaf (name s : Text) : Element := ⟨⟨⟨none, name⟩, none, {}⟩, [.text s]⟩

theorem elements_record (name : Text) (children : List Element) : (record name children).elements = children := by
  rw [elements, record, List.filterMap_map]
  exact List.filterMap_some

theorem holds_leaf (name s : Text) : (leaf name s).Holds s :=
  ⟨[], [], nofun, nofun, by simp [leaf, text?, Node.toText?]⟩

theorem laysOut_record (name : Text) {names : List Text} {fields : List (Text × Element)}
    (hfields : fields.map (·.1) = names) (hnames : fields.map (·.2.name) = names) :
    (record name (fields.map (·.2))).LaysOut names fields := by
  have hnamed : ∀ f ∈ fields, f.2.name = f.1 := List.map_inj_left.1 (hnames.trans hfields.symm)
  refine ⟨hnamed, ?_⟩
  rw [elements_record, List.filter_eq_self.2]
  refine List.forall_mem_map.2 fun f hf => ?_
  rw [hnamed f hf, ← hfields]
  exact List.contains_iff_mem.2 (List.mem_map_of_mem hf)

end Xml.Element

theorem Service.exists_described (s : Service) : ∃ e, s.Described e :=
  ⟨_, .leaf "serviceId".toList s.id, .leaf "serviceType".toList s.serviceType,
    .leaf "controlURL".toList s.controlUrl.buffer, Element.laysOut_record "service".toList rfl rfl,
    Element.holds_leaf _ _, Element.holds_leaf _ _, Element.holds_leaf _ _⟩

namespace Device

theorem exists_allServicesDescribed (services : List Service) : ∃ es, List.Forall₂ Service.Described services es := by
  induction services with
  | nil => exact ⟨[], .nil⟩
  | cons s services ih =>
    obtain ⟨es, hes⟩ := ih
    obtain ⟨e, he⟩ := s.exists_described
    exact ⟨e :: es, .cons he hes⟩

theorem exists_allDescribed : (ds : List Device) → ∃ es, AllDescribed ds es
  | [] => ⟨[], .nil⟩
  | ⟨deviceType, udn, friendlyName, devices, services⟩ :: ds => by
    obtain ⟨es, htail⟩ := exists_allDescribed ds
    obtain ⟨below, hbelow⟩ := exists_allDescribed devices
    obtain ⟨listed, hlisted⟩ := exists_allServicesDescribed services
    let p : Parts :=
      { deviceType := .leaf "deviceType".toList deviceType
        friendlyName := .leaf "friendlyName".toList friendlyName
        udn := .leaf "UDN".toList udn
        serviceList := some (.record "serviceList".toList listed)
        deviceList := some (.record "deviceList".toList below) }
    refine ⟨.record "device".toList (p.fields.map (·.2)) :: es, .cons p (Element.laysOut_record _ rfl rfl)
      (Element.holds_leaf _ _) (Element.holds_leaf _ _) (Element.holds_leaf _ _) ?_ ?_ htail⟩
    · rwa [Element.listed, Element.elements_record]
    · rwa [Element.listed, Element.elements_record]

/-- Every tree of devices can be described, and however that is done, reading gives back the same tree. -/
theorem read_described (d : Device) (hd : d.IsTrimmed) :
    (∃ e, d.Described e) ∧ ∀ e, d.Described e → ofElement? e = some d := by
  refine ⟨?_, fun e he => ?_⟩
  · obtain ⟨es, hes⟩ := exists_allDescribed [d]
    cases id hes with
    | cons _ _ _ _ _ _ _ htail =>
    cases htail
    exact ⟨_, hes⟩
  · cases forall₂_of_described he (List.forall_mem_singleton.2 hd) with
    | cons h _ => exact h

/-- An element under a qualifier. -/
def qualified (name : String) (children : List Node) : Element := ⟨⟨⟨some ['d'], name.toList⟩, none, {}⟩, children⟩

/-- The service that controls the connection of a gateway. -/
def connection : Service where
  id := "urn:upnp-org:serviceId:WANIPConn1".toList
  serviceType := "urn:schemas-upnp-org:service:WANIPConnection:1".toList
  controlUrl := Url.parse "/ctl/IPConn".toList

/-- Its type, between blanks. -/
def connectionType : Element := qualified "serviceType" [.text (['\n'] ++ connection.serviceType ++ [' '])]

/-- Its control URL, the end of it in a CDATA section. -/
def connectionUrl : Element := qualified "controlURL" [.text "/ctl".toList, .cdata "/IPConn".toList]

/-- A service of which the type comes first, between blanks. -/
def connectionElement : Element := qualified "service" [connectionType.toNode, .comment "control".toList,
  (Element.leaf "SCPDURL".toList "/scpd.xml".toList).toNode, (Element.leaf "serviceId".toList connection.id).toNode,
  connectionUrl.toNode]

/-- A WAN device with that service. -/
def wan : Device where
  deviceType := "urn:schemas-upnp-org:device:WANDevice:1".toList
  udn := "uuid:2".toList
  friendlyName := []
  devices := []
  services := [connection]

/-- Its fields, of which the list of services begins with a comment. -/
def wanParts : Parts where
  deviceType := .leaf "deviceType".toList wan.deviceType
  friendlyName := .leaf "friendlyName".toList wan.friendlyName
  udn := qualified "UDN" [.text wan.udn]
  serviceList := some (qualified "serviceList" [.comment "one".toList, connectionElement.toNode])
  deviceList := none

/-- A device that ends with its UDN. -/
def wanElement : Element := qualified "device" (.text "a device".toList ::
  ([wanParts.deviceType, wanParts.friendlyName] ++ wanParts.serviceList.toList ++ [wanParts.udn]).map Element.toNode)

theorem isTrimmed_wan : wan.IsTrimmed := by
  have hconnection : connection.IsTrimmed :=
    ⟨by decide, by decide, "/ctl/IPConn".toList, by decide, by decide, rfl⟩
  exact .intro (by decide) (by decide) (by decide) (List.forall_mem_singleton.2 hconnection) nofun

theorem connection_described : connection.Described connectionElement := by
  refine ⟨.leaf "serviceId".toList connection.id, connectionType, connectionUrl, ⟨List.map_inj_left.1 rfl, ?_⟩,
    Element.holds_leaf _ _, ⟨['\n'], [' '], List.all_eq_true.1 (by decide), List.all_eq_true.1 (by decide), rfl⟩,
    [], [], nofun, nofun, rfl⟩
  exact List.Perm.swap (Element.leaf "serviceId".toList connection.id) connectionType [connectionUrl]

theorem wan_described : wan.Described wanElement := by
  refine .cons wanParts ⟨List.map_inj_left.1 rfl, ?_⟩ (Element.holds_leaf _ _) (Element.holds_leaf _ _)
    ⟨[], [], nofun, nofun, rfl⟩ (.cons connection_described .nil) .nil .nil
  exact .cons _ (.cons _ (.swap wanParts.udn _ []))

/-- A gateway with that WAN device. -/
def gateway : Device where
  deviceType := "urn:schemas-upnp-org:device:InternetGatewayDevice:1".toList
  udn := "uuid:1".toList
  friendlyName := "Box".toList
  devices := [wan]
  services := []

/-- Its fields, of which the list of devices begins with some text. -/
def gatewayParts : Parts where
  deviceType := .leaf "deviceType".toList gateway.deviceType
  friendlyName := qualified "friendlyName" [.text " Box ".toList]
  udn := .leaf "UDN".toList gateway.udn
  serviceList := none
  deviceList := some (qualified "deviceList" [.text "devices".toList, wanElement.toNode])

/-- A device that begins with its list of devices and a field of another name. -/
def gatewayElement : Element := qualified "device" ((gatewayParts.deviceList.toList ++
  [.leaf "modelName".toList "Box 2".toList, gatewayParts.udn, gatewayParts.friendlyName,
    gatewayParts.deviceType]).map Element.toNode)

theorem gateway_described : gateway.Described gatewayElement := by
  refine .cons gatewayParts ⟨List.map_inj_left.1 rfl, ?_⟩ (Element.holds_leaf _ _)
    ⟨[' '], [' '], List.all_eq_true.1 (by decide), List.all_eq_true.1 (by decide), rfl⟩ (Element.holds_leaf _ _) .nil
    wan_described .nil
  exact List.reverse_perm [gatewayParts.deviceType, gatewayParts.friendlyName, gatewayParts.udn,
    qualified "deviceList" [.text "devices".toList, wanElement.toNode]]

theorem isTrimmed_gateway : gateway.IsTrimmed :=
  .intro (by decide) (by decide) (by decide) nofun (List.forall_mem_singleton.2 isTrimmed_wan)

theorem read_described_gateway : gateway.IsTrimmed ∧ gateway.Described gatewayElement ∧
    ofElement? gatewayElement = some gateway :=
  ⟨isTrimmed_gateway, gateway_described,
    (read_described gateway isTrimmed_gateway).2 gatewayElement gateway_described⟩

end Device

end Gateway
