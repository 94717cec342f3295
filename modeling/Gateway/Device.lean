import Gateway.Url
import Gateway.Xml.Document
import Gateway.Xml.Path
/-!
# Device descriptions

A device describes itself by an XML document: its type, its name, and lists of services
and of further devices. What is malformed in a list is left out of it, and only the
device itself must have all of its own fields.
-/
namespace Gateway

open Xml (Element Node)

/-- A service, as far as the description of its device tells. -/
structure Service where
  id : Text
  serviceType : Text
  /-- Usually no more than a path. -/
  controlUrl : Url
  deriving DecidableEq, Repr

/-- A device, as its description tells. -/
structure Device where
  deviceType : Text
  udn : Text
  friendlyName : Text
  devices : List Device
  services : List Service

/-- A service must have a control URL that is not empty. -/
def Service.ofElement? (e : Element) : Option Service := do
  let control ← e.textAt? "*:controlURL".toList
  if control = [] then none
  let id ← e.textAt? "*:serviceId".toList
  let serviceType ← e.textAt? "*:serviceType".toList
  return ⟨id, serviceType, Url.parse control⟩

/-- The services in the first service list of an element. -/
def Service.listedIn (e : Element) : List Service :=
  match e.child? "*:serviceList".toList with
  | some list => list.elements.filterMap Service.ofElement?
  | none => []

namespace Device

/-- A device without the devices listed in it. -/
def alone? (e : Element) : Option Device := do
  let deviceType ← e.textAt? "*:deviceType".toList
  let udn ← e.textAt? "*:UDN".toList
  let friendlyName ← e.textAt? "*:friendlyName".toList
  return ⟨deviceType, udn, friendlyName, [], Service.listedIn e⟩

mutual

/-- The device that a node describes, with all devices below it. -/
def ofNode? : Node → Option Device
  | .element tag children =>
    (alone? ⟨tag, children⟩).map fun d => { d with devices := listedAmong children }
  | .text _ | .cdata _ | .comment _ | .instruction _ _ => none

/-- The devices in the first device list among some nodes. -/
def listedAmong : List Node → List Device
  | [] => []
  | .element tag children :: nodes =>
    if tag.name.base = "deviceList".toList then ofNodes children else listedAmong nodes
  | .text _ :: nodes | .cdata _ :: nodes | .comment _ :: nodes | .instruction _ _ :: nodes =>
    listedAmong nodes

/-- The nodes that are devices. -/
def ofNodes : List Node → List Device
  | [] => []
  | n :: nodes =>
    match ofNode? n with
    | some d => d :: ofNodes nodes
    | none => ofNodes nodes

end

/-- A device must have a type, a UDN and a friendly name. -/
def ofElement? (e : Element) : Option Device := ofNode? e.toNode

/-- The root device of a description. -/
def ofDescription? (s : Text) : Option Device := do
  let root ← Xml.parse s
  let e ← root.find? "*:root.*:device".toList
  ofElement? e

end Device

end Gateway
