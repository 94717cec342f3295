import Mathlib.Logic.Relation
import Gateway.Proofs.Description
/-!
# Malformed entries

Lists of services and of devices may hold nodes that are neither. `Adds` adds such a node to a list
anywhere in an element, and elements that differ in nothing but nodes of that kind are read as the
same device (`Device.malformed_left_out`). All other entries of a list are read, in their order.
Whether an element is a device at all depends on its own fields, and not on what is below them.
-/
namespace Gateway

open Xml (Element Node Segment Tag segments)

/-! ## Additions to lists -/

/-- Where a node stands. -/
inductive Place where
  | fields
  | services
  | devices
  deriving DecidableEq

namespace Place

/-- The place below a field. -/
def ofName (name : Text) : Place :=
  if name = "serviceList".toList then .services else if name = "deviceList".toList then .devices else .fields

/-- The place below an element. What stands in a list is a service or a device whatever its name is, and no
list itself. -/
def below (p : Place) (tag : Tag) : Place :=
  match p with
  | .fields => ofName tag.name.base
  | .services | .devices => .fields

/-- A list leaves out what is no element, and the elements that by themselves are not what it is a list of. -/
def LeavesOut (p : Place) (n : Node) : Prop :=
  match p with
  | .fields => False
  | .services => n.toElement?.bind Service.ofElement? = none
  | .devices => n.toElement?.bind Device.ofElement? = none

/-- One node is added that is left out, here or in a list that is anywhere below. -/
inductive Adds : Place → List Node → List Node → Prop
  | here {p : Place} {n : Node} (before after : List Node) (h : p.LeavesOut n) :
      Adds p (before ++ after) (before ++ n :: after)
  | inside {p : Place} {tag : Tag} {nodes nodes' : List Node} (before after : List Node)
      (h : Adds (p.below tag) nodes nodes') :
      Adds p (before ++ .element tag nodes :: after) (before ++ .element tag nodes' :: after)

end Place

namespace Xml.Element

/-- The second element is the first with one node more, in a list that leaves it out. -/
def Grows (e e' : Element) : Prop := e'.tag = e.tag ∧ Place.fields.Adds e.children e'.children

/-- One element becomes the other by any number of nodes that lists leave out, added or taken away. -/
def SameButMalformed : Element → Element → Prop := Relation.EqvGen Grows

end Xml.Element

/-! ## What an addition leaves alone -/

namespace Place

/-- The nodes of a place are read as the same. -/
def Agree (p : Place) (nodes nodes' : List Node) : Prop :=
  match p with
  | .fields => ∀ tag, (Element.mk tag nodes).text? = (Element.mk tag nodes').text? ∧
      Service.ofElement? ⟨tag, nodes⟩ = Service.ofElement? ⟨tag, nodes'⟩ ∧
      Device.ofElement? ⟨tag, nodes⟩ = Device.ofElement? ⟨tag, nodes'⟩
  | .services => (nodes.filterMap Node.toElement?).filterMap Service.ofElement? =
      (nodes'.filterMap Node.toElement?).filterMap Service.ofElement?
  | .devices => (nodes.filterMap Node.toElement?).filterMap Device.ofElement? =
      (nodes'.filterMap Node.toElement?).filterMap Device.ofElement?

variable {α : Type} {p : Place} {n : Node} {tag tag' : Tag} {nodes nodes' before after : List Node} {path name : Text}

theorem filterMap_add {f : Element → Option α} (h : n.toElement?.bind f = none) (before after : List Node) :
    ((before ++ after).filterMap Node.toElement?).filterMap f =
      ((before ++ n :: after).filterMap Node.toElement?).filterMap f := by
  simp only [List.filterMap_filterMap, List.filterMap_append]
  rw [List.filterMap_cons_none (f := fun n : Node => n.toElement?.bind f) h]

theorem filterMap_replace {f : Element → Option α} (h : f ⟨tag, nodes⟩ = f ⟨tag, nodes'⟩) (before after : List Node) :
    ((before ++ .element tag nodes :: after).filterMap Node.toElement?).filterMap f =
      ((before ++ .element tag nodes' :: after).filterMap Node.toElement?).filterMap f := by
  simp only [List.filterMap_append, List.filterMap_cons, Node.toElement?, h]

/-- A child that means the same wherever it may be found leaves alone what is found by a path of one name. -/
theorem map_child?_replace (name : Text) (hpath : segments path = [.any name]) {f : Element → α}
    (h : tag.name.base = name → f ⟨tag, nodes⟩ = f ⟨tag, nodes'⟩) :
    ((Element.mk tag' (before ++ .element tag nodes :: after)).child? path).map f =
      ((Element.mk tag' (before ++ .element tag nodes' :: after)).child? path).map f := by
  simp only [Element.child?_eq hpath, Element.matching, Element.elements, List.head?_filter, List.filterMap_append,
    List.filterMap_cons, Node.toElement?, List.find?_append, List.find?_cons]
  by_cases hname : tag.name.base = name
  -- an earlier child of that name hides this one
  · cases (before.filterMap Node.toElement?).find? (Segment.any name).covers
    · simp [Segment.covers, Element.name, hname, h hname]
    · rfl
  · simp [Segment.covers, Element.name, hname]

theorem textAt?_replace (hpath : segments path = [.any name]) (hname : ofName name = .fields)
    (h : (ofName tag.name.base).Agree nodes nodes') :
    (Element.mk tag' (before ++ .element tag nodes :: after)).textAt? path =
      (Element.mk tag' (before ++ .element tag nodes' :: after)).textAt? path := by
  refine map_child?_replace name hpath fun hbase => ?_
  rw [hbase, hname] at h
  rw [(h tag).1]

theorem filterMap_listed_replace (name : Text) (hpath : segments path = [.any name]) {f : Element → Option α}
    (h : tag.name.base = name →
      (nodes.filterMap Node.toElement?).filterMap f = (nodes'.filterMap Node.toElement?).filterMap f) :
    (Element.listed ((Element.mk tag' (before ++ .element tag nodes :: after)).child? path)).filterMap f =
      (Element.listed ((Element.mk tag' (before ++ .element tag nodes' :: after)).child? path)).filterMap f := by
  have hlisted (e : Element) : (Element.listed (e.child? path)).filterMap f =
      ((e.child? path).map fun list => list.elements.filterMap f).getD [] := by
    cases e.child? path <;> rfl
  rw [hlisted, hlisted, map_child?_replace name hpath h]

theorem listedIn_replace (h : (ofName tag.name.base).Agree nodes nodes') :
    Service.listedIn ⟨tag', before ++ .element tag nodes :: after⟩ =
      Service.listedIn ⟨tag', before ++ .element tag nodes' :: after⟩ := by
  rw [Service.listedIn_eq, Service.listedIn_eq]
  refine filterMap_listed_replace "serviceList".toList (by decide) fun hbase => ?_
  rw [hbase] at h
  exact h

theorem listedAmong_replace (h : (ofName tag.name.base).Agree nodes nodes') :
    Device.listedAmong (before ++ .element tag nodes :: after) =
      Device.listedAmong (before ++ .element tag nodes' :: after) := by
  rw [Device.listedAmong_children ⟨tag, before ++ .element tag nodes :: after⟩,
    Device.listedAmong_children ⟨tag, before ++ .element tag nodes' :: after⟩]
  refine filterMap_listed_replace "deviceList".toList (by decide) fun hbase => ?_
  rw [hbase] at h
  exact h

theorem agree_fields_replace (h : (ofName tag.name.base).Agree nodes nodes') :
    Place.fields.Agree (before ++ .element tag nodes :: after) (before ++ .element tag nodes' :: after) := by
  intro tag'
  have htext (path name : Text) (hpath : segments path = [.any name]) (hname : ofName name = .fields) :
      (Element.mk tag' (before ++ .element tag nodes :: after)).textAt? path =
        (Element.mk tag' (before ++ .element tag nodes' :: after)).textAt? path := textAt?_replace hpath hname h
  refine ⟨?_, ?_, ?_⟩
  · simp only [Element.text?, List.filterMap_append, List.filterMap_cons, Node.toText?]
  · rw [Service.ofElement?, Service.ofElement?, htext _ "controlURL".toList (by decide) (by decide),
      htext _ "serviceId".toList (by decide) (by decide), htext _ "serviceType".toList (by decide) (by decide)]
  · rw [Device.ofElement?_eq, Device.ofElement?_eq, listedAmong_replace h, Device.alone?, Device.alone?,
      listedIn_replace h, htext _ "deviceType".toList (by decide) (by decide),
      htext _ "UDN".toList (by decide) (by decide), htext _ "friendlyName".toList (by decide) (by decide)]

theorem Adds.agree (h : p.Adds nodes nodes') : p.Agree nodes nodes' := by
  -- from the list outwards: an entry whose fields agree is the same entry, and a list of the same entries the same field
  induction h with
  | @here p n before after h =>
    cases p with
    | fields => exact h.elim
    | services => exact filterMap_add h before after
    | devices => exact filterMap_add h before after
  | @inside p tag nodes nodes' before after _ ih =>
    cases p with
    | fields => exact agree_fields_replace ih
    | services => exact filterMap_replace (ih tag).2.1 before after
    | devices => exact filterMap_replace (ih tag).2.2 before after

end Place

/-! ## Devices -/

namespace Device

theorem isSome_textAt?_iff {path : Text} (name : Text) (hpath : segments path = [.any name]) (e : Element) :
    (e.textAt? path).isSome ↔ ∃ c ∈ e.elements, c.name = name := by
  rw [Element.textAt?, Element.child?_eq hpath, Option.isSome_map, Element.matching, List.head?_filter,
    List.find?_isSome]
  simp [Segment.covers]

theorem isSome_alone?_iff (e : Element) : (alone? e).isSome ↔
    (e.textAt? "*:deviceType".toList).isSome ∧ (e.textAt? "*:UDN".toList).isSome ∧
      (e.textAt? "*:friendlyName".toList).isSome := by
  rw [alone?]
  cases e.textAt? "*:deviceType".toList <;> cases e.textAt? "*:UDN".toList <;>
    cases e.textAt? "*:friendlyName".toList <;> simp

theorem services_of_alone? {d : Device} {e : Element} (h : alone? e = some d) : d.services = Service.listedIn e := by
  simp only [alone?, Option.bind_eq_bind, Option.bind_eq_some_iff, Option.pure_def, Option.some.injEq] at h
  obtain ⟨deviceType, -, udn, -, friendlyName, -, rfl⟩ := h
  rfl

/-- Whatever else its lists hold, a device has the services and the devices in them, in their order. -/
theorem entries_of_ofElement? {d : Device} {e : Element} (h : ofElement? e = some d) :
    d.services = (Element.listed (e.child? "*:serviceList".toList)).filterMap Service.ofElement? ∧
      d.devices = (Element.listed (e.child? "*:deviceList".toList)).filterMap ofElement? := by
  rw [ofElement?_eq, Option.map_eq_some_iff] at h
  obtain ⟨own, hown, rfl⟩ := h
  have hservices : own.services = Service.listedIn e := services_of_alone? hown
  rw [← Service.listedIn_eq, ← listedAmong_children]
  exact ⟨hservices, rfl⟩

/-- An element is a device if and only if it has the three fields of its own that a device must have. The entries of
its lists that are services or devices by themselves are those of the device, all of them and in their order. Nodes
that lists leave out change nothing, in any list of services or of devices, at whatever depth, and however many they
are. -/
theorem malformed_left_out (e : Element) :
    ((ofElement? e).isSome ↔ ∀ name ∈ ["deviceType".toList, "UDN".toList, "friendlyName".toList],
      ∃ c ∈ e.elements, c.name = name) ∧
    (∀ d, ofElement? e = some d →
      d.services = (Element.listed (e.child? "*:serviceList".toList)).filterMap Service.ofElement? ∧
        d.devices = (Element.listed (e.child? "*:deviceList".toList)).filterMap ofElement?) ∧
    ∀ e', e.SameButMalformed e' → ofElement? e' = ofElement? e := by
  refine ⟨?_, fun d h => entries_of_ofElement? h, ?_⟩
  · rw [ofElement?_eq, Option.isSome_map, isSome_alone?_iff,
      isSome_textAt?_iff "deviceType".toList (by decide),
      isSome_textAt?_iff "UDN".toList (by decide),
      isSome_textAt?_iff "friendlyName".toList (by decide)]
    simp only [List.forall_mem_cons, List.not_mem_nil, false_imp_iff, implies_true, and_true]
  · intro e' h
    induction h with
    | rel e e' h =>
      obtain ⟨tag, nodes⟩ := e
      obtain ⟨tag', nodes'⟩ := e'
      obtain ⟨rfl, hadds⟩ := h
      exact (hadds.agree _).2.2.symm
    | refl e => rfl
    | symm e e' _ ih => exact ih.symm
    | trans e e' e'' _ _ ih ih' => exact ih'.trans ih

/-- A gateway with these nodes before the one device that it has, and these before the one service of that. -/
def crowded (devices services : List Node) : Element := .record "device".toList [
  .leaf "deviceType".toList gateway.deviceType, .leaf "UDN".toList gateway.udn,
  .leaf "friendlyName".toList gateway.friendlyName, qualified "deviceList" (devices ++ [(Element.record "device".toList [
    .leaf "deviceType".toList wan.deviceType, .leaf "UDN".toList wan.udn,
    .leaf "friendlyName".toList wan.friendlyName,
    qualified "serviceList" (services ++ [connectionElement.toNode])]).toNode])]

/-- What is no device, as it has no friendly name, and no service either. -/
def nameless : Element := .record "device".toList [.leaf "deviceType".toList wan.deviceType, .leaf "UDN".toList wan.udn]

/-- The gateway is read with its one device and the one service of that, whichever of its lists is crowded. -/
theorem malformed_left_out_crowded :
    (crowded [.text "devices".toList, nameless.toNode] []).SameButMalformed (crowded [] [nameless.toNode]) ∧
      (ofElement? (crowded [.text "devices".toList, nameless.toNode] [])).isSome ∧
      ofElement? (crowded [.text "devices".toList, nameless.toNode] []) = some gateway ∧
      [wan] = (Element.listed ((crowded [.text "devices".toList, nameless.toNode] []).child?
        "*:deviceList".toList)).filterMap ofElement? ∧
      wan.services = [connection] ∧
      ofElement? (crowded [] [nameless.toNode]) =
        ofElement? (crowded [.text "devices".toList, nameless.toNode] []) := by
  have hnameless : (crowded [] []).Grows (crowded [nameless.toNode] []) :=
    ⟨rfl, .inside [_, _, _] [] (.here [] _ rfl)⟩
  have htext : (crowded [nameless.toNode] []).Grows (crowded [.text "devices".toList, nameless.toNode] []) :=
    ⟨rfl, .inside [_, _, _] [] (.here [] _ rfl)⟩
  have hservice : (crowded [] []).Grows (crowded [] [nameless.toNode]) :=
    ⟨rfl, .inside [_, _, _] [] (.inside [] [] (.inside [_, _, _] [] (.here [] _ rfl)))⟩
  have hsame : (crowded [.text "devices".toList, nameless.toNode] []).SameButMalformed
      (crowded [] [nameless.toNode]) :=
    (((Relation.EqvGen.rel _ _ hnameless).trans _ _ _ (.rel _ _ htext)).symm _ _).trans _ _ _ (.rel _ _ hservice)
  have hgateway : ofElement? (crowded [.text "devices".toList, nameless.toNode] []) = some gateway := by rfl
  exact ⟨hsame, (malformed_left_out _).1.2 (by decide), hgateway, ((malformed_left_out _).2.1 gateway hgateway).2, rfl,
    (malformed_left_out _).2.2 _ hsame⟩

end Device

end Gateway
