import Gateway.Proofs.Control
import Gateway.Proofs.Description
import Gateway.Proofs.Url.Reference
/-!
# What calls to a gateway name

A service says by a relative reference where it is controlled. The control URL of its connection is
the URL of the description with another path, so calls keep the query of that URL and lose that of
the reference, and a reference that does not begin with a slash loses what stands before its first
(`control_names`).
-/
namespace Gateway

open Xml (Element)
open Url (IsRelative namedTarget namedQuery rooted readPath)

/-! ## Services and their connections -/

variable {e : Element} {s : Service} {c : Text} {root : Device} {answer : Announcement} {seen : List Text}
  {w : WanConnection}

theorem Service.controlUrl_of_ofElement? (h : ofElement? e = some s)
    (hc : e.textAt? "*:controlURL".toList = some c) : c ≠ [] ∧ s.controlUrl = Url.parse c := by
  simp only [ofElement?, hc, Option.bind_eq_bind, Option.bind_some] at h
  by_cases hne : c = []
  · rw [if_pos hne] at h
    cases h
  · rw [if_neg hne] at h
    obtain ⟨id, -, h⟩ := Option.bind_eq_some_iff.1 h
    obtain ⟨serviceType, -, h⟩ := Option.bind_eq_some_iff.1 h
    cases h
    exact ⟨hne, rfl⟩

/-- Every connection that is selected is made for a service that controls one. -/
theorem exists_controls_of_mem_select (h : w ∈ (select root answer seen).1) :
    ∃ v i d j n s, IsWanDevice root v i d ∧ Controls v d j n s ∧ w = .ofService answer root d s := by
  unfold select at h
  split at h
  · cases h
  · next v hv =>
    obtain ⟨d, hd, h⟩ := List.mem_flatMap.1 h
    obtain ⟨s, hs, rfl⟩ := List.mem_map.1 h
    obtain ⟨i, hi, htype, -⟩ := (newWanDevices_enumerates v root.devices seen).mem_iff.1 hd
    obtain ⟨place, hcontrols⟩ := (connectionServices_enumerates v d).mem_iff.1 hs
    exact ⟨v, i, d, place.1, place.2, s, ⟨ofGatewayType_eq_some.1 hv, hi, htype⟩, hcontrols, rfl⟩

theorem Url.IsRead.exists_parts {u : Url} (h : u.IsRead) : ∃ p, u = ofParts p := by
  obtain ⟨s, paths, rfl⟩ := h
  exact ⟨_, by rw [parse_eq, replacePaths_ofParts]⟩

/-! ## Calls -/

/-- Calls to a connection name the path that is read from the relative reference in its service, with the query of the
description. That is what the reference names if it begins with a slash and has that query itself; and of the plain
paths no other than those that begin with a slash are what is named. -/
theorem control_names (root : Device) (answer : Announcement) (seen : List Text) (hread : answer.location.IsRead) :
    ∀ w ∈ (select root answer seen).1, ∃ v i d j n s, IsWanDevice root v i d ∧ Controls v d j n s ∧
      w = .ofService answer root d s ∧ ∀ (e : Element) (c : Text), Service.ofElement? e = some s →
        e.textAt? "*:controlURL".toList = some c → IsRelative c →
        w.controlUrl.requestTarget = rooted (readPath c) ++ answer.location.markedQuery ∧
        (c.head? = some '/' →
          (w.controlUrl.requestTarget = namedTarget c ↔ answer.location.markedQuery = namedQuery c)) ∧
        ('?' ∉ c → '#' ∉ c → (w.controlUrl.requestTarget = namedTarget c ↔
          c.head? = some '/' ∧ answer.location.markedQuery = [])) := by
  intro w hw
  obtain ⟨v, i, d, j, n, s, hwan, hcontrols, rfl⟩ := exists_controls_of_mem_select hw
  refine ⟨v, i, d, j, n, s, hwan, hcontrols, rfl, fun e c hs hc hrelative => ?_⟩
  obtain ⟨hne, hurl⟩ := Service.controlUrl_of_ofElement? hs hc
  obtain ⟨p, hp⟩ := hread.exists_parts
  have hcontrol : (WanConnection.ofService answer root d s).controlUrl =
      (Url.ofParts p).replacePath (Url.parse c).pathText := by
    rw [WanConnection.ofService, hp, hurl]
  rw [hcontrol, hp]
  refine ⟨Url.requestTarget_reference p hrelative, fun hslash => ?_, fun hquery hfragment => ?_⟩
  · rw [Url.requestTarget_eq_named_iff p hrelative, Url.rooted_readPath_of_slash hslash]
    exact and_iff_right rfl
  · rw [Url.requestTarget_eq_named_iff p hrelative, Url.rooted_readPath_eq_iff hne ⟨hquery, hfragment⟩,
      Url.namedQuery_of_plain hquery]

/-! ## One service -/

/-- The element of a service that is controlled at `c`. -/
def serviceElement (c : Text) : Element := .record "service".toList
  [.leaf "serviceId".toList [], .leaf "serviceType".toList (ipServiceType .one), .leaf "controlURL".toList c]

/-- What that element is read as. -/
def serviceAt (c : Text) : Service := ⟨[], ipServiceType .one, Url.parse c⟩

/-- A WAN device with that service below it. -/
def wanAt (c : Text) : Device :=
  let connection : Device := ⟨connectionDeviceType .one, "uuid:connection".toList, [], [], [serviceAt c]⟩
  ⟨wanDeviceType .one, "uuid:wan".toList, [], [connection], []⟩

/-- A gateway with that service and no other. -/
def gatewayAt (c : Text) : Device := ⟨gatewayType .one, "uuid:root".toList, "Router".toList, [wanAt c], []⟩

/-- The answer of a gateway that is described at `location`. -/
def describedAt (location : Text) : Announcement := ⟨[], "gw".toList, Url.parse location, []⟩

theorem select_gatewayAt (c : Text) (answer : Announcement) :
    (select (gatewayAt c) answer []).1 = [.ofService answer (gatewayAt c) (wanAt c) (serviceAt c)] := rfl

theorem eq_serviceAt {v : Version} {i j n : Nat} {d : Device} (hwan : IsWanDevice (gatewayAt c) v i d)
    (hcontrols : Controls v d j n s) : s = serviceAt c := by
  obtain ⟨connection, hconnection, -, hs, -⟩ := hcontrols
  obtain rfl := List.mem_singleton.1 (List.mem_of_getElem? hwan.2.1)
  obtain rfl := List.mem_singleton.1 (List.mem_of_getElem? hconnection)
  exact List.mem_singleton.1 (List.mem_of_getElem? hs)

-- the description has the query of the reference by chance
theorem control_names_rooted :
    (Url.parse "http://10.0.0.1:5000/d.xml?v=1".toList).IsRead ∧
    Service.ofElement? (serviceElement "/ctl?v=1#top".toList) = some (serviceAt "/ctl?v=1#top".toList) ∧
    IsRelative "/ctl?v=1#top".toList ∧
    ∃ w, (select (gatewayAt "/ctl?v=1#top".toList) (describedAt "http://10.0.0.1:5000/d.xml?v=1".toList) []).1 = [w] ∧
      w.controlUrl.requestTarget = "/ctl?v=1".toList ∧
      w.controlUrl.requestTarget = namedTarget "/ctl?v=1#top".toList := by
  have hread := Url.isRead_parse "http://10.0.0.1:5000/d.xml?v=1".toList
  have hservice : Service.ofElement? (serviceElement "/ctl?v=1#top".toList) = some (serviceAt "/ctl?v=1#top".toList) := by
    decide
  have hrelative : IsRelative "/ctl?v=1#top".toList := Text.cutAt?_eq_none_iff.1 (by decide)
  have hselect := select_gatewayAt "/ctl?v=1#top".toList (describedAt "http://10.0.0.1:5000/d.xml?v=1".toList)
  refine ⟨hread, hservice, hrelative, _, hselect, ?_⟩
  obtain ⟨v, i, d, j, n, s, hwan, hcontrols, -, hnames⟩ := control_names (gatewayAt "/ctl?v=1#top".toList)
    (describedAt "http://10.0.0.1:5000/d.xml?v=1".toList) [] hread _ (hselect ▸ List.mem_cons_self)
  obtain rfl := eq_serviceAt hwan hcontrols
  obtain ⟨htarget, hrooted, -⟩ := hnames _ _ hservice (by decide) hrelative
  exact ⟨htarget.trans (by decide), (hrooted rfl).2 (by decide)⟩

/-- It is not so that calls name what the control URL of their service names: of `ctl/IPConn` no more than `/IPConn` is
left. -/
theorem not_named : ¬ ∀ (root : Device) (answer : Announcement) (seen : List Text), answer.location.IsRead →
    ∀ w ∈ (select root answer seen).1, ∃ v i d j n s, IsWanDevice root v i d ∧ Controls v d j n s ∧
      w = .ofService answer root d s ∧ ∀ (e : Element) (c : Text), Service.ofElement? e = some s →
        e.textAt? "*:controlURL".toList = some c → IsRelative c → w.controlUrl.requestTarget = namedTarget c := by
  intro h
  have hread := Url.isRead_parse "http://10.0.0.1:5000/d.xml".toList
  have hselect := select_gatewayAt "ctl/IPConn".toList (describedAt "http://10.0.0.1:5000/d.xml".toList)
  obtain ⟨v, i, d, j, n, s, hwan, hcontrols, -, hnames⟩ := h (gatewayAt "ctl/IPConn".toList)
    (describedAt "http://10.0.0.1:5000/d.xml".toList) [] hread _ (hselect ▸ List.mem_cons_self)
  obtain rfl := eq_serviceAt hwan hcontrols
  have hnamed := hnames (serviceElement "ctl/IPConn".toList) "ctl/IPConn".toList (by decide) (by decide)
    (Text.cutAt?_eq_none_iff.1 (by decide))
  exact absurd hnamed (by decide)

end Gateway
