import Gateway.Selection
import Gateway.Proofs.Enumeration
/-!
# What a search finds

A search selects connections in one description after another, and what it has met of
WAN devices goes from each description to the next. We describe what each call finds
without any such memory: by places in the tree, and by which WAN devices come earlier
in the run. `call_finds` says that the two agree.
-/
namespace Gateway

/-! ## Runs -/

/-- Selects in several descriptions, each with the announcement that led to it. Gives
what each call finds, and the WAN devices met after the last. -/
def selectAll : List (Device × Announcement) → List Text → List (List WanConnection) × List Text
  | [], seen => ([], seen)
  | (root, answer) :: calls, seen =>
    let (found, seen) := select root answer seen
    let (more, seen) := selectAll calls seen
    (found :: more, seen)

/-- The WAN devices met in some calls of a new search. -/
def metIn (calls : List (Device × Announcement)) : List Text := (selectAll calls []).2

theorem selectAll_append (xs ys : List (Device × Announcement)) (seen : List Text) :
    selectAll (xs ++ ys) seen =
      ((selectAll xs seen).1 ++ (selectAll ys (selectAll xs seen).2).1, (selectAll ys (selectAll xs seen).2).2) := by
  induction xs generalizing seen with
  | nil => rfl
  | cons call xs ih => simp only [List.cons_append, selectAll, ih]

theorem length_selectAll (calls : List (Device × Announcement)) (seen : List Text) :
    (selectAll calls seen).1.length = calls.length := by
  induction calls generalizing seen with
  | nil => rfl
  | cons call calls ih => simp only [selectAll, List.length_cons, ih]

/-- Each call selects with what the calls before it have met. -/
theorem selectAll_getElem (calls : List (Device × Announcement)) (k : Nat) (hk : k < calls.length) :
    (selectAll calls []).1[k]? = some (select calls[k].1 calls[k].2 (metIn (calls.take k))).1 := by
  have hlen : (selectAll (calls.take k) []).1.length = k := by
    rw [length_selectAll, List.length_take, Nat.min_eq_left (Nat.le_of_lt hk)]
  have e : (selectAll calls []).1 =
      (selectAll (calls.take k) []).1 ++ (selectAll (calls.drop k) (metIn (calls.take k))).1 := by
    have h := selectAll_append (calls.take k) (calls.drop k) []
    rw [List.take_append_drop] at h
    exact congrArg Prod.fst h
  rw [e, List.getElem?_append_right (by omega), hlen, Nat.sub_self, List.drop_eq_getElem_cons hk]
  rfl

theorem metIn_succ (calls : List (Device × Announcement)) (k : Nat) (hk : k < calls.length) :
    metIn (calls.take (k + 1)) = (select calls[k].1 calls[k].2 (metIn (calls.take k))).2 := by
  rw [metIn, List.take_succ_eq_append_getElem hk, selectAll_append]
  rfl

/-! ## What there is to find -/

/-- The `i`th device below a gateway of version `v` is a WAN device of that version. -/
def IsWanDevice (root : Device) (v : Version) (i : Nat) (d : Device) : Prop :=
  root.deviceType = gatewayType v ∧ root.devices[i]? = some d ∧ d.deviceType = wanDeviceType v

/-- A WAN device of its gateway's version has this UDN. -/
def Met (calls : List (Device × Announcement)) (udn : Text) : Prop :=
  ∃ call ∈ calls, ∃ v i d, IsWanDevice call.1 v i d ∧ d.udn = udn

/-- A WAN device whose UDN none has had before: none of an earlier call, and none above
it in the list. -/
structure IsFirstWanDevice (earlier : List (Device × Announcement)) (root : Device) (v : Version) (i : Nat)
    (d : Device) : Prop where
  isWan : IsWanDevice root v i d
  not_met : ¬ Met earlier d.udn
  not_above : ∀ e ∈ root.devices.take i, e.deviceType = wanDeviceType v → e.udn ≠ d.udn

/-- The `n`th service of the `j`th device below `d` controls a connection. -/
def Controls (v : Version) (d : Device) (j n : Nat) (s : Service) : Prop :=
  ∃ c, d.devices[j]? = some c ∧ c.deviceType = connectionDeviceType v ∧ c.services[n]? = some s ∧
    (s.serviceType = ipServiceType v ∨ s.serviceType = pppServiceType v)

/-- `w` is for the service `s` of the WAN device `d`. -/
structure Carries (root : Device) (answer : Announcement) (v : Version) (d : Device) (s : Service)
    (w : WanConnection) : Prop where
  uuid : w.uuid = answer.uuid
  friendlyName : w.friendlyName = root.friendlyName
  device : w.device = d
  serviceId : w.serviceId = s.id
  serviceType : w.serviceType = s.serviceType
  controlUrl : w.controlUrl = answer.location.replacePath s.controlUrl.pathText
  isVersion2 : w.isVersion2 = true ↔ v = .two

/-- What a call finds at a place: the number of a WAN device, that of a connection device
in it, and that of a service of this one. -/
def Finds (earlier : List (Device × Announcement)) (root : Device) (answer : Announcement) (place : Nat × Nat × Nat)
    (w : WanConnection) : Prop :=
  ∃ v d s, IsFirstWanDevice earlier root v place.1 d ∧ Controls v d place.2.1 place.2.2 s ∧
    Carries root answer v d s w

/-- The order of a document: the outer numbers count first. -/
def DocumentOrder : Nat × Nat × Nat → Nat × Nat × Nat → Prop :=
  Prod.Lex (· < ·) (Prod.Lex (· < ·) (· < ·))

/-! ## What selection does -/

theorem gatewayType_inj {v v' : Version} (h : gatewayType v = gatewayType v') : v = v' := by
  revert h
  cases v <;> cases v' <;> decide

theorem ofGatewayType_eq_some {t : Text} {v : Version} :
    Version.ofGatewayType? t = some v ↔ t = gatewayType v := by
  unfold Version.ofGatewayType?
  constructor
  · intro h
    split at h
    · cases h; assumption
    · split at h
      · cases h; assumption
      · cases h
  · rintro rfl
    cases v <;> decide

/-- A root that is no gateway adds nothing to a search. -/
theorem select_other (root : Device) (answer : Announcement) (seen : List Text)
    (h : ∀ v, root.deviceType ≠ gatewayType v) : select root answer seen = ([], seen) := by
  have hn : Version.ofGatewayType? root.deviceType = none := by
    rw [Option.eq_none_iff_forall_ne_some]
    intro v hv
    exact h v (ofGatewayType_eq_some.1 hv)
  simp only [select, hn]

theorem select_gateway {root : Device} {v : Version} (answer : Announcement) (seen : List Text)
    (h : root.deviceType = gatewayType v) :
    select root answer seen =
      ((newWanDevices v root.devices seen).1.flatMap fun d =>
        (d.connectionServices v).map (.ofService answer root d), (newWanDevices v root.devices seen).2) := by
  simp only [select, ofGatewayType_eq_some.2 h]

theorem newWanDevices_cons_new {v : Version} {d : Device} {seen : List Text} (ds : List Device)
    (ht : d.deviceType = wanDeviceType v) (hs : d.udn ∉ seen) :
    newWanDevices v (d :: ds) seen =
      (d :: (newWanDevices v ds (seen ++ [d.udn])).1, (newWanDevices v ds (seen ++ [d.udn])).2) := by
  simp [newWanDevices, ht, hs]

theorem newWanDevices_cons_old {v : Version} {d : Device} {seen : List Text} (ds : List Device)
    (h : ¬ (d.deviceType = wanDeviceType v ∧ d.udn ∉ seen)) :
    newWanDevices v (d :: ds) seen = newWanDevices v ds seen := by
  simp only [newWanDevices, Bool.and_eq_true, decide_eq_true_eq, Bool.not_eq_true', List.contains_eq_mem,
    decide_eq_false_iff_not, if_neg h]

theorem mem_newWanDevices (v : Version) (ds : List Device) (seen : List Text) (udn : Text) :
    udn ∈ (newWanDevices v ds seen).2 ↔ udn ∈ seen ∨ ∃ d ∈ ds, d.deviceType = wanDeviceType v ∧ d.udn = udn := by
  induction ds generalizing seen with
  | nil => simp [newWanDevices]
  | cons d ds ih =>
    by_cases h : d.deviceType = wanDeviceType v ∧ d.udn ∉ seen
    · rw [newWanDevices_cons_new ds h.1 h.2, ih]
      grind
    · rw [newWanDevices_cons_old ds h, ih]
      grind

/-- A WAN device is new when it is met neither before the list nor above it in the list. -/
theorem newWanDevices_enumerates (v : Version) (ds : List Device) (seen : List Text) :
    Enumerates (· < ·) (fun (i : Nat) d => ds[i]? = some d ∧ d.deviceType = wanDeviceType v ∧ d.udn ∉ seen ∧
      ∀ e ∈ ds.take i, e.deviceType = wanDeviceType v → e.udn ≠ d.udn) (newWanDevices v ds seen).1 := by
  induction ds generalizing seen with
  | nil => exact .of_none (by simp)
  | cons d ds ih =>
    by_cases h : d.deviceType = wanDeviceType v ∧ d.udn ∉ seen
    · rw [newWanDevices_cons_new ds h.1 h.2]
      refine .cons ((ih (seen ++ [d.udn])).congr fun i b => ?_) fun b => ?_
      · simp only [List.getElem?_cons_succ, List.take_succ_cons, List.forall_mem_cons, List.mem_append,
          List.mem_singleton, h.1, not_or, forall_const]
        grind
      · grind
    · rw [newWanDevices_cons_old ds h]
      refine .skip ((ih seen).congr fun i b => ?_) fun b => ?_
      · simp only [List.getElem?_cons_succ, List.take_succ_cons, List.forall_mem_cons]
        grind
      · grind

theorem connectionServices_enumerates (v : Version) (d : Device) :
    Enumerates (Prod.Lex (· < ·) (· < ·)) (fun p s => Controls v d p.1 p.2 s) (d.connectionServices v) := by
  refine (Enumerates.flatMap (.filter _ _) fun c => .filter _ _).congr fun p s => ?_
  simp only [Controls, decide_eq_true_eq, Bool.or_eq_true, and_assoc]

theorem isVersion2_of_type {v : Version} {w : WanConnection}
    (h : w.serviceType = ipServiceType v ∨ w.serviceType = pppServiceType v) :
    w.isVersion2 = true ↔ v = .two := by
  rw [WanConnection.isVersion2]
  rcases h with h | h <;> rw [h] <;> cases v <;> decide

theorem carries_iff {root : Device} {answer : Announcement} {v : Version} {d : Device} {j n : Nat} {s : Service}
    (h : Controls v d j n s) (w : WanConnection) :
    Carries root answer v d s w ↔ w = .ofService answer root d s := by
  constructor
  · rintro ⟨hu, hf, hd, hi, ht, hc, -⟩
    cases w
    simp only at hu hf hd hi ht hc
    subst hu hf hd hi ht hc
    rfl
  · rintro rfl
    obtain ⟨_, -, -, -, ht⟩ := h
    exact ⟨rfl, rfl, rfl, rfl, rfl, rfl, isVersion2_of_type ht⟩

/-- What selection finds in one description, when what is met before is what earlier
calls have met. -/
theorem select_enumerates (earlier : List (Device × Announcement)) (root : Device) (answer : Announcement)
    (seen : List Text) (hseen : ∀ udn, udn ∈ seen ↔ Met earlier udn) :
    Enumerates DocumentOrder (Finds earlier root answer) (select root answer seen).1 := by
  by_cases hv : ∃ v, root.deviceType = gatewayType v
  · obtain ⟨v, hv⟩ := hv
    rw [select_gateway answer seen hv]
    have hfirst : ∀ i d, IsFirstWanDevice earlier root v i d ↔ (root.devices[i]? = some d ∧
        d.deviceType = wanDeviceType v ∧ d.udn ∉ seen ∧
        ∀ e ∈ root.devices.take i, e.deviceType = wanDeviceType v → e.udn ≠ d.udn) := by
      intro i d
      rw [hseen]
      constructor
      · rintro ⟨⟨-, hi, ht⟩, hm, ha⟩
        exact ⟨hi, ht, hm, ha⟩
      · rintro ⟨hi, ht, hm, ha⟩
        exact ⟨⟨hv, hi, ht⟩, hm, ha⟩
    -- Selection walks over the new WAN devices, and in each of them over its services.
    refine (Enumerates.flatMap (newWanDevices_enumerates v root.devices seen) fun d =>
      (connectionServices_enumerates v d).map (WanConnection.ofService answer root d)).congr fun p w => ?_
    constructor
    · rintro ⟨d, hd, s, hs, hw⟩
      exact ⟨v, d, s, (hfirst _ d).2 hd, hs, (carries_iff hs w).2 hw⟩
    · rintro ⟨v', d, s, hd, hs, hw⟩
      obtain rfl : v' = v := gatewayType_inj (hd.isWan.1.symm.trans hv)
      exact ⟨d, (hfirst _ d).1 hd, s, hs, (carries_iff hs w).1 hw⟩
  · rw [select_other root answer seen fun v h => hv ⟨v, h⟩]
    refine .of_none fun p w => ?_
    rintro ⟨v, d, s, hd, -⟩
    exact hv ⟨v, hd.isWan.1⟩

theorem mem_select {root : Device} {answer : Announcement} {seen : List Text} {udn : Text} :
    udn ∈ (select root answer seen).2 ↔ udn ∈ seen ∨ ∃ v i d, IsWanDevice root v i d ∧ d.udn = udn := by
  by_cases hv : ∃ v, root.deviceType = gatewayType v
  · obtain ⟨v, hv⟩ := hv
    rw [select_gateway answer seen hv, mem_newWanDevices]
    refine or_congr_right ⟨?_, ?_⟩
    · rintro ⟨d, hd, ht, hu⟩
      obtain ⟨i, hi⟩ := List.getElem?_of_mem hd
      exact ⟨v, i, d, ⟨hv, hi, ht⟩, hu⟩
    · rintro ⟨v', i, d, ⟨hv', hi, ht⟩, hu⟩
      obtain rfl : v' = v := gatewayType_inj (hv'.symm.trans hv)
      exact ⟨d, List.mem_of_getElem? hi, ht, hu⟩
  · rw [select_other root answer seen fun v h => hv ⟨v, h⟩]
    refine ⟨.inl, ?_⟩
    rintro (h | ⟨v, _, _, ⟨h, -⟩, -⟩)
    · exact h
    · exact absurd ⟨v, h⟩ hv

/-- What a search has met is what there has been to meet. -/
theorem mem_selectAll (calls : List (Device × Announcement)) (seen : List Text) (udn : Text) :
    udn ∈ (selectAll calls seen).2 ↔ udn ∈ seen ∨ Met calls udn := by
  induction calls generalizing seen with
  | nil => simp [selectAll, Met]
  | cons call calls ih =>
    simp only [selectAll, ih, mem_select, Met, List.mem_cons, exists_eq_or_imp, or_assoc]

theorem mem_metIn (calls : List (Device × Announcement)) (udn : Text) : udn ∈ metIn calls ↔ Met calls udn := by
  simp [metIn, mem_selectAll]

/-! ## The calls of a run -/

/-- Each call of a run finds, in the order of the document, the services of the WAN
devices whose UDNs it is the first to meet. What is met after it is the UDNs of all WAN
devices up to then, and a root that is no gateway finds and adds nothing. -/
theorem call_finds (calls : List (Device × Announcement)) (k : Nat) (hk : k < calls.length) :
    ∃ found, (selectAll calls []).1[k]? = some found ∧
      Enumerates DocumentOrder (Finds (calls.take k) calls[k].1 calls[k].2) found ∧
      (∀ udn, udn ∈ metIn (calls.take (k + 1)) ↔ Met (calls.take (k + 1)) udn) ∧
      ((∀ v, calls[k].1.deviceType ≠ gatewayType v) →
        found = [] ∧ metIn (calls.take (k + 1)) = metIn (calls.take k)) := by
  refine ⟨_, selectAll_getElem calls k hk, select_enumerates _ _ _ _ (mem_metIn _), mem_metIn _, fun h => ?_⟩
  rw [metIn_succ calls k hk, select_other _ _ _ h]
  exact ⟨rfl, rfl⟩

/-- A gateway with a single WAN device and a single connection. -/
def smallGateway (v : Version) (udn : Text) : Device :=
  let service : Service := ⟨"urn:upnp-org:serviceId:WANIPConn1".toList, ipServiceType v, Url.parse "/ctl".toList⟩
  let connection : Device := ⟨connectionDeviceType v, "uuid:connection".toList, [], [], [service]⟩
  ⟨gatewayType v, "uuid:root".toList, "Router".toList, [⟨wanDeviceType v, udn, [], [connection], []⟩], []⟩

/-- Two gateways, of which one answers twice, and a device that is no gateway. -/
def mixedCalls : List (Device × Announcement) :=
  let answer : Announcement := ⟨[], "gw".toList, Url.parse "http://10.0.0.1/d.xml".toList, []⟩
  [(smallGateway .one "uuid:a".toList, answer), (smallGateway .one "uuid:a".toList, answer),
    (smallGateway .two "uuid:b".toList, answer), ({ smallGateway .two "uuid:c".toList with deviceType := [] }, answer)]

theorem call_finds_mixed :
    (selectAll mixedCalls []).1.map List.length = [1, 0, 1, 0] ∧
      ∃ hk : 3 < mixedCalls.length, (∀ v, mixedCalls[3].1.deviceType ≠ gatewayType v) ∧
      ∃ found, (selectAll mixedCalls []).1[3]? = some found ∧
        Enumerates DocumentOrder (Finds (mixedCalls.take 3) mixedCalls[3].1 mixedCalls[3].2) found ∧
        (∀ udn, udn ∈ metIn (mixedCalls.take 4) ↔ Met (mixedCalls.take 4) udn) ∧
        found = [] ∧ metIn (mixedCalls.take 4) = metIn (mixedCalls.take 3) := by
  have hk : 3 < mixedCalls.length := by decide
  have hv : ∀ v, ([] : Text) ≠ gatewayType v := by intro v; cases v <;> decide
  obtain ⟨found, hf, he, hm, ho⟩ := call_finds mixedCalls 3 hk
  exact ⟨by decide, hk, hv, found, hf, he, hm, ho hv⟩

end Gateway
