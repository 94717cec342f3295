import Mathlib.Data.Nat.Find
import Gateway.Proofs.Selection
/-!
# WAN devices met again

A search remembers every WAN device that it meets, whether or not it finds a connection there. So
what a UDN yields is decided by the first WAN device that has it (`yields_iff_first`). If that one
has no service to control a connection, a later one that has is passed over, and what is found
depends on the order in which the descriptions come in (`usable_passed_over`).
-/
namespace Gateway

/-- Some service of the WAN device controls a connection. -/
def Device.IsUsable (v : Version) (d : Device) : Prop := ∃ j n s, Controls v d j n s

/-- Some call of a new search finds a connection of a WAN device with this UDN. -/
def Yields (calls : List (Device × Announcement)) (udn : Text) : Prop :=
  ∃ found ∈ (selectAll calls []).1, ∃ w ∈ found, w.device.udn = udn

/-- Some description of a search lists a WAN device of its gateway's version with this UDN. -/
def Lists (calls : List (Device × Announcement)) (udn : Text) (v : Version) (d : Device) : Prop :=
  ∃ call ∈ calls, ∃ i, IsWanDevice call.1 v i d ∧ d.udn = udn

variable {calls : List (Device × Announcement)} {udn : Text}

/-! ## First WAN devices -/

/-- What a call finds is of the WAN devices that it is the first to meet and that have something to find. -/
theorem exists_mem_select_iff (earlier : List (Device × Announcement)) (root : Device) (answer : Announcement) :
    (∃ w ∈ (select root answer (metIn earlier)).1, w.device.udn = udn) ↔
      ∃ v i d, IsFirstWanDevice earlier root v i d ∧ d.udn = udn ∧ d.IsUsable v := by
  simp only [(select_enumerates earlier root answer _ (mem_metIn earlier)).mem_iff]
  constructor
  · rintro ⟨w, ⟨place, v, d, s, hfirst, hcontrols, hw⟩, rfl⟩
    exact ⟨v, place.1, d, hfirst, hw.device ▸ rfl, _, _, s, hcontrols⟩
  · rintro ⟨v, i, d, hfirst, rfl, j, n, s, hcontrols⟩
    exact ⟨.ofService answer root d s, ⟨(i, j, n), v, d, s, hfirst, hcontrols, (carries_iff hcontrols _).2 rfl⟩, rfl⟩

theorem yields_iff : Yields calls udn ↔ ∃ k, ∃ hk : k < calls.length, ∃ v i d,
    IsFirstWanDevice (calls.take k) calls[k].1 v i d ∧ d.udn = udn ∧ d.IsUsable v := by
  constructor
  · rintro ⟨found, hfound, hw⟩
    obtain ⟨k, hk, rfl⟩ := List.getElem_of_mem hfound
    rw [length_selectAll] at hk
    have hcall := selectAll_getElem calls k hk
    rw [List.getElem?_eq_getElem (by rwa [length_selectAll]), Option.some.injEq] at hcall
    rw [hcall] at hw
    exact ⟨k, hk, (exists_mem_select_iff _ _ _).1 hw⟩
  · rintro ⟨k, hk, hfirst⟩
    exact ⟨_, List.mem_of_getElem? (selectAll_getElem calls k hk),
      (exists_mem_select_iff _ _ calls[k].2).2 hfirst⟩

/-- Of the WAN devices of one UDN one comes first. -/
theorem exists_first (h : Met calls udn) : ∃ k, ∃ hk : k < calls.length, ∃ v i d,
    IsFirstWanDevice (calls.take k) calls[k].1 v i d ∧ d.udn = udn := by
  classical
  have hcall : ∃ k, ∃ hk : k < calls.length, ∃ i v d, IsWanDevice calls[k].1 v i d ∧ d.udn = udn := by
    obtain ⟨call, hmem, v, i, d, hd⟩ := h
    obtain ⟨k, hk, rfl⟩ := List.getElem_of_mem hmem
    exact ⟨k, hk, i, v, d, hd⟩
  -- the first call that has one, and the first one in it
  obtain ⟨hk, hplace⟩ := Nat.find_spec hcall
  obtain ⟨v, d, hwan, rfl⟩ := Nat.find_spec hplace
  refine ⟨_, hk, v, _, d, ⟨hwan, ?_, ?_⟩, rfl⟩
  · rintro ⟨call, hmem, v', i, d', hd'⟩
    obtain ⟨j, hj, rfl⟩ := List.getElem_of_mem hmem
    rw [List.length_take] at hj
    rw [List.getElem_take] at hd'
    exact Nat.find_min hcall (by omega) ⟨by omega, i, v', d', hd'⟩
  · intro e he htype hudn
    obtain ⟨i, hi, rfl⟩ := List.getElem_of_mem he
    rw [List.length_take] at hi
    rw [List.getElem_take] at htype hudn
    exact Nat.find_min hplace (by omega) ⟨v, _, ⟨hwan.1, List.getElem?_eq_getElem (by omega), htype⟩, hudn⟩

/-! ## What a UDN yields -/

/-- A UDN yields connections exactly if the first WAN device with it has a service to control one. So where all of its
WAN devices are usable or none is, it yields connections whenever one is there, in whatever order they come. -/
theorem yields_iff_first (calls : List (Device × Announcement)) (udn : Text) :
    (Yields calls udn ↔ ∃ k, ∃ hk : k < calls.length, ∃ v i d,
      IsFirstWanDevice (calls.take k) calls[k].1 v i d ∧ d.udn = udn ∧ d.IsUsable v) ∧
    ((∀ v d v' d', Lists calls udn v d → Lists calls udn v' d' → d.IsUsable v → d'.IsUsable v') →
      (Yields calls udn ↔ ∃ v d, Lists calls udn v d ∧ d.IsUsable v)) := by
  have hlists : ∀ k, ∀ hk : k < calls.length, ∀ v i d, IsFirstWanDevice (calls.take k) calls[k].1 v i d →
      d.udn = udn → Lists calls udn v d :=
    fun k hk v i d hfirst hudn => ⟨_, List.getElem_mem hk, i, hfirst.isWan, hudn⟩
  refine ⟨yields_iff, fun halike => yields_iff.trans ⟨?_, ?_⟩⟩
  · rintro ⟨k, hk, v, i, d, hfirst, hudn, husable⟩
    exact ⟨v, d, hlists k hk v i d hfirst hudn, husable⟩
  · rintro ⟨v, d, hd, husable⟩
    obtain ⟨call, hcall, i, hwan⟩ := id hd
    obtain ⟨k, hk, v', i', d', hfirst, hudn⟩ := exists_first ⟨call, hcall, v, i, d, hwan⟩
    exact ⟨k, hk, v', i', d', hfirst, hudn, halike v d v' d' hd (hlists k hk v' i' d' hfirst hudn) husable⟩

/-- Two descriptions of one WAN device, of which the first lists no connections. -/
def emptyThenFull : List (Device × Announcement) :=
  let answer : Announcement := ⟨[], "gw".toList, Url.parse "http://10.0.0.1/d.xml".toList, []⟩
  let full := smallGateway .one "uuid:a".toList
  [({ full with devices := full.devices.map fun d => { d with devices := [] } }, answer), (full, answer)]

/-- It is not so that a usable WAN device has its UDN found: an earlier one of the same UDN that has no services is
enough to pass it over. In the other order it is found. -/
theorem usable_passed_over :
    (¬ ∀ (calls : List (Device × Announcement)) (k : Nat) (hk : k < calls.length) (v : Version) (i : Nat) (d : Device),
      IsWanDevice calls[k].1 v i d → d.IsUsable v → Yields (calls.take (k + 1)) d.udn) ∧
    ¬ Yields emptyThenFull "uuid:a".toList ∧ Yields emptyThenFull.reverse "uuid:a".toList := by
  have hpassed : ¬ Yields emptyThenFull "uuid:a".toList := by
    unfold Yields
    decide
  refine ⟨fun h => hpassed ?_, hpassed, ?_⟩
  · have hk : 1 < emptyThenFull.length := by decide
    exact h emptyThenFull 1 hk .one 0 _ ⟨rfl, rfl, rfl⟩ ⟨0, 0, _, _, rfl, rfl, rfl, .inl rfl⟩
  · unfold Yields
    decide

end Gateway
