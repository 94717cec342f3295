import Mathlib.Data.List.Sort
import Gateway.Signal.Registry
/-!
# Slots are a list in order of arrival

Slots are reused, in an order of their own, and what is in them is put in order by
sequence numbers. `Tracks` relates them to the plain list of what has arrived and has
not been taken out, together with the keys that were given for the same arrival. It is
kept by insertion, by removal with related keys and by clearing, so no key ever reaches
a later occupant of its slot.
-/
namespace Gateway.Signal

variable {α : Type}

/-! ## Arrivals -/

namespace Arrivals

/-- The list is in order of arrival and holds nothing that is still to come. -/
structure Ordered (a : Arrivals α) : Prop where
  sorted : a.list.Pairwise (·.1 < ·.1)
  lt : ∀ e ∈ a.list, e.1 < a.count

theorem ordered_empty : Ordered (Registry.empty : Arrivals α) := ⟨.nil, nofun⟩

theorem ordered_insert {a : Arrivals α} (h : a.Ordered) (v : α) : Ordered (Registry.insert a v).1 := by
  refine ⟨List.pairwise_append.2 ⟨h.sorted, List.pairwise_singleton _ _, ?_⟩, ?_⟩
  · intro e he e' he'
    rw [List.mem_singleton] at he'
    rw [he']
    exact h.lt e he
  · intro e he
    show e.1 < a.count + 1
    rcases List.mem_append.1 he with he | he
    · exact Nat.lt_succ_of_lt (h.lt e he)
    · rw [List.mem_singleton] at he
      rw [he]
      exact Nat.lt_succ_self _

/-- The list without one arrival. -/
def without (a : Arrivals α) (i : Nat) : Arrivals α := ⟨a.list.filter fun e => e.1 ≠ i, a.count⟩

theorem ordered_without {a : Arrivals α} (h : a.Ordered) (i : Nat) : (a.without i).Ordered :=
  ⟨h.sorted.filter _, fun e he => h.lt e (List.mem_filter.1 he).1⟩

theorem without_of_notMem {a : Arrivals α} {i : Nat} (h : i ∉ a.list.map (·.1)) : a.without i = a := by
  unfold without
  rw [List.filter_eq_self.2]
  intro e he
  exact decide_eq_true fun hi => h (hi ▸ List.mem_map_of_mem he)

theorem notMem_without (a : Arrivals α) (i : Nat) : i ∉ (a.without i).list.map (·.1) := by
  simp [without]

/-- An arrival number belongs to one arrival. -/
theorem Ordered.eq_of_number {a : Arrivals α} (h : a.Ordered) {i : Nat} {v v' : α} (hv : (i, v) ∈ a.list)
    (hv' : (i, v') ∈ a.list) : v = v' := by
  have hn : (a.list.map (·.1)).Nodup := List.pairwise_map.2 (h.sorted.imp Nat.ne_of_lt)
  exact (Prod.mk.inj (List.inj_on_of_nodup_map hn hv hv' rfl)).2

end Arrivals

/-! ## Occupants -/

/-- An occupant as an arrival, its sequence number before its value. -/
def Occupant.entry (o : Occupant α) : Nat × α := (o.sequence, o.value)

namespace Slots

/-- What is in the slots, slot by slot. -/
def occupants (s : Slots α) : List (Occupant α) := s.slots.filterMap (·.occupant)

/-- What is in one slot, in front of what is in all others. -/
theorem occupants_perm {s : Slots α} {p : Nat} {slot : Slot α} (h : s.slots[p]? = some slot) (o : Option (Occupant α))
    (turn : Nat) : ∃ rest : List (Occupant α), s.occupants.Perm (slot.occupant.toList ++ rest) ∧
      ((s.slots.set p ⟨turn, o⟩).filterMap (·.occupant)).Perm (o.toList ++ rest) := by
  obtain ⟨hp, rfl⟩ := List.getElem?_eq_some_iff.1 h
  refine ⟨(s.slots.take p).filterMap (·.occupant) ++ (s.slots.drop (p + 1)).filterMap (·.occupant), ?_, ?_⟩
  · have hs : s.slots = s.slots.take p ++ s.slots[p] :: s.slots.drop (p + 1) := by simp
    rw [occupants]
    conv_lhs => rw [hs]
    rw [List.filterMap_append, List.filterMap_cons]
    cases s.slots[p].occupant with
    | none => exact .refl _
    | some x => exact List.perm_middle
  · rw [List.set_eq_take_append_cons_drop, if_pos hp, List.filterMap_append, List.filterMap_cons]
    cases o with
    | none => exact .refl _
    | some x => exact List.perm_middle

theorem place_eq_orderedInsert (x : Occupant α) (l : List (Occupant α)) :
    place x l = l.orderedInsert (fun y z => y.sequence ≤ z.sequence) x := by
  induction l with
  | nil => rfl
  | cons y ys ih => rw [place, List.orderedInsert, ih]

theorem foldr_place (l : List (Occupant α)) :
    l.foldr place [] = l.insertionSort fun y z => y.sequence ≤ z.sequence := by
  induction l with
  | nil => rfl
  | cons x l ih => rw [List.foldr_cons, ih, List.insertionSort_cons, place_eq_orderedInsert]

/-! ## Slots and arrivals -/

/-- The occupants are what has arrived and has not been taken out. -/
structure Models (s : Slots α) (a : Arrivals α) : Prop where
  ordered : a.Ordered
  count : s.nextSequence = a.count
  occupants : (s.occupants.map Occupant.entry).Perm a.list
  vacant : ∀ p ∈ s.vacant, ∃ turn, s.slots[p]? = some ⟨turn, none⟩
  vacant_nodup : s.vacant.Nodup

/-- Two keys that were given for the same arrival. It is still there, or it has been
taken out and its slot has been vacated since. -/
def Fits (s : Slots α) (a : Arrivals α) (k k' : Key) : Prop :=
  (∃ v, s.slots[k.place]? = some ⟨k.turn, some ⟨k'.place, v⟩⟩) ∨
    (k'.place < a.count ∧ k'.place ∉ a.list.map (·.1) ∧ ∃ slot, s.slots[k.place]? = some slot ∧ k.turn < slot.turn)

/-- The slots are the list, and `κ` only relates keys of the same arrival. -/
structure Tracks (κ : Key → Key → Prop) (s : Slots α) (a : Arrivals α) : Prop where
  models : s.Models a
  fits : ∀ k k', κ k k' → s.Fits a k k'

variable {κ : Key → Key → Prop} {s : Slots α} {a : Arrivals α}

theorem Models.toList (h : s.Models a) : s.toList = Registry.toList a := by
  let le : Occupant α → Occupant α → Prop := fun y z => y.sequence ≤ z.sequence
  have hsorted : (s.occupants.insertionSort le).Pairwise le :=
    haveI : Std.Total le := ⟨fun y z => Nat.le_total y.sequence z.sequence⟩
    haveI : IsTrans (Occupant α) le := ⟨fun _ _ _ => Nat.le_trans⟩
    List.pairwise_insertionSort le s.occupants
  have hperm : ((s.occupants.insertionSort le).map Occupant.entry).Perm a.list :=
    ((List.perm_insertionSort le s.occupants).map _).trans h.occupants
  have hsame : ∀ e e', e ∈ (s.occupants.insertionSort le).map Occupant.entry → e' ∈ a.list → e.1 ≤ e'.1 → e'.1 ≤ e.1 →
      e = e' := by
    rintro ⟨i, v⟩ ⟨j, u⟩ hv hu hij hji
    obtain rfl : i = j := Nat.le_antisymm hij hji
    rw [h.ordered.eq_of_number (hperm.subset hv) hu]
  have heq : (s.occupants.insertionSort le).map Occupant.entry = a.list :=
    hperm.eq_of_pairwise hsame (List.pairwise_map.2 hsorted) (h.ordered.sorted.imp Nat.le_of_lt)
  show ((s.slots.filterMap (·.occupant)).foldr place []).map (·.value) = a.list.map (·.2)
  rw [foldr_place, ← heq, List.map_map]
  rfl

theorem models_empty : Models (Registry.empty : Slots α) Registry.empty :=
  ⟨Arrivals.ordered_empty, rfl, .refl _, nofun, .nil⟩

/-! ## Insertion -/

/-- A new slot is added behind all others, or a vacant one gets an occupant. -/
theorem insert_cases (h : s.Models a) (v : α) :
    (s.vacant = [] ∧ Registry.insert s v = (⟨s.slots ++ [⟨0, some ⟨a.count, v⟩⟩], [], a.count + 1⟩, ⟨s.slots.length, 0⟩)) ∨
    ∃ p vacant turn, s.vacant = p :: vacant ∧ s.slots[p]? = some ⟨turn, none⟩ ∧
      Registry.insert s v = (⟨s.slots.set p ⟨turn, some ⟨a.count, v⟩⟩, vacant, a.count + 1⟩, ⟨p, turn⟩) := by
  show (_ ∧ s.insert v = _) ∨ ∃ p vacant turn, _ ∧ _ ∧ s.insert v = _
  rw [← h.count, insert]
  cases hv : s.vacant with
  | nil => exact .inl ⟨rfl, rfl⟩
  | cons p vacant =>
    obtain ⟨turn, hp⟩ := h.vacant p (hv ▸ List.mem_cons_self)
    exact .inr ⟨p, vacant, turn, rfl, hp, by simp [hp]⟩

theorem models_insert (h : s.Models a) (v : α) : Models (Registry.insert s v).1 (Registry.insert a v).1 := by
  have hlist : ∀ l : List (Occupant α), l.Perm (⟨a.count, v⟩ :: s.occupants) →
      (l.map Occupant.entry).Perm (a.list ++ [(a.count, v)]) := by
    intro l hl
    exact (hl.map _).trans ((h.occupants.cons _).trans (List.perm_append_singleton _ _).symm)
  rcases insert_cases h v with ⟨-, he⟩ | ⟨p, vacant, turn, hv, hp, he⟩ <;> rw [he]
  · refine ⟨Arrivals.ordered_insert h.ordered v, rfl, hlist _ ?_, nofun, .nil⟩
    rw [Slots.occupants, List.filterMap_append]
    exact List.perm_append_singleton _ _
  · have hn : p ∉ vacant ∧ vacant.Nodup := List.nodup_cons.1 (hv ▸ h.vacant_nodup)
    refine ⟨Arrivals.ordered_insert h.ordered v, rfl, hlist _ ?_, ?_, hn.2⟩
    · obtain ⟨rest, hold, hnew⟩ := occupants_perm hp (some ⟨a.count, v⟩) turn
      exact hnew.trans (hold.symm.cons _)
    · intro q hq
      have hne : p ≠ q := fun hpq => hn.1 (hpq ▸ hq)
      rw [List.getElem?_set_ne hne]
      exact h.vacant q (hv ▸ List.mem_cons_of_mem _ hq)

/-- The new keys are for the same arrival, and no earlier keys are for it. -/
theorem fits_insert (h : s.Models a) (v : α) :
    Fits (Registry.insert s v).1 (Registry.insert a v).1 (Registry.insert s v).2 (Registry.insert a v).2 ∧
      ∀ k k', s.Fits a k k' → Fits (Registry.insert s v).1 (Registry.insert a v).1 k k' := by
  have hold : ∀ {i : Nat}, i < a.count → i ∉ a.list.map (·.1) → i ∉ (a.list ++ [(a.count, v)]).map (·.1) := by
    intro i hi hn
    rw [List.map_append, List.mem_append]
    rintro (hm | hm)
    · exact hn hm
    · exact Nat.ne_of_lt hi (List.mem_singleton.1 hm)
  rcases insert_cases h v with ⟨-, he⟩ | ⟨p, vacant, turn, -, hp, he⟩ <;> rw [he]
  · refine ⟨.inl ⟨v, by simp; rfl⟩, ?_⟩
    have hkeep : ∀ {q : Nat} {slot : Slot α}, s.slots[q]? = some slot →
        (s.slots ++ [⟨0, some ⟨a.count, v⟩⟩])[q]? = some slot := by
      intro q slot hq
      rw [List.getElem?_append_left (List.getElem?_eq_some_iff.1 hq).1, hq]
    rintro k k' (⟨u, hu⟩ | ⟨hi, hn, slot, hslot, hturn⟩)
    · exact .inl ⟨u, hkeep hu⟩
    · exact .inr ⟨Nat.lt_succ_of_lt hi, hold hi hn, slot, hkeep hslot, hturn⟩
  · have hlen : p < s.slots.length := (List.getElem?_eq_some_iff.1 hp).1
    refine ⟨.inl ⟨v, List.getElem?_set_self hlen⟩, ?_⟩
    rintro k k' (⟨u, hu⟩ | ⟨hi, hn, slot, hslot, hturn⟩)
    · have hne : p ≠ k.place := by
        rintro rfl
        rw [hp] at hu
        cases hu
      exact .inl ⟨u, by rw [List.getElem?_set_ne hne, hu]⟩
    · refine .inr ⟨Nat.lt_succ_of_lt hi, hold hi hn, ?_⟩
      by_cases hpk : p = k.place
      · subst hpk
        rw [hp] at hslot
        cases hslot
        exact ⟨_, List.getElem?_set_self hlen, hturn⟩
      · exact ⟨slot, by rw [List.getElem?_set_ne hpk, hslot], hturn⟩

theorem Tracks.insert (h : Tracks κ s a) (v : α) :
    Tracks (fun k k' => κ k k' ∨ (k = (Registry.insert s v).2 ∧ k' = (Registry.insert a v).2))
      (Registry.insert s v).1 (Registry.insert a v).1 := by
  obtain ⟨hnew, hold⟩ := fits_insert h.models v
  refine ⟨models_insert h.models v, ?_⟩
  rintro k k' (hk | ⟨rfl, rfl⟩)
  · exact hold k k' (h.fits k k' hk)
  · exact hnew

/-! ## Removal -/

theorem vacate_occupied {p turn : Nat} {o : Occupant α} (hp : s.slots[p]? = some ⟨turn, some o⟩) :
    s.vacate p = ⟨s.slots.set p ⟨turn + 1, none⟩, p :: s.vacant, s.nextSequence⟩ := by
  rw [vacate, hp]

theorem models_vacate (h : s.Models a) {p turn : Nat} {o : Occupant α}
    (hp : s.slots[p]? = some ⟨turn, some o⟩) : Models (s.vacate p) (a.without o.sequence) := by
  have hlen : p < s.slots.length := (List.getElem?_eq_some_iff.1 hp).1
  obtain ⟨rest, hold, hnew⟩ := occupants_perm hp none (turn + 1)
  have hlist : a.list.Perm (o.entry :: rest.map Occupant.entry) := h.occupants.symm.trans (hold.map _)
  -- Its number is taken out with it and no other has that number.
  have hothers : ∀ e ∈ rest.map Occupant.entry, e.1 ≠ o.sequence := by
    have hn : (a.list.map (·.1)).Nodup := List.pairwise_map.2 (h.ordered.sorted.imp Nat.ne_of_lt)
    rw [(hlist.map _).nodup_iff, List.map_cons, List.nodup_cons] at hn
    intro e he heq
    refine hn.1 ?_
    show o.sequence ∈ _
    rw [← heq]
    exact List.mem_map_of_mem he
  rw [vacate_occupied hp]
  refine ⟨Arrivals.ordered_without h.ordered _, h.count, ?_, ?_, ?_⟩
  · refine (hnew.map _).trans ?_
    have hfilter := hlist.filter fun e => e.1 ≠ o.sequence
    rw [List.filter_cons_of_neg (by simp [Occupant.entry]),
      List.filter_eq_self.2 fun e he => decide_eq_true (hothers e he)] at hfilter
    exact hfilter.symm
  · intro q hq
    by_cases hpq : p = q
    · exact ⟨turn + 1, by rw [← hpq, List.getElem?_set_self hlen]⟩
    · rw [List.getElem?_set_ne hpq]
      rcases List.mem_cons.1 hq with rfl | hq
      · exact absurd rfl hpq
      · exact h.vacant q hq
  · refine List.nodup_cons.2 ⟨?_, h.vacant_nodup⟩
    intro hv
    obtain ⟨turn', hp'⟩ := h.vacant p hv
    rw [hp] at hp'
    cases hp'

theorem fits_vacate (h : s.Models a) {p turn : Nat} {o : Occupant α}
    (hp : s.slots[p]? = some ⟨turn, some o⟩) {k k' : Key} (hk : s.Fits a k k') :
    Fits (s.vacate p) (a.without o.sequence) k k' := by
  have hlen : p < s.slots.length := (List.getElem?_eq_some_iff.1 hp).1
  have hsub : ∀ {i : Nat}, i ∉ a.list.map (·.1) → i ∉ (a.without o.sequence).list.map (·.1) :=
    fun hn hm => hn ((List.filter_sublist.map _).subset hm)
  rw [vacate_occupied hp]
  by_cases hpk : p = k.place
  · subst hpk
    refine .inr ?_
    rcases hk with ⟨u, hu⟩ | ⟨hi, hn, slot, hslot, hturn⟩
    · rw [hp] at hu
      cases hu
      have hm : (k'.place, u) ∈ a.list :=
        h.occupants.subset (List.mem_map.2 ⟨⟨k'.place, u⟩, List.mem_filterMap.2 ⟨_, List.mem_of_getElem? hp, rfl⟩, rfl⟩)
      exact ⟨h.ordered.lt _ hm, Arrivals.notMem_without a _, _, List.getElem?_set_self hlen, Nat.lt_succ_self _⟩
    · rw [hp] at hslot
      cases hslot
      exact ⟨hi, hsub hn, _, List.getElem?_set_self hlen, Nat.lt_succ_of_lt hturn⟩
  · rcases hk with ⟨u, hu⟩ | ⟨hi, hn, slot, hslot, hturn⟩
    · exact .inl ⟨u, by rw [List.getElem?_set_ne hpk, hu]⟩
    · exact .inr ⟨hi, hsub hn, slot, by rw [List.getElem?_set_ne hpk, hslot], hturn⟩

theorem Tracks.remove (h : Tracks κ s a) {k k' : Key} (hk : κ k k') :
    Tracks κ (Registry.remove s k) (Registry.remove a k') := by
  show Tracks κ (s.remove k) (a.without k'.place)
  rcases h.fits k k' hk with ⟨v, hv⟩ | ⟨-, hn, slot, hslot, hturn⟩
  · have hr : s.remove k = s.vacate k.place := by simp only [Slots.remove, hv, if_true]
    rw [hr]
    exact ⟨models_vacate h.models hv, fun j j' hj => fits_vacate h.models hv (h.fits j j' hj)⟩
  · have hr : s.remove k = s := by simp only [Slots.remove, hslot, if_neg (Nat.ne_of_gt hturn)]
    rw [hr, Arrivals.without_of_notMem hn]
    exact h

/-! ## Clearing -/

/-- Nothing is in the slot at `p`, if there is one. -/
def Vacant (s : Slots α) (p : Nat) : Prop := ∀ slot, s.slots[p]? = some slot → slot.occupant = none

/-- A slot that is vacated has an occupant, or nothing happens. -/
theorem vacate_cases (s : Slots α) (p : Nat) :
    (∃ turn o, s.slots[p]? = some ⟨turn, some o⟩) ∨ (s.Vacant p ∧ s.vacate p = s) := by
  cases hp : s.slots[p]? with
  | none =>
    refine .inr ⟨?_, by rw [vacate, hp]⟩
    intro slot hslot
    rw [hp] at hslot
    cases hslot
  | some slot =>
    obtain ⟨turn, _ | o⟩ := slot
    · refine .inr ⟨?_, by rw [vacate, hp]⟩
      intro slot hslot
      rw [hp] at hslot
      cases hslot
      rfl
    · exact .inl ⟨turn, o, rfl⟩

theorem vacant_vacate (s : Slots α) {p q : Nat} (h : q = p ∨ s.Vacant q) : (s.vacate p).Vacant q := by
  rcases s.vacate_cases p with ⟨turn, o, hp⟩ | ⟨hp, he⟩
  · rw [vacate_occupied hp]
    intro slot hslot
    by_cases hpq : p = q
    · rw [← hpq, List.getElem?_set_self (List.getElem?_eq_some_iff.1 hp).1] at hslot
      cases hslot
      rfl
    · rw [List.getElem?_set_ne hpq] at hslot
      exact (h.resolve_left (Ne.symm hpq)) slot hslot
  · rw [he]
    rcases h with rfl | h
    · exact hp
    · exact h

theorem length_vacate (s : Slots α) (p : Nat) : (s.vacate p).slots.length = s.slots.length := by
  rcases s.vacate_cases p with ⟨turn, o, hp⟩ | ⟨-, he⟩
  · rw [vacate_occupied hp, List.length_set]
  · rw [he]

theorem Tracks.vacate (h : Tracks κ s a) (p : Nat) : ∃ list, Tracks κ (s.vacate p) ⟨list, a.count⟩ := by
  rcases s.vacate_cases p with ⟨turn, o, hp⟩ | ⟨-, he⟩
  · exact ⟨_, models_vacate h.models hp, fun k k' hk => fits_vacate h.models hp (h.fits k k' hk)⟩
  · rw [he]
    exact ⟨a.list, h⟩

theorem Tracks.vacateAll (h : Tracks κ s a) (places : List Nat) :
    ∃ list, Tracks κ (places.foldl Slots.vacate s) ⟨list, a.count⟩ := by
  induction places generalizing s a with
  | nil => exact ⟨a.list, h⟩
  | cons p places ih =>
    obtain ⟨_, hp⟩ := h.vacate p
    obtain ⟨list, hl⟩ := ih hp
    exact ⟨list, hl⟩

theorem vacant_vacateAll (places : List Nat) {s : Slots α} {p : Nat} (h : p ∈ places ∨ s.Vacant p) :
    (places.foldl Slots.vacate s).Vacant p := by
  induction places generalizing s with
  | nil => exact h.resolve_left List.not_mem_nil
  | cons q places ih =>
    apply ih
    rcases h with h | h
    · rcases List.mem_cons.1 h with rfl | h
      · exact .inr (vacant_vacate s (.inl rfl))
      · exact .inl h
    · exact .inr (vacant_vacate s (.inr h))

theorem length_vacateAll (places : List Nat) (s : Slots α) :
    (places.foldl Slots.vacate s).slots.length = s.slots.length := by
  induction places generalizing s with
  | nil => rfl
  | cons p places ih => rw [List.foldl_cons, ih, length_vacate]

theorem occupants_clear (s : Slots α) : s.clear.occupants = [] := by
  rw [occupants, List.filterMap_eq_nil_iff]
  intro slot hslot
  obtain ⟨p, hp⟩ := List.mem_iff_getElem?.1 hslot
  have hlt : p < s.slots.length := length_vacateAll (List.range s.slots.length) s ▸ (List.getElem?_eq_some_iff.1 hp).1
  exact vacant_vacateAll _ (.inl (List.mem_range.2 hlt)) slot hp

theorem Tracks.clear (h : Tracks κ s a) : Tracks κ (Registry.clear s) (Registry.clear a) := by
  obtain ⟨list, hl⟩ := h.vacateAll (List.range s.slots.length)
  have hnil : list = [] := by
    have hperm := hl.models.occupants
    rw [show (List.foldl _ s _).occupants = [] from occupants_clear s] at hperm
    exact hperm.nil_eq.symm
  rw [hnil] at hl
  exact hl

end Slots

end Gateway.Signal
