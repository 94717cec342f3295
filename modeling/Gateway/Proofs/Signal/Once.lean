import Gateway.Proofs.Signal.Rewires
/-!
# Callbacks are invoked at most once

In any run from the empty world on, no callback is invoked twice, and none that is still
connected has been invoked (`Moment.Reaches.once`). A callback that is not connected at
some moment, or no longer, is invoked after it only if a firing in progress had taken it
(`Moves.due_of_unkept`).
-/
namespace Gateway.Signal

/-! ## What holds at every moment -/

/-- Registrations and queues are in order, which holds of any world that a run comes to. Both are
needed to tell what a move does to registrations (`Move.rewires`). -/
structure World.Sound (w : World Arrivals) : Prop where
  linked : w.Linked
  queued : w.Queued

theorem World.sound_empty : ({} : World Arrivals).Sound := ⟨linked_empty, queued_empty⟩

/-- What every move of one of the four kinds keeps holds after any moves. -/
theorem Moves.keeps {a b : Standing Arrivals} {ds : List Deed} (hm : Moves a ds b) (hs : a.world.Sound)
    {P : List Deed → Standing Arrivals → Prop} (ha : P [] a)
    (hstep : ∀ ds b ds' c, P ds b → b.world.Sound → Move b ds' c → Rewires b ds' c → P (ds ++ ds') c) :
    b.world.Sound ∧ P ds b := by
  induction hm with
  | refl => exact ⟨hs, ha⟩
  | move _ hm ih =>
    obtain ⟨hb, hP⟩ := ih
    have hr := hm.rewires hb.linked hb.queued
    exact ⟨⟨hr.linked hb.linked, hm.queued hb.queued⟩, hstep _ _ _ _ hP hb hm hr⟩

theorem Moves.sound {a b : Standing Arrivals} {ds : List Deed} (hm : Moves a ds b) (hs : a.world.Sound) :
    b.world.Sound :=
  (hm.keeps hs (P := fun _ _ => True) trivial fun _ _ _ _ _ _ _ _ => trivial).1

/-! ## Once -/

/-- Each of the callbacks that are gone from their tokens is gone for good. -/
structure World.Gone (w : World Arrivals) (gone : List Callback) : Prop where
  nodup : (gone.map Callback.owner).Nodup
  used : ∀ cb ∈ gone, w.Used cb.owner
  free : ∀ cb ∈ gone, ∀ n, ∀ e ∈ w.entries n, e.2.owner ≠ cb.owner

namespace World

variable {w w' : World Arrivals} {gone : List Callback}

theorem Gone.perm {gone' : List Callback} (h : w.Gone gone) (hp : gone.Perm gone') : w.Gone gone' :=
  ⟨(hp.map Callback.owner).nodup_iff.1 h.nodup, fun cb hcb => h.used cb (hp.mem_iff.2 hcb),
    fun cb hcb => h.free cb (hp.mem_iff.2 hcb)⟩

theorem Loses.mem_entries {x : Option Keeper} (hl : Loses x w w') {n : Nat} {e : Nat × Callback}
    (he : e ∈ w'.entries n) : e ∈ w.entries n := by
  obtain ⟨t', ht', -⟩ := get?_of_mem_entries he
  rw [hl.entries n t' ht'] at he
  exact List.mem_of_mem_filter he

/-- Nothing is disconnected but the callback of the keeper that loses its link. -/
theorem Loses.connected {x : Option Keeper} (hl : Loses x w w') (h : w.Linked) {y : Keeper} {l : Link} {cb : Callback}
    (hy : w.kept? y = some (l, cb.owner)) (hxy : x ≠ some y) (he : (l.key.place, cb) ∈ w.entries l.token)
    {t' : Token Arrivals} (ht' : w'.tokens.get? l.token = some t') : (l.key.place, cb) ∈ w'.entries l.token := by
  rw [hl.entries l.token t' ht']
  refine List.mem_filter.2 ⟨he, decide_eq_true fun hloser => hxy ?_⟩
  obtain ⟨⟨l', o⟩, hx, ho⟩ := Option.map_eq_some_iff.1 hloser
  obtain ⟨z, rfl, hz⟩ := Option.bind_eq_some_iff.1 hx
  obtain rfl : o = cb.owner := ho
  exact congrArg some (h.keeper z y l' l _ hz hy)

theorem Gains.connected {x : Keeper} {l' : Link} {cb' : Callback} (hg : Gains x l' cb' w w') {n : Nat} {e : Nat × Callback}
    (he : e ∈ w.entries n) {t' : Token Arrivals} (ht' : w'.tokens.get? n = some t') : e ∈ w'.entries n := by
  rw [hg.entries n t' ht']
  exact List.mem_append_left _ he

theorem Gone.loses (h : w.Gone gone) {x : Option Keeper} (hl : Loses x w w') : w'.Gone gone :=
  ⟨h.nodup, fun cb hcb => hl.used _ (h.used cb hcb), fun cb hcb n _ he => h.free cb hcb n _ (hl.mem_entries he)⟩

theorem Gone.gains (h : w.Gone gone) {x : Keeper} {l : Link} {cb : Callback} (hg : Gains x l cb w w') :
    w'.Gone gone := by
  refine ⟨h.nodup, fun cb' hcb => hg.used _ (h.used cb' hcb), fun cb' hcb n e he => ?_⟩
  obtain ⟨t', ht', -⟩ := get?_of_mem_entries he
  rw [hg.entries n t' ht'] at he
  rcases List.mem_append.1 he with he | he
  · exact h.free cb' hcb n e he
  · split at he
    · obtain rfl := List.mem_singleton.1 he
      exact fun ho => hg.fresh (ho ▸ h.used cb' hcb)
    · cases he

/-- What a firing takes was not gone before, and is not connected elsewhere. -/
theorem Gone.takeAll (h : w.Gone gone) (hl : w.Linked) (n : Nat) :
    (w.takeAll n).1.Gone ((w.takeAll n).2 ++ gone) := by
  have hmem : ∀ cb ∈ (w.takeAll n).2, ∃ k, (k, cb) ∈ w.entries n := by
    intro cb hcb
    rw [takeAll_snd_eq] at hcb
    obtain ⟨e, he, rfl⟩ := List.mem_map.1 hcb
    exact ⟨e.1, he⟩
  refine ⟨?_, fun cb hcb => (used_takeAll n _).2 ?_, fun cb hcb m e he => ?_⟩
  · -- What is connected has an owner that is not gone.
    rw [List.map_append, takeAll_snd_eq, List.map_map]
    refine List.nodup_append.2 ⟨hl.nodup n, h.nodup, ?_⟩
    intro o ho o' ho'
    obtain ⟨e, he, rfl⟩ := List.mem_map.1 ho
    obtain ⟨cb, hcb, rfl⟩ := List.mem_map.1 ho'
    exact h.free cb hcb n e he
  · rcases List.mem_append.1 hcb with hcb | hcb
    · obtain ⟨k, he⟩ := hmem cb hcb
      obtain ⟨x, l, hk, -⟩ := hl.kept n _ he
      exact hl.used x l _ hk
    · exact h.used cb hcb
  · rw [entries_takeAll] at he
    split at he
    · cases he
    · rename_i hnm
      rcases List.mem_append.1 hcb with hcb | hcb
      · -- An owner's one link leads to one token.
        obtain ⟨k, hk⟩ := hmem cb hcb
        obtain ⟨x, l, hx, hln, -⟩ := hl.kept n _ hk
        obtain ⟨y, l', hy, hlm, -⟩ := hl.kept m e he
        intro ho
        rw [ho] at hy
        obtain rfl := hl.keeper x y l l' _ hx hy
        obtain ⟨rfl, -⟩ := Prod.mk.inj (Option.some.inj (hx.symm.trans hy))
        exact hnm (hln.symm.trans hlm)
      · exact h.free cb hcb m e he

end World

theorem Rewires.gone {a b : Standing Arrivals} {ds : List Deed} (hr : Rewires a ds b) (hl : a.world.Linked)
    {invoked : List Callback} (h : a.world.Gone (invoked ++ a.due)) :
    b.world.Gone (invoked ++ ds.filterMap Deed.invoked? ++ b.due) := by
  cases hr with
  | lose hlose | flash _ hlose =>
    simp only [List.filterMap_cons, List.filterMap_nil, Deed.invoked?, List.append_nil]
    exact World.Gone.loses h hlose
  | gain hg _ =>
    simp only [List.filterMap_cons, List.filterMap_nil, Deed.invoked?, List.append_nil]
    exact World.Gone.gains h hg
  | invoke _ hlose _ =>
    simp only [List.filterMap_cons, List.filterMap_nil, Deed.invoked?, List.append_assoc]
    exact World.Gone.loses h hlose
  | fire n =>
    simp only [List.filterMap_cons, List.filterMap_nil, Deed.invoked?, List.append_nil]
    exact (World.Gone.takeAll h hl n).perm (List.perm_append_comm_assoc _ _ _)
  | fireChild n =>
    simp only [List.filterMap_cons, List.filterMap_nil, Deed.invoked?]
    refine (World.Gone.takeAll h hl n).perm ((List.perm_append_comm_assoc _ _ _).trans ?_)
    rw [List.append_assoc]
    exact List.Perm.append_left _ List.perm_middle

/-- What is invoked was not invoked before. -/
theorem World.Gone.notMem {w : World Arrivals} {invoked due : List Callback} (cb : Callback)
    (h : w.Gone (invoked ++ cb :: due)) : cb ∉ invoked := by
  have hnodup : (invoked ++ cb :: due).Nodup :=
    List.Pairwise.of_map Callback.owner (fun _ _ hne he => hne (congrArg _ he)) h.nodup
  exact fun hcb => (List.nodup_append.1 hnodup).2.2 cb hcb cb List.mem_cons_self rfl

theorem Moves.gone {a b : Standing Arrivals} {ds : List Deed} (hm : Moves a ds b) (hs : a.world.Sound)
    (h : a.world.Gone a.due) : b.world.Gone (ds.filterMap Deed.invoked? ++ b.due) := by
  refine (hm.keeps hs (P := fun ds b => b.world.Gone (ds.filterMap Deed.invoked? ++ b.due)) h ?_).2
  intro ds b ds' c hP hb _ hr
  rw [List.filterMap_append]
  exact hr.gone hb.linked hP

/-- What holds at every moment of a run. -/
theorem Moment.Reaches.once {done : List (World Arrivals × Task)} {m : Moment Arrivals}
    (hr : Moment.Reaches ({} : Moment Arrivals) done m) :
    m.world.Sound ∧ m.world.Gone ((done.filterMap fun e => e.2.callback?) ++ m.standing.due) := by
  have hgone := hr.moves.gone World.sound_empty ⟨.nil, nofun, nofun⟩
  rw [Deed.filterMap_deedsOf World.invoked_deeds] at hgone
  exact ⟨hr.moves.sound World.sound_empty, hgone⟩

/-! ## Owners without a link -/

theorem Rewires.next_le {a b : Standing Arrivals} {ds : List Deed} (hr : Rewires a ds b) :
    a.world.next ≤ b.world.next := by
  cases hr with
  | lose hl | flash _ hl | invoke _ hl _ => exact hl.next_le
  | gain hg _ => exact hg.next_le
  | @fire w _ _ _ n | @fireChild w _ _ _ n =>
    obtain ⟨tokens, heq⟩ := w.takeAll_eq n
    exact Nat.le_of_eq (by rw [heq])

theorem Rewires.used {a b : Standing Arrivals} {ds : List Deed} (hr : Rewires a ds b) {o : Owner}
    (ho : a.world.Used o) : b.world.Used o := by
  cases hr with
  | lose hl | flash _ hl | invoke _ hl _ => exact hl.used o ho
  | gain hg _ => exact hg.used o ho
  | fire n | fireChild n => exact (World.used_takeAll n o).2 ho

/-- No keeper gets a link to a callback of an owner that had one before. -/
theorem Rewires.of_kept? {a b : Standing Arrivals} {ds : List Deed} (hr : Rewires a ds b) {o : Owner}
    (ho : a.world.Used o) {x : Keeper} {l : Link} (hx : b.world.kept? x = some (l, o)) :
    a.world.kept? x = some (l, o) := by
  cases hr with
  | lose hl | flash _ hl | invoke _ hl _ =>
    rw [hl.kept] at hx
    split at hx
    · cases hx
    · exact hx
  | gain hg _ =>
    rw [hg.kept] at hx
    split at hx
    · obtain ⟨-, rfl⟩ := Prod.mk.inj (Option.some.inj hx)
      exact absurd ho hg.fresh
    · exact hx
  | fire n | fireChild n => rwa [World.kept?_takeAll] at hx

/-- A callback whose owner keeps no link is never taken again. -/
theorem Moves.due_of_unkept {a b : Standing Arrivals} {ds : List Deed} (hm : Moves a ds b) (hs : a.world.Sound)
    (cb : Callback) (ho : a.world.Used cb.owner) (hk : ∀ x l, a.world.kept? x ≠ some (l, cb.owner)) :
    (∀ x l, b.world.kept? x ≠ some (l, cb.owner)) ∧ (cb ∈ b.due ∨ .invoke cb ∈ ds → cb ∈ a.due) := by
  let P := fun (ds : List Deed) (b : Standing Arrivals) => b.world.Used cb.owner ∧
    (∀ x l, b.world.kept? x ≠ some (l, cb.owner)) ∧ (cb ∈ b.due ∨ .invoke cb ∈ ds → cb ∈ a.due)
  suffices hP : P ds b from hP.2
  refine (hm.keeps hs (P := P) ⟨ho, hk, fun hor => hor.resolve_right (List.not_mem_nil)⟩ ?_).2
  rintro ds b ds' c ⟨hused, hkept, hdue⟩ hb _ hr
  -- What is connected has a keeper, so nothing of this owner is taken.
  have htaken : ∀ n, cb ∉ (b.world.takeAll n).2 := by
    intro n hcb
    rw [World.takeAll_snd_eq] at hcb
    obtain ⟨e, he, rfl⟩ := List.mem_map.1 hcb
    obtain ⟨x, l, hx, -⟩ := hb.linked.kept n e he
    exact hkept x l hx
  refine ⟨hr.used hused, fun x l hx => hkept x l (hr.of_kept? hused hx), fun hor => hdue ?_⟩
  cases hr with
  | lose | flash | gain => simpa using hor
  | @invoke _ _ _ _ _ cb' _ _ _ =>
    rcases hor with hor | hor
    · exact .inl (List.mem_cons_of_mem _ hor)
    · rcases List.mem_append.1 hor with hor | hor
      · exact .inr hor
      · cases List.mem_singleton.1 hor
        exact .inl List.mem_cons_self
  | fire n =>
    rcases hor with hor | hor
    · exact .inl ((List.mem_append.1 hor).resolve_left (htaken n))
    · exact .inr (by simpa using hor)
  | fireChild n =>
    rcases hor with hor | hor
    · exact .inl (List.mem_cons_of_mem _ ((List.mem_append.1 hor).resolve_left (htaken n)))
    · rcases List.mem_append.1 hor with hor | hor
      · exact .inr hor
      · cases List.mem_singleton.1 hor
        exact .inl List.mem_cons_self

end Gateway.Signal
