import Gateway.Proofs.Signal.Wiring
/-!
# Four kinds of moves

As far as registrations go, a move makes one keeper lose its link, or makes one gain a
link, or takes all callbacks of a token, perhaps invoking a callback besides
(`Move.rewires`). What is proved of registrations is proved for these kinds of moves.
-/
namespace Gateway.Signal

namespace World

variable {w w' : World Arrivals}

/-! ## Firing -/

theorem kept?_takeAll (n : Nat) (x : Keeper) : (w.takeAll n).1.kept? x = w.kept? x := by
  obtain ⟨tokens, heq⟩ := w.takeAll_eq n
  cases x with
  | token m =>
    simp only [kept?, get?_takeAll]
    split
    · cases w.tokens.get? m <;> rfl
    · rfl
  | connection c => rw [heq]; rfl
  | future f => rw [heq]; rfl

theorem used_takeAll (n : Nat) (o : Owner) : (w.takeAll n).1.Used o ↔ w.Used o := by
  obtain ⟨tokens, heq⟩ := w.takeAll_eq n
  rw [heq]
  cases o <;> rfl

theorem entries_takeAll (n m : Nat) : (w.takeAll n).1.entries m = if n = m then [] else w.entries m := by
  unfold entries
  rw [get?_takeAll]
  split
  · cases w.tokens.get? m <;> rfl
  · rfl

theorem takeAll_snd_eq (n : Nat) : (w.takeAll n).2 = (w.entries n).map (·.2) := by
  rw [takeAll_snd, entries]
  cases w.tokens.get? n <;> rfl

theorem of_get?_takeAll {n m : Nat} {t' : Token Arrivals} (h : (w.takeAll n).1.tokens.get? m = some t') :
    ∃ t, w.tokens.get? m = some t ∧ t'.registry.count = t.registry.count ∧ t'.parent = t.parent ∧
      t'.count = t.count + if n = m then 1 else 0 := by
  rw [get?_takeAll] at h
  by_cases hn : n = m
  · rw [if_pos hn] at h ⊢
    obtain ⟨t, ht, rfl⟩ := Option.map_eq_some_iff.1 h
    exact ⟨t, ht, rfl, rfl, rfl⟩
  · rw [if_neg hn] at h ⊢
    exact ⟨t', h, rfl, rfl, rfl⟩

theorem Linked.takeAll (h : w.Linked) (n : Nat) : (w.takeAll n).1.Linked := by
  have hnext : (w.takeAll n).1.next = w.next := by
    obtain ⟨tokens, heq⟩ := w.takeAll_eq n
    rw [heq]
  constructor
  case token_lt =>
    intro m t' ht'
    obtain ⟨t, ht, -⟩ := of_get?_takeAll ht'
    exact hnext ▸ h.token_lt m t ht
  case used =>
    intro x l o hk
    exact (used_takeAll n o).2 (h.used x l o (kept?_takeAll n x ▸ hk))
  case link_lt =>
    intro x l o hk
    exact hnext ▸ h.link_lt x l o (kept?_takeAll n x ▸ hk)
  case key_lt =>
    intro x l o t' hk ht'
    obtain ⟨t, ht, hcount, -⟩ := of_get?_takeAll ht'
    exact hcount ▸ h.key_lt x l o t (kept?_takeAll n x ▸ hk) ht
  case keeper =>
    intro x y l l' o hx hy
    exact h.keeper x y l l' o (kept?_takeAll n x ▸ hx) (kept?_takeAll n y ▸ hy)
  case sole =>
    intro x y l l' o o' hx hy
    exact h.sole x y l l' o o' (kept?_takeAll n x ▸ hx) (kept?_takeAll n y ▸ hy)
  case kept =>
    intro m e he
    rw [entries_takeAll] at he
    split at he
    · cases he
    · obtain ⟨x, l, hk, hl⟩ := h.kept m e he
      exact ⟨x, l, by rw [kept?_takeAll, hk], hl⟩
  case nodup =>
    intro m
    rw [entries_takeAll]
    split
    · exact .nil
    · exact h.nodup m

/-! ## Changes that do not matter to registrations -/

theorem Used.mono {o : Owner} (ho : w.Used o) (hn : w.next ≤ w'.next)
    (hv : ∀ v cv', v < w.next → w'.condvars.get? v = some cv' →
      ∃ cv, w.condvars.get? v = some cv ∧ cv.nextTicket ≤ cv'.nextTicket)
    (hf : ∀ f u' n, f < w.next → w'.futures.get? f = some u' → u'.source = .firing n none →
      u'.completed = true ∨ ∃ u, w.futures.get? f = some u ∧ u.source = .firing n none ∧ u.completed = u'.completed) :
    w'.Used o := by
  cases o with
  | connection c => exact Nat.lt_of_lt_of_le ho hn
  | child n => exact Nat.lt_of_lt_of_le ho hn
  | wait v ticket =>
    refine ⟨Nat.lt_of_lt_of_le ho.1 hn, fun cv' hcv' => ?_⟩
    obtain ⟨cv, hcv, hle⟩ := hv v cv' ho.1 hcv'
    exact Nat.lt_of_lt_of_le (ho.2 cv hcv) hle
  | firing f =>
    refine ⟨Nat.lt_of_lt_of_le ho.1 hn, fun u' n hu' hs' => ?_⟩
    rcases hf f u' n ho.1 hu' hs' with hc | ⟨u, hu, hs, hc⟩
    · exact hc
    · exact hc ▸ ho.2 u n hu hs

theorem Used.futures {o : Owner} (ho : w.Used o) (hn : w.next ≤ w'.next) (hv : w'.condvars = w.condvars)
    (hf : ∀ f u' n, f < w.next → w'.futures.get? f = some u' → u'.source = .firing n none →
      u'.completed = true ∨ ∃ u, w.futures.get? f = some u ∧ u.source = .firing n none ∧ u.completed = u'.completed) :
    w'.Used o :=
  ho.mono hn (fun _ cv _ hcv => ⟨cv, hv ▸ hcv, Nat.le_refl _⟩) hf

theorem Used.next_le {o : Owner} (ho : w.Used o) (hn : w.next ≤ w'.next) (hv : w'.condvars = w.condvars)
    (hf : w'.futures = w.futures) : w'.Used o :=
  ho.futures hn hv fun _ u _ _ hu hs => .inr ⟨u, hf ▸ hu, hs, rfl⟩

theorem Linked.token_none (h : w.Linked) {n : Nat} (hn : w.next ≤ n) : w.tokens.get? n = none := by
  cases ht : w.tokens.get? n with
  | none => rfl
  | some t => exact absurd (h.token_lt n t ht) (Nat.not_lt.2 hn)

theorem Linked.entries_nil (h : w.Linked) {n : Nat} (hn : w.next ≤ n) : w.entries n = [] := by
  rw [entries, h.token_none hn]
  rfl

/-- Nobody loses a link, and nothing is connected. -/
theorem Loses.steady (h : w.Linked) (hn : w.next ≤ w'.next) (hu : ∀ o, w.Used o → w'.Used o)
    (hk : ∀ x, w'.kept? x = w.kept? x)
    (ht : ∀ n t', w'.tokens.get? n = some t' → (w.next ≤ n ∧ n < w'.next ∧ t'.registry.list = []) ∨
      ∃ t, w.tokens.get? n = some t ∧ t'.registry.list = t.registry.list ∧ t.registry.count ≤ t'.registry.count ∧
        t'.count = t.count ∧ t'.parent = t.parent) : Loses none w w' := by
  refine ⟨⟨hn, hu, fun n t' ht' => ?_⟩, fun y => by rw [hk, if_neg (by simp)], fun n t' ht' => ?_⟩
  · rcases ht n t' ht' with ⟨hle, hlt, -⟩ | ⟨t, ht, -, hcount⟩
    · exact ⟨hlt, .inl hle⟩
    · exact ⟨Nat.lt_of_lt_of_le (h.token_lt n t ht) hn, .inr ⟨t, ht, hcount⟩⟩
  · have hall : (w.entries n).filter (fun e => w.loser? none ≠ some e.2.owner) = w.entries n :=
      List.filter_eq_self.2 fun e _ => decide_eq_true (by simp)
    rw [hall, entries_of_get? ht']
    rcases ht n t' ht' with ⟨hle, -, hlist⟩ | ⟨t, ht, hlist, -⟩
    · rw [hlist, h.entries_nil hle]
    · rw [hlist, entries_of_get? ht]

theorem Loses.kept_eq (hl : Loses none w w') (x : Keeper) : w'.kept? x = w.kept? x := by
  rw [hl.kept]
  exact if_neg (by simp)

theorem Loses.refl (h : w.Linked) : Loses none w w :=
  .steady h (Nat.le_refl _) (fun _ => id) (fun _ => rfl) fun _ t ht => .inr ⟨t, ht, rfl, Nat.le_refl _, rfl, rfl⟩

/-- Tokens and connections are as they were. -/
theorem Loses.futures (h : w.Linked) (hn : w.next ≤ w'.next) (hu : ∀ o, w.Used o → w'.Used o)
    (hc : w'.connections = w.connections) (ht : w'.tokens = w.tokens)
    (hf : ∀ f, (w'.futures.get? f).bind (·.kept? f) = (w.futures.get? f).bind (·.kept? f)) : Loses none w w' := by
  refine .steady h hn hu (fun x => ?_) fun n t' ht' => .inr ⟨t', ht ▸ ht', rfl, Nat.le_refl _, rfl, rfl⟩
  cases x with
  | connection c => rw [kept?, kept?, hc]
  | token n => rw [kept?, kept?, ht]
  | future f => exact hf f

theorem Loses.decides (h : w.Linked) {p : Nat → Prop} [DecidablePred p] {o : Outcome} (hd : Decides p o w w') :
    Loses none w w' := by
  refine .futures h (Nat.le_of_eq hd.next.symm) (fun o ho => ho.mono (Nat.le_of_eq hd.next.symm) ?_ ?_) hd.connections
    hd.tokens fun f => ?_
  · intro v cv' _ hcv'
    obtain ⟨cv, hcv, hticket, -⟩ := hd.condvar v cv' hcv'
    exact ⟨cv, hcv, Nat.le_of_eq hticket⟩
  · intro f u' n _ hu' hs'
    obtain ⟨u, hu, hs, hc, -⟩ := hd.of_get? hu'
    exact .inr ⟨u, hu, hs ▸ hs', hc.symm⟩
  · rw [hd.future f]
    split
    · cases w.futures.get? f with
      | none => rfl
      | some u => simp [Future.kept?]
    · rfl

/-! ## Losing a link -/

theorem entries_unlink (l : Link) (n : Nat) : (w.unlink l).entries n =
    if l.token = n then (w.entries n).filter fun e => e.1 ≠ l.key.place else w.entries n := by
  unfold entries unlink
  rw [Table.get?_modify]
  split
  · cases w.tokens.get? n <;> rfl
  · rfl

theorem of_get?_unlink {l : Link} {n : Nat} {t' : Token Arrivals} (h : (w.unlink l).tokens.get? n = some t') :
    ∃ t, w.tokens.get? n = some t ∧ t'.registry.count = t.registry.count ∧ t'.count = t.count ∧
      t'.parent = t.parent := by
  rw [unlink, Table.get?_modify] at h
  split at h
  · obtain ⟨t, ht, rfl⟩ := Option.map_eq_some_iff.1 h
    exact ⟨t, ht, rfl, rfl, rfl⟩
  · exact ⟨t', h, rfl, rfl, rfl⟩

theorem kept?_unlink (l : Link) (x : Keeper) : (w.unlink l).kept? x = w.kept? x := by
  refine kept?_modifyToken (fun t => ?_) x
  rfl

theorem used_unlink (l : Link) (o : Owner) : (w.unlink l).Used o ↔ w.Used o := by cases o <;> rfl

/-- To disconnect a keeper's link is to disconnect its owner's callback. -/
theorem Linked.filter_owner (h : w.Linked) {x : Keeper} {l : Link} {o : Owner} (hk : w.kept? x = some (l, o))
    (n : Nat) : (if l.token = n then (w.entries n).filter fun e => e.1 ≠ l.key.place else w.entries n) =
      (w.entries n).filter fun e => o ≠ e.2.owner := by
  have hiff : ∀ e ∈ w.entries n, o = e.2.owner ↔ l.token = n ∧ e.1 = l.key.place := by
    intro e he
    obtain ⟨y, l', hy, hn, hp⟩ := h.kept n e he
    constructor
    · rintro rfl
      obtain rfl := h.keeper x y l l' _ hk hy
      obtain ⟨rfl, -⟩ := Prod.mk.inj (Option.some.inj (hk.symm.trans hy))
      exact ⟨hn, hp.symm⟩
    · rintro ⟨hl, he⟩
      exact h.sole x y l l' _ _ hk hy (hl.trans hn.symm) (he.symm.trans hp.symm)
  split
  · rename_i hn
    refine List.filter_congr fun e he => decide_eq_decide.2 (not_congr ?_)
    rw [hiff e he, and_iff_right hn]
  · rename_i hn
    refine (List.filter_eq_self.2 fun e he => ?_).symm
    rw [decide_eq_true_iff]
    exact fun ho => hn ((hiff e he).1 ho).1

/-- A keeper that goes disconnects the link it has, if any. -/
theorem Loses.unlink? (h : w.Linked) {x : Keeper} {l : Option Link} {o : Owner} {v : World Arrivals}
    (hx : w.kept? x = l.map fun l => (l, o)) (hn : w.next = v.next) (hu : ∀ o, w.Used o → v.Used o)
    (hk : ∀ y, v.kept? y = if x = y then none else w.kept? y)
    (ht : ∀ n t, v.tokens.get? n = some t → w.tokens.get? n = some t) : Loses (some x) w (v.unlink? l) := by
  have hsome : ∀ n t, v.tokens.get? n = some t → v.entries n = w.entries n := fun n t hv => by
    rw [entries_of_get? hv, entries_of_get? (ht n t hv)]
  cases l with
  | none =>
    have hloser : w.loser? (some x) = none := by rw [loser?, Option.bind_some, hx]; rfl
    refine ⟨⟨Nat.le_of_eq hn, hu, fun n t hv => ?_⟩, fun y => ?_, fun n t hv => ?_⟩
    · exact ⟨hn ▸ h.token_lt n t (ht n t hv), .inr ⟨t, ht n t hv, Nat.le_refl _, rfl, rfl⟩⟩
    · simp only [Option.some.injEq]
      exact hk y
    · rw [hloser]
      exact (hsome n t hv).trans (List.filter_eq_self.2 fun e _ => decide_eq_true (by simp)).symm
  | some l =>
    have hloser : w.loser? (some x) = some o := by rw [loser?, Option.bind_some, hx]; rfl
    refine ⟨⟨Nat.le_of_eq hn, fun o' ho => (used_unlink l o').2 (hu o' ho), fun n t' hv => ?_⟩, fun y => ?_,
      fun n t' hv => ?_⟩
    · obtain ⟨t, hv', hplace, hcount⟩ := of_get?_unlink hv
      exact ⟨hn ▸ h.token_lt n t (ht n t hv'), .inr ⟨t, ht n t hv', Nat.le_of_eq hplace.symm, hcount⟩⟩
    · rw [World.unlink?, kept?_unlink, hk]
      simp only [Option.some.injEq]
    · obtain ⟨t, hv', -⟩ := of_get?_unlink hv
      rw [World.unlink?, entries_unlink, hsome n t hv', h.filter_owner hx, hloser]
      simp only [ne_eq, Option.some.injEq]

/-! ## Gaining a link -/

/-- The callback is registered with the token `n`, and other tokens are as they were or new. -/
theorem Gains.register (h : w.Linked) {n : Nat} {t : Token Arrivals} (hn : w.tokens.get? n = some t) {x : Keeper}
    {cb : Callback} (hle : w.next ≤ w'.next) (hu : ∀ o, w.Used o → w'.Used o)
    (hk : ∀ y, w'.kept? y = if x = y then some (⟨n, ⟨t.registry.count, 0⟩⟩, cb.owner) else w.kept? y)
    (hx : w.kept? x = none) (hf : ¬ w.Used cb.owner) (ho : w'.Used cb.owner)
    (hn' : w'.tokens.get? n = some { t with registry := (Registry.insert t.registry cb).1 })
    (ht : ∀ m t', n ≠ m → w'.tokens.get? m = some t' →
      w.tokens.get? m = some t' ∨ (w.next ≤ m ∧ m < w'.next ∧ t'.registry.list = [])) :
    Gains x ⟨n, ⟨t.registry.count, 0⟩⟩ cb w w' := by
  have hlt := h.token_lt n t hn
  refine ⟨⟨hle, hu, fun m t' ht' => ?_⟩, hk, hx, fun m t' ht' => ?_, hf, ho, t, _, hn, hn', rfl, Nat.lt_succ_self _⟩
  · by_cases hnm : n = m
    · subst hnm
      obtain rfl := Option.some.inj (hn'.symm.trans ht')
      exact ⟨Nat.lt_of_lt_of_le hlt hle, .inr ⟨t, hn, Nat.le_succ _, rfl, rfl⟩⟩
    · rcases ht m t' hnm ht' with hold | ⟨hnew, hlt', -⟩
      · exact ⟨Nat.lt_of_lt_of_le (h.token_lt m t' hold) hle, .inr ⟨t', hold, Nat.le_refl _, rfl, rfl⟩⟩
      · exact ⟨hlt', .inl hnew⟩
  · rw [entries_of_get? ht']
    by_cases hnm : n = m
    · subst hnm
      obtain rfl := Option.some.inj (hn'.symm.trans ht')
      rw [if_pos rfl, entries_of_get? hn]
      rfl
    · rw [if_neg hnm, List.append_nil]
      rcases ht m t' hnm ht' with hold | ⟨hnew, -, hlist⟩
      · rw [entries_of_get? hold]
      · rw [hlist, h.entries_nil hnew]

/-- That futures are decided afterwards does not matter. -/
theorem Gains.decides {v : World Arrivals} {x : Keeper} {l : Link} {cb : Callback} (hg : Gains x l cb w v)
    (hv : v.Linked) {p : Nat → Prop} [DecidablePred p] {o : Outcome} (hd : Decides p o v w') : Gains x l cb w w' := by
  have hl := Loses.decides hv hd
  have he : ∀ n, w'.entries n = v.entries n := fun n => by rw [World.entries, World.entries, hd.tokens]
  obtain ⟨t, t', ht, ht', hplace⟩ := hg.token_some
  refine ⟨⟨Nat.le_trans hg.next_le hl.next_le, fun o ho => hl.used o (hg.used o ho), fun n t' ht' => ?_⟩,
    fun y => (hl.kept_eq y).trans (hg.kept y), hg.unkept, fun n t' ht' => ?_, hg.fresh, hl.used _ hg.owner,
    t, t', ht, hd.tokens ▸ ht', hplace⟩
  · rw [hd.tokens] at ht'
    exact hd.next ▸ hg.token n t' ht'
  · rw [he, hg.entries n t' (hd.tokens ▸ ht')]

end World

/-! ## The kinds -/

/-- What a move does to registrations. Other than by a firing callbacks become connected or
disconnected one at a time, and always together with the link that is kept to them. -/
inductive Rewires : Standing Arrivals → List Deed → Standing Arrivals → Prop where
  | lose {w w' : World Arrivals} {d h h'} {x : Option Keeper} (hl : World.Loses x w w') :
    Rewires ⟨w, d, h⟩ [] ⟨w', d, h'⟩
  /-- If the token has fired, its new callback has nothing to wait for. -/
  | gain {w w' : World Arrivals} {d h h'} {x : Keeper} {l : Link} {cb : Callback} (hg : World.Gains x l cb w w')
    (hs : ∀ t, w.tokens.get? l.token = some t → t.isFired = true → w'.Settled cb.owner) :
    Rewires ⟨w, d, h⟩ [.register cb] ⟨w', d, h'⟩
  /-- The callback is disconnected again at once. -/
  | flash {w w' : World Arrivals} {d h h'} (cb : Callback) (hl : World.Loses none w w') :
    Rewires ⟨w, d, h⟩ [.register cb] ⟨w', d, h'⟩
  | invoke {w w' : World Arrivals} {d h h'} {cb : Callback} (hcb : ∀ n, cb ≠ .fireChild n)
    (hl : World.Loses none w w') (hs : w'.Settled cb.owner) : Rewires ⟨w, cb :: d, h⟩ [.invoke cb] ⟨w', d, h'⟩
  | fire {w : World Arrivals} {d h h'} (n : Nat) :
    Rewires ⟨w, d, h⟩ [.fire n] ⟨(w.takeAll n).1, (w.takeAll n).2 ++ d, h'⟩
  | fireChild {w : World Arrivals} {d h h'} (n : Nat) :
    Rewires ⟨w, .fireChild n :: d, h⟩ [.invoke (.fireChild n)] ⟨(w.takeAll n).1, (w.takeAll n).2 ++ d, h'⟩

theorem Rewires.linked {a b : Standing Arrivals} {ds : List Deed} (hr : Rewires a ds b) (h : a.world.Linked) :
    b.world.Linked := by
  cases hr with
  | lose hl | flash _ hl | invoke _ hl _ => exact World.Linked.loses h hl
  | gain hg _ => exact World.Linked.gains h hg
  | fire n | fireChild n => exact World.Linked.takeAll h n

/-! ## Every move is of one of these kinds -/

section Moves

open World

variable {w : World Arrivals}

theorem loses_release (h : w.Linked) (n : Nat) : ∃ x, Loses x w (w.release n) := by
  unfold release
  cases hn : w.tokens.get? n with
  | none => exact ⟨none, .refl h⟩
  | some t =>
    dsimp only
    split
    · refine ⟨some (.token n), Loses.unlink? h (o := .child n) ?_ rfl (fun o ho => ?_) (kept?_eraseToken n)
        fun m t ht => ?_⟩
      · rw [kept?, hn, Option.bind_some]
      · exact (used_congr rfl rfl rfl o).2 ho
      · rw [Table.get?_erase] at ht
        split at ht
        · cases ht
        · exact ht
    · refine ⟨none, .steady h (Nat.le_refl _) (fun o => (used_congr rfl rfl rfl o).2) (kept?_insertToken_same hn rfl)
        fun m t' ht' => ?_⟩
      rw [Table.get?_insert] at ht'
      split at ht'
      · rename_i hnm
        cases ht'
        exact .inr ⟨t, hnm ▸ hn, rfl, Nat.le_refl _, rfl, rfl⟩
      · exact .inr ⟨t', ht', rfl, Nat.le_refl _, rfl, rfl⟩

theorem loses_hold (h : w.Linked) (n : Nat) : Loses none w (w.hold n) := by
  refine .steady h (Nat.le_refl _) (fun o => (used_congr rfl rfl rfl o).2) (fun x => ?_) fun m t' ht' => ?_
  · refine kept?_modifyToken (fun t => ?_) x
    rfl
  · replace ht' : (w.tokens.modify n _).get? m = some t' := ht'
    rw [Table.get?_modify] at ht'
    split at ht'
    · obtain ⟨t, ht, rfl⟩ := Option.map_eq_some_iff.1 ht'
      exact .inr ⟨t, ht, rfl, Nat.le_refl _, rfl, rfl⟩
    · exact .inr ⟨t', ht', rfl, Nat.le_refl _, rfl, rfl⟩

theorem loses_makeToken (h : w.Linked) : Loses none w
    { w with next := w.next + 1, tokens := w.tokens.insert w.next { registry := Registry.empty } } := by
  refine .steady h (Nat.le_succ _) (fun o ho => ho.next_le (Nat.le_succ _) rfl rfl) (fun x => ?_) fun n t' ht' => ?_
  · refine (kept?_insertToken (w := w) w.next _ x).trans ?_
    split
    · rename_i hx
      rw [← hx, kept?, h.token_none (Nat.le_refl _)]
      rfl
    · rfl
  · rw [Table.get?_insert] at ht'
    split at ht'
    · rename_i hn
      cases ht'
      exact .inl ⟨Nat.le_of_eq hn, hn ▸ Nat.lt_succ_self _, rfl⟩
    · exact .inr ⟨t', ht', rfl, Nat.le_refl _, rfl, rfl⟩

theorem loses_dropConnection (h : w.Linked) {c : Nat} {k : Connection} (hc : w.connections.get? c = some k) :
    Loses (some (.connection c)) w (w.dropConnection c) := by
  rw [dropConnection, hc]
  refine Loses.unlink? h (l := some k.link) (o := .connection c) ?_ rfl (fun o => (used_congr rfl rfl rfl o).2)
    (kept?_eraseConnection c) fun _ _ ht => ht
  rw [kept?, hc]
  rfl

theorem loses_call (h : w.Linked) (c : Nat) :
    Loses none w { w with connections := w.connections.modify c fun k => { k with count := k.count + 1 } } := by
  refine .steady h (Nat.le_refl _) (fun o => (used_congr rfl rfl rfl o).2) (fun x => ?_)
    fun n t ht => .inr ⟨t, ht, rfl, Nat.le_refl _, rfl, rfl⟩
  refine kept?_modifyConnection (fun k => ?_) x
  rfl

theorem loses_makeCondvar (h : w.Linked) :
    Loses none w { w with next := w.next + 1, condvars := w.condvars.insert w.next {} } := by
  refine .futures h (Nat.le_succ _) (fun o ho => ho.mono (Nat.le_succ _) (fun v cv' hv hcv' => ?_)
    fun f u n _ hu hs => .inr ⟨u, hu, hs, rfl⟩) rfl rfl fun _ => rfl
  rw [Table.get?_insert, if_neg (Nat.ne_of_gt hv)] at hcv'
  exact ⟨cv', hcv', Nat.le_refl _⟩

/-- A future that keeps no link is there instead of what kept none. -/
theorem loses_insertFuture (h : w.Linked) {f : Nat} {u' : Future} (hn : w.next ≤ w'.next)
    (hu : ∀ o, w.Used o → w'.Used o) (hc : w'.connections = w.connections) (ht : w'.tokens = w.tokens)
    (hf : w'.futures = w.futures.insert f u') (hk : u'.kept? f = w.kept? (.future f)) : Loses none w w' := by
  refine .futures h hn hu hc ht fun g => ?_
  rw [hf, Table.bind_insert w.futures (fun f u => u.kept? f)]
  split
  · rename_i hg
    rw [hk, ← hg]
    rfl
  · rfl

/-- A wait is dropped, after it has been withdrawn. -/
theorem loses_dropWait (h : w.Linked) {f v ticket : Nat} {u : Future} {l : Option Link}
    (hf : w.futures.get? f = some u) (hs : u.source = .wait v ticket l) :
    Loses (some (.future f)) w (w.dropFuture f) := by
  have hd := w.decides_abortWait v ticket
  have hl := Loses.decides h hd
  have hk : w.kept? (.future f) = l.map fun l => (l, .wait v ticket) := by
    rw [kept?, hf, Option.bind_some, Future.kept?, hs]
  rw [dropFuture, hf]
  simp only [hs]
  refine Loses.unlink? h hk hd.next.symm (fun o ho => ?_) (fun y => ?_) fun n t ht => hd.tokens ▸ ht
  · refine (hl.used o ho).futures (Nat.le_refl _) rfl fun g u n _ hg hs => ?_
    rw [Table.get?_erase] at hg
    split at hg
    · cases hg
    · exact .inr ⟨u, hg, hs, rfl⟩
  · refine (kept?_eraseFuture (w := w.abortWait v ticket) f y).trans ?_
    rw [hl.kept_eq]

/-- A future for a firing ends or goes, and disconnects. -/
theorem loses_firing (h : w.Linked) {f n : Nat} {u : Future} {l : Option Link} (hf : w.futures.get? f = some u)
    (hs : u.source = .firing n l) (hc : u.completed = false) (futures : Table Nat Future)
    (hfut : ∀ g, f ≠ g → futures.get? g = w.futures.get? g)
    (hend : ∀ u', futures.get? f = some u' → u'.completed = true ∧ u'.source = u.source) :
    Loses (some (.future f)) w (World.unlink? { w with futures := futures } l) := by
  refine Loses.unlink? h (o := .firing f) ?_ rfl (fun o ho => ?_) (fun y => ?_) fun _ _ ht => ht
  · rw [kept?, hf, Option.bind_some, Future.kept?, hs, hc]
    rfl
  · refine ho.futures (Nat.le_refl _) rfl fun g u' m _ hg hsrc => ?_
    by_cases hfg : f = g
    · subst hfg
      exact .inl (hend u' hg).1
    · exact .inr ⟨u', hfut g hfg ▸ hg, hsrc, rfl⟩
  · cases y with
    | connection c => exact (if_neg (by simp)).symm
    | token n => exact (if_neg (by simp)).symm
    | future g =>
      simp only [Keeper.future.injEq]
      split
      · rename_i hfg
        subst hfg
        rw [kept?]
        cases hg : futures.get? f with
        | none => rfl
        | some u' => rw [Option.bind_some, Future.kept?, (hend u' hg).2, hs, (hend u' hg).1]; rfl
      · rename_i hfg
        rw [kept?, hfut g hfg]
        rfl

/-- A future that was registered finds the token fired, and disconnects at once. -/
theorem loses_findFired (h : w.Linked) {f n : Nat} {u : Future} {t : Token Arrivals}
    (hf : w.futures.get? f = some u) (hs : u.source = .firing n none) (hn : w.tokens.get? n = some t) :
    Loses none w (w.findFired f u n t) := by
  refine .steady h (Nat.le_refl _) (fun o ho => ho.futures (Nat.le_refl _) rfl fun g u' m _ hg hsrc => ?_)
    (fun x => ?_) fun m t' ht' => ?_
  · replace hg : (w.futures.insert f _).get? g = some u' := hg
    rw [Table.get?_insert] at hg
    split at hg
    · cases hg
      exact .inl rfl
    · exact .inr ⟨u', hg, hsrc, rfl⟩
  · refine (kept?_insertFuture (w := World.unlink _ _) f { u with completed := true } x).trans ?_
    rw [kept?_unlink]
    split
    · rename_i hx
      rw [← hx, kept?, hf, Option.bind_some, Future.kept?, Future.kept?, hs]
      cases u.completed <;> rfl
    · exact kept?_register hn _ x
  · -- The new key is greater than all others, so only what was registered is removed.
    have hlist : (Registry.remove (Registry.insert t.registry (Callback.complete f)).1
        (Registry.insert t.registry (Callback.complete f)).2).list = t.registry.list := by
      show (t.registry.list ++ [(t.registry.count, Callback.complete f)]).filter (fun e => e.1 ≠ t.registry.count) = _
      rw [List.filter_append, List.filter_singleton, List.filter_eq_self.2]
      · simp
      · intro e he
        obtain ⟨x, l, hk, hl, hp⟩ := h.kept n e (entries_of_get? hn ▸ he)
        have hlt := h.key_lt x l _ t hk (hl ▸ hn)
        rw [decide_eq_true_iff]
        omega
    replace ht' : ((w.tokens.insert n _).modify n _).get? m = some t' := ht'
    rw [Table.get?_modify, Table.get?_insert] at ht'
    by_cases hnm : n = m
    · rw [if_pos hnm, if_pos hnm] at ht'
      cases ht'
      exact .inr ⟨t, hnm ▸ hn, hlist, Nat.le_succ _, rfl, rfl⟩
    · rw [if_neg hnm, if_neg hnm] at ht'
      exact .inr ⟨t', ht', rfl, Nat.le_refl _, rfl, rfl⟩

/-! ### Registrations -/

theorem gains_makeChild (h : w.Linked) {p : Nat} {t : Token Arrivals} (hp : w.tokens.get? p = some t) :
    Gains (.token w.next) ⟨p, ⟨t.registry.count, 0⟩⟩ (.fireChild w.next) w (w.addChild p t) := by
  have hne : w.next ≠ p := (Nat.ne_of_lt (h.token_lt p t hp)).symm
  have htok : ∀ m, (w.addChild p t).tokens.get? m = if w.next = m then
      some { registry := Registry.empty, parent := some ⟨p, ⟨t.registry.count, 0⟩⟩, count := if t.isFired then 1 else 0 }
      else if p = m then some { t with registry := (Registry.insert t.registry (Callback.fireChild w.next)).1 }
      else w.tokens.get? m := by
    intro m
    show ((w.tokens.insert p _).insert w.next _).get? m = _
    rw [Table.get?_insert, Table.get?_insert]
    rfl
  refine .register h hp (Nat.le_succ _) (fun o ho => ho.next_le (Nat.le_succ _) rfl rfl) (fun y => ?_) ?_
    (Nat.lt_irrefl _) (Nat.lt_succ_self _) ?_ fun m t' hm ht' => ?_
  · refine (kept?_insertToken (w := (World.register _ p t _).1) w.next _ y).trans ?_
    split
    · rfl
    · exact (kept?_register (w := { w with next := w.next + 1 }) hp _ y).trans (by cases y <;> rfl)
  · rw [kept?, h.token_none (Nat.le_refl _)]
    rfl
  · rw [htok, if_neg hne, if_pos rfl]
  · rw [htok] at ht'
    split at ht'
    · rename_i hn
      cases ht'
      exact .inr ⟨Nat.le_of_eq hn, hn ▸ Nat.lt_succ_self _, rfl⟩
    · exact .inl ht'

theorem gains_connect (h : w.Linked) {n : Nat} {t : Token Arrivals} (hn : w.tokens.get? n = some t) (name : Name)
    (script : List Command) : Gains (.connection w.next) ⟨n, ⟨t.registry.count, 0⟩⟩ (.script w.next name script) w
      (w.addConnection n t name script) := by
  refine .register h hn (Nat.le_succ _) (fun o ho => ho.next_le (Nat.le_succ _) rfl rfl) (fun y => ?_) ?_
    (Nat.lt_irrefl _) (Nat.lt_succ_self _) ?_ fun m t' hm ht' => ?_
  · refine (kept?_insertConnection (w := (World.register _ n t _).1) w.next _ y).trans ?_
    split
    · rfl
    · exact (kept?_register (w := { w with next := w.next + 1 }) hn _ y).trans (by cases y <;> rfl)
  · rw [kept?]
    cases hc : w.connections.get? w.next with
    | none => rfl
    | some k =>
      have hused := h.used (.connection w.next) k.link (.connection w.next) (by rw [kept?, hc]; rfl)
      exact absurd hused (Nat.lt_irrefl _)
  · exact (Table.get?_insert _ _ _ _).trans (if_pos rfl)
  · exact .inl ((Table.get?_insert _ _ _ _).trans (if_neg hm) ▸ ht')

theorem World.Queued.kept?_next (h : w.Queued) : w.kept? (.future w.next) = none := by
  rw [kept?]
  cases hf : w.futures.get? w.next with
  | none => rfl
  | some u => exact absurd (h.future_lt _ u hf) (Nat.lt_irrefl _)

/-- A new ticket is drawn for a new future. -/
theorem used_addWait {w' : World Arrivals} {v : Nat} {cv : Condvar Nat} {u : Future} (hv : w.condvars.get? v = some cv)
    (hn : w'.next = w.next + 1) (hc : w'.condvars = w.condvars.insert v (cv.register w.next).1)
    (hf : w'.futures = w.futures.insert w.next u) {o : Owner} (ho : w.Used o) : w'.Used o := by
  refine ho.mono (hn ▸ Nat.le_succ _) (fun v' cv' _ hcv' => ?_) fun f u' n hlt hu' hs => .inr ⟨u', ?_, hs, rfl⟩
  · rw [hc, Table.get?_insert] at hcv'
    split at hcv'
    · rename_i hvv
      cases hcv'
      exact ⟨cv, hvv ▸ hv, Nat.le_succ _⟩
    · exact ⟨cv', hcv', Nat.le_refl _⟩
  · rwa [hf, Table.get?_insert, if_neg (Nat.ne_of_gt hlt)] at hu'

theorem gains_waitFor (h : w.Linked) (hq : w.Queued) {v : Nat} {cv : Condvar Nat} (hv : w.condvars.get? v = some cv)
    {n : Nat} {t : Token Arrivals} (hn : w.tokens.get? n = some t) :
    Gains (.future w.next) ⟨n, ⟨t.registry.count, 0⟩⟩ (.abortWait v cv.nextTicket) w (w.addWaitFor v cv n t) := by
  have hgains : Gains (.future w.next) ⟨n, ⟨t.registry.count, 0⟩⟩ (.abortWait v cv.nextTicket) w
      (w.addWaitTo v cv n t) := by
    refine .register h hn (Nat.le_succ _) (fun o ho => used_addWait hv rfl rfl rfl ho) (fun y => ?_) hq.kept?_next ?_ ?_ ?_
      fun m t' hm ht' => ?_
    · refine (kept?_insertFuture (w := (World.register _ n t _).1) w.next _ y).trans ?_
      split
      · rfl
      · exact (kept?_register hn _ y).trans (by cases y <;> rfl)
    · exact fun hused => Nat.lt_irrefl _ (hused.2 cv hv)
    · refine ⟨Nat.lt_succ_of_lt (hq.condvar_lt v cv hv), fun cv' hcv' => ?_⟩
      replace hcv' : (w.condvars.insert v (cv.register w.next).1).get? v = some cv' := hcv'
      rw [Table.get?_insert, if_pos rfl] at hcv'
      cases hcv'
      exact Nat.lt_succ_self _
    · exact (Table.get?_insert _ _ _ _).trans (if_pos rfl)
    · exact .inl ((Table.get?_insert _ _ _ _).trans (if_neg hm) ▸ ht')
  unfold addWaitFor
  dsimp only
  split
  · exact hgains.decides (h.gains hgains) (World.decides_abortWait _ v cv.nextTicket)
  · exact hgains

theorem gains_watchFiring (h : w.Linked) (hq : w.Queued) {f n : Nat} {u : Future} {t : Token Arrivals}
    (hf : w.futures.get? f = some u) (hs : u.source = .firing n none) (hc : u.completed = false)
    (hn : w.tokens.get? n = some t) (name : Name) :
    Gains (.future f) ⟨n, ⟨t.registry.count, 0⟩⟩ (.complete f) w (w.watchFiring f u n t name) := by
  refine .register h hn (Nat.le_refl _) (fun o ho => ho.futures (Nat.le_refl _) rfl fun g u' m _ hg hsrc => ?_)
    (fun y => ?_) ?_ ?_ ?_ ?_ fun m t' hm ht' => ?_
  · replace hg : (w.futures.insert f _).get? g = some u' := hg
    rw [Table.get?_insert] at hg
    split at hg
    · cases hg
      cases hsrc
    · exact .inr ⟨u', hg, hsrc, rfl⟩
  · refine (kept?_insertFuture (w := (World.register _ n t _).1) f _ y).trans ?_
    split
    · rw [Future.kept?, hc]
      rfl
    · exact kept?_register hn _ y
  · rw [kept?, hf, Option.bind_some, Future.kept?, hs]
    cases u.completed <;> rfl
  · exact fun hused => absurd (hused.2 u n hf hs) (by rw [hc]; exact Bool.false_ne_true)
  · refine ⟨hq.future_lt f u hf, fun u' m hu' hs' => ?_⟩
    replace hu' : (w.futures.insert f _).get? f = some u' := hu'
    rw [Table.get?_insert, if_pos rfl] at hu'
    cases hu'
    cases hs'
  · exact (Table.get?_insert _ _ _ _).trans (if_pos rfl)
  · exact .inl ((Table.get?_insert _ _ _ _).trans (if_neg hm) ▸ ht')

/-- A future is changed in what does not matter to registrations. -/
theorem loses_touch (h : w.Linked) {f : Nat} {u u' : Future} (hf : w.futures.get? f = some u)
    (hs : u'.source = u.source) (hk : u'.kept? f = u.kept? f) (hc : u.completed = true → u'.completed = true) :
    Loses none w { w with futures := w.futures.insert f u' } := by
  refine loses_insertFuture h (Nat.le_refl _) (fun o ho => ?_) rfl rfl rfl (by rw [kept?, hf, Option.bind_some, hk])
  cases o with
  | firing g =>
    refine ⟨ho.1, fun u₁ n hg hsrc => ?_⟩
    rw [Table.get?_insert] at hg
    split at hg
    · rename_i hfg
      cases hg
      exact hc (ho.2 u n (hfg ▸ hf) (hs ▸ hsrc))
    · exact ho.2 u₁ n hg hsrc
  | connection c => exact ho
  | child n => exact ho
  | wait v ticket => exact ho

end Moves

theorem Move.rewires {a b : Standing Arrivals} {ds : List Deed} (hm : Move a ds b) (h : a.world.Linked)
    (hq : a.world.Queued) : Rewires a ds b := by
  cases hm with
  | note | rename | nameToken | unnameToken =>
    exact .lose (.steady h (Nat.le_refl _) (fun o => (World.used_congr rfl rfl rfl o).2)
      (fun x => by cases x <;> rfl) fun _ t ht => .inr ⟨t, ht, rfl, Nat.le_refl _, rfl, rfl⟩)
  | hold => exact .lose (loses_hold h _)
  | release n =>
    obtain ⟨x, hx⟩ := loses_release h n
    exact .lose hx
  | makeToken => exact .lose (loses_makeToken h)
  | @makeChild w d h' p t hp =>
    refine .gain (gains_makeChild h hp) fun t₀ ht₀ hfired t' ht' => ?_
    obtain rfl : t = t₀ := Option.some.inj (hp.symm.trans ht₀)
    replace ht' : ((w.tokens.insert p _).insert w.next _).get? w.next = some t' := ht'
    rw [Table.get?_insert, if_pos rfl, hfired] at ht'
    cases ht'
    rfl
  | fire n => exact .fire n
  | fireChild n => exact .fireChild n
  | call c name script => exact .invoke nofun (loses_call h c) trivial
  | abort v ticket =>
    refine .invoke nofun (.decides h (World.decides_abortWait _ v ticket)) fun f u' l hu' hs' => ?_
    obtain ⟨u, hu, hs, -⟩ := (World.decides_abortWait _ v ticket).of_get? hu'
    exact World.Queued.abortWait_decides hq ⟨u, l, hu, hs.symm.trans hs'⟩ hu'
  | complete f =>
    refine .invoke nofun (.decides h (World.decides_deliver _ f .ok)) fun u' hu' => ?_
    rw [World.get?_deliver, if_pos rfl] at hu'
    obtain ⟨u, -, rfl⟩ := Option.map_eq_some_iff.1 hu'
    exact u.isSome_decide_outcome .ok
  | connect hn name script => exact .gain (gains_connect h hn name script) fun _ _ _ => trivial
  | @dropConnection w d _ c =>
    cases hc : w.connections.get? c with
    | none =>
      rw [World.dropConnection, hc]
      exact .lose (.refl h)
    | some k => exact .lose (loses_dropConnection h hc)
  | makeCondvar => exact .lose (loses_makeCondvar h)
  | dropCondvar v => exact .lose (.decides h (World.decides_dropCondvar _ v))
  | notify v => exact .lose (.decides h (World.decides_releaseAll _ v .ok))
  | wait hv =>
    refine .lose (loses_insertFuture h (Nat.le_succ _) (fun o ho => used_addWait hv rfl rfl rfl ho) rfl rfl rfl ?_)
    exact (World.Queued.kept?_next hq).symm
  | @waitFor w d h' v cv n t hv hn =>
    refine .gain (gains_waitFor h hq hv hn) fun t₀ ht₀ hfired f u' l hu' hs' => ?_
    obtain rfl : t = t₀ := Option.some.inj (hn.symm.trans ht₀)
    -- The wait is registered first and aborted then.
    have hadd : (w.addWaitTo v cv n t).Queued := hq.addWait hv rfl rfl rfl
    replace hu' : (World.addWaitFor w v cv n t).futures.get? f = some u' := hu'
    unfold World.addWaitFor at hu'
    simp only [hfired, if_true] at hu'
    obtain ⟨u, hu, hs, -⟩ := (World.decides_abortWait _ v cv.nextTicket).of_get? hu'
    exact World.Queued.abortWait_decides hadd ⟨u, l, hu, hs.symm.trans hs'⟩ hu'
  | endWait hf hs ho =>
    exact .lose (loses_touch h hf rfl (by rw [Future.kept?, Future.kept?, hs]) fun _ => rfl)
  | dropWait hf hs => exact .lose (loses_dropWait h hf hs)
  | cancelled n =>
    refine .lose (loses_insertFuture h (Nat.le_succ _) (fun o ho => ?_) rfl rfl rfl (World.Queued.kept?_next hq).symm)
    refine ho.futures (Nat.le_succ _) rfl fun f u m hlt hu hs => .inr ⟨u, ?_, hs, rfl⟩
    rwa [Table.get?_insert, if_neg (Nat.ne_of_gt hlt)] at hu
  | watch hf name => exact .lose (loses_touch h hf rfl rfl id)
  | watchFiring hf hs hc hn ht name =>
    refine .gain (gains_watchFiring h hq hf hs hc hn name) fun t₀ ht₀ hfired => ?_
    obtain rfl := Option.some.inj (hn.symm.trans ht₀)
    exact absurd (ht.symm.trans hfired) Bool.false_ne_true
  | findFired hf hs hc hn ht => exact .flash _ (loses_findFired h hf hs hn)
  | @endFiring w d _ f u n l o hf hs ho hc =>
    refine .lose (loses_firing h hf hs hc (w.futures.insert f { u with completed := true }) (fun g hg => ?_)
      fun u' hu' => ?_)
    · rw [Table.get?_insert, if_neg hg]
    · rw [Table.get?_insert, if_pos rfl] at hu'
      cases hu'
      exact ⟨rfl, rfl⟩
  | @dropEnded w d _ f u n l hf hs hc =>
    refine .lose (.futures h (Nat.le_refl _) (fun o ho => ?_) rfl rfl fun g => ?_)
    · refine ho.futures (Nat.le_refl _) rfl fun g u m _ hg hs => .inr ⟨u, ?_, hs, rfl⟩
      rw [Table.get?_erase] at hg
      split at hg
      · cases hg
      · exact hg
    · refine Table.bind_erase_same (g := fun f (u : Future) => u.kept? f) ?_ g
      rw [hf, Option.bind_some, Future.kept?, hs, hc]
      rfl
  | dropFiring hf hs hc =>
    refine .lose (loses_firing h hf hs hc _ (fun g hg => ?_) fun u' hu' => ?_)
    · rw [Table.get?_erase, if_neg hg]
    · rw [Table.get?_erase, if_pos rfl] at hu'
      cases hu'

end Gateway.Signal
