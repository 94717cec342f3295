import Gateway.Proofs.Signal.Once
/-!
# No firing is missed

Whoever is connected to a token that has ever fired is settled, or its callback is due in
a firing in progress (`World.Signalled`). This holds between any two moves, though a
child, a wait or a future first connects to its token and then looks whether it has fired.
-/
namespace Gateway.Signal

namespace World

variable {w w' : World Arrivals}

/-- Where the tokens `fired` have ever fired, and the callbacks `due` are taken and not invoked yet. -/
structure Signalled (fired : Nat → Prop) (due : List Callback) (w : World Arrivals) : Prop where
  lt : ∀ n, fired n → n < w.next
  isFired : ∀ n t, w.tokens.get? n = some t → (fired n ↔ t.isFired = true)
  connected : ∀ x l o t, w.kept? x = some (l, o) → ¬ fired l.token → w.tokens.get? l.token = some t →
    ∃ cb, (l.key.place, cb) ∈ w.entries l.token
  settled : ∀ x l o, w.kept? x = some (l, o) → fired l.token → w.Settled o ∨ ∃ cb ∈ due, cb.owner = o

theorem signalled_empty : ({} : World Arrivals).Signalled (fun _ => False) [] := by
  have hkept : ∀ x, ({} : World Arrivals).kept? x = none := fun x => by cases x <;> rfl
  refine ⟨fun _ => False.elim, fun _ _ h => (nomatch h), ?_, ?_⟩ <;> simp [hkept]

/-- What is connected by a link is its owner's callback. -/
theorem Linked.owner_eq (h : w.Linked) {x : Keeper} {l : Link} {o : Owner} (hk : w.kept? x = some (l, o))
    {cb : Callback} (he : (l.key.place, cb) ∈ w.entries l.token) : cb.owner = o := by
  obtain ⟨y, l', hy, hl, hp⟩ := h.kept _ _ he
  exact (h.sole x y l l' _ _ hk hy hl.symm hp.symm).symm

theorem Settled.mono {o : Owner} (hs : w.Settled o) (hu : w.Used o)
    (ht : ∀ n t', n < w.next → w'.tokens.get? n = some t' →
      ∃ t, w.tokens.get? n = some t ∧ (t.isFired = true → t'.isFired = true))
    (hf : ∀ f u', w'.futures.get? f = some u' →
      (f = w.next ∧ w.New u') ∨ ∃ u, w.futures.get? f = some u ∧ w.GoesOn u u') : w'.Settled o := by
  cases o with
  | connection c => trivial
  | child n =>
    intro t' ht'
    obtain ⟨t, hn, hfired⟩ := ht n t' hu ht'
    exact hfired (hs t hn)
  | wait v ticket =>
    intro f u' l hu' hs'
    rcases hf f u' hu' with ⟨-, -, hnew⟩ | ⟨u, hold, hout, -, hsrc⟩
    · -- A new wait has a ticket that was not given before.
      obtain ⟨cv, hcv, rfl⟩ := hnew v ticket l hs'
      exact absurd (hu.2 cv hcv) (Nat.lt_irrefl _)
    · rcases hsrc with hsrc | ⟨n, l', t, -, hsrc, -⟩
      · exact hout (hs f u l hold (hsrc ▸ hs'))
      · rw [hs'] at hsrc
        cases hsrc
  | firing f =>
    intro u' hu'
    rcases hf f u' hu' with ⟨rfl, -⟩ | ⟨u, hold, hout, -⟩
    · exact absurd hu.1 (Nat.lt_irrefl _)
    · exact hout (hs u hold)

/-- The tokens that have fired after a move. -/
def Later (fired : Nat → Prop) (w' : World Arrivals) (n : Nat) : Prop :=
  fired n ∨ ∃ t', w'.tokens.get? n = some t' ∧ t'.isFired = true

variable {fired : Nat → Prop} {due : List Callback}

section Continues

variable (h : w.Signalled fired due) (hc : Continues w w')
include h hc

/-- No token that was there has fired meanwhile. -/
theorem Signalled.later_iff {n : Nat} (hn : n < w.next) : Later fired w' n ↔ fired n := by
  refine ⟨fun hl => hl.elim id fun ⟨t', ht', hf⟩ => ?_, .inl⟩
  rcases (hc.token n t' ht').2 with hle | ⟨t, ht, -, hcount, -⟩
  · exact absurd hn (Nat.not_lt.2 hle)
  · rw [Token.isFired, hcount] at hf
    exact (h.isFired n t ht).2 hf

theorem Signalled.later_lt (n : Nat) (hl : Later fired w' n) : n < w'.next :=
  hl.elim (fun hf => Nat.lt_of_lt_of_le (h.lt n hf) hc.next_le) fun ⟨t', ht', _⟩ => (hc.token n t' ht').1

theorem Signalled.later_isFired (n : Nat) (t' : Token Arrivals) (ht' : w'.tokens.get? n = some t') :
    Later fired w' n ↔ t'.isFired = true := by
  constructor
  · rintro (hf | ⟨t₁, ht₁, hf⟩)
    · rcases (hc.token n t' ht').2 with hle | ⟨t, ht, -, hcount, -⟩
      · exact absurd (h.lt n hf) (Nat.not_lt.2 hle)
      · rw [Token.isFired, hcount]
        exact (h.isFired n t ht).1 hf
    · obtain rfl := Option.some.inj (ht₁.symm.trans ht')
      exact hf
  · exact fun hf => .inr ⟨t', ht', hf⟩

omit h in
theorem Continues.isFired {n : Nat} {t' : Token Arrivals} (hn : n < w.next) (ht' : w'.tokens.get? n = some t') :
    ∃ t, w.tokens.get? n = some t ∧ (t.isFired = true → t'.isFired = true) := by
  rcases (hc.token n t' ht').2 with hle | ⟨t, ht, -, hcount, -⟩
  · exact absurd hn (Nat.not_lt.2 hle)
  · exact ⟨t, ht, fun hf => by rwa [Token.isFired, hcount]⟩

end Continues

/-! ## The kinds of moves -/

theorem Signalled.loses (h : w.Signalled fired due) (hl : w.Linked) {x : Option Keeper} (hlose : Loses x w w')
    (hmono : ∀ o, w.Used o → w.Settled o → w'.Settled o) : w'.Signalled (Later fired w') due := by
  have hold : ∀ y l o, w'.kept? y = some (l, o) → x ≠ some y ∧ w.kept? y = some (l, o) := by
    intro y l o hy
    rw [hlose.kept] at hy
    split at hy
    · cases hy
    · exact ⟨by assumption, hy⟩
  refine ⟨h.later_lt hlose.toContinues, h.later_isFired hlose.toContinues, ?_, ?_⟩
  · intro y l o t' hy hnf ht'
    obtain ⟨hxy, hk⟩ := hold y l o hy
    have hlt := hl.link_lt y l o hk
    obtain ⟨t, ht, -⟩ := hlose.toContinues.isFired hlt ht'
    obtain ⟨cb, he⟩ := h.connected y l o t hk (fun hf => hnf (.inl hf)) ht
    obtain rfl := hl.owner_eq hk he
    exact ⟨cb, hlose.connected hl hk hxy he ht'⟩
  · intro y l o hy hf
    obtain ⟨-, hk⟩ := hold y l o hy
    rw [h.later_iff hlose.toContinues (hl.link_lt y l o hk)] at hf
    exact (h.settled y l o hk hf).imp_left (hmono o (hl.used y l o hk))

theorem Signalled.gains (h : w.Signalled fired due) (hl : w.Linked) {x : Keeper} {l : Link} {cb : Callback}
    (hg : Gains x l cb w w') (hmono : ∀ o, w.Used o → w.Settled o → w'.Settled o)
    (hs : ∀ t, w.tokens.get? l.token = some t → t.isFired = true → w'.Settled cb.owner) :
    w'.Signalled (Later fired w') due := by
  have hold : ∀ y l' o, w'.kept? y = some (l', o) → (l' = l ∧ o = cb.owner) ∨ w.kept? y = some (l', o) := by
    intro y l' o hy
    rw [hg.kept] at hy
    split at hy
    · cases hy
      exact .inl ⟨rfl, rfl⟩
    · exact .inr hy
  obtain ⟨t₀, t₁, ht₀, -, -⟩ := hg.token_some
  refine ⟨h.later_lt hg.toContinues, h.later_isFired hg.toContinues, ?_, ?_⟩
  · intro y l' o t' hy hnf ht'
    rcases hold y l' o hy with ⟨rfl, -⟩ | hk
    · refine ⟨cb, ?_⟩
      rw [hg.entries _ t' ht', if_pos rfl]
      exact List.mem_append_right _ (List.mem_singleton_self _)
    · have hlt := hl.link_lt y l' o hk
      obtain ⟨t, ht, -⟩ := hg.toContinues.isFired hlt ht'
      obtain ⟨cb', he⟩ := h.connected y l' o t hk (fun hf => hnf (.inl hf)) ht
      exact ⟨cb', hg.connected he ht'⟩
  · intro y l' o hy hf
    rcases hold y l' o hy with ⟨rfl, rfl⟩ | hk
    · rw [h.later_iff hg.toContinues (hl.token_lt _ t₀ ht₀)] at hf
      exact .inl (hs t₀ ht₀ ((h.isFired _ t₀ ht₀).1 hf))
    · rw [h.later_iff hg.toContinues (hl.link_lt y l' o hk)] at hf
      exact (h.settled y l' o hk hf).imp_left (hmono o (hl.used y l' o hk))

/-- Whoever is connected when a token fires for the first time has its callback taken. -/
theorem Signalled.takeAll (h : w.Signalled fired due) (hl : w.Linked) (n : Nat)
    (hmono : ∀ o, w.Used o → w.Settled o → (w.takeAll n).1.Settled o) :
    (w.takeAll n).1.Signalled (Later fired (w.takeAll n).1) ((w.takeAll n).2 ++ due) := by
  have hnext : (w.takeAll n).1.next = w.next := by
    obtain ⟨tokens, heq⟩ := w.takeAll_eq n
    rw [heq]
  constructor
  case lt =>
    rintro m (hf | ⟨t', ht', -⟩)
    · exact hnext ▸ h.lt m hf
    · obtain ⟨t, ht, -⟩ := of_get?_takeAll ht'
      exact hnext ▸ hl.token_lt m t ht
  case isFired =>
    intro m t' ht'
    constructor
    · rintro (hf | ⟨t₁, ht₁, hf⟩)
      · obtain ⟨t, ht, -, -, hcount⟩ := of_get?_takeAll ht'
        have hpos := (h.isFired m t ht).1 hf
        rw [Token.isFired, decide_eq_true_iff] at hpos ⊢
        omega
      · obtain rfl := Option.some.inj (ht₁.symm.trans ht')
        exact hf
    · exact fun hf => .inr ⟨t', ht', hf⟩
  case connected =>
    intro x l o t' hk hnf ht'
    rw [kept?_takeAll] at hk
    have hn : n ≠ l.token := by
      intro hn
      obtain ⟨t, ht, -, -, hcount⟩ := of_get?_takeAll ht'
      refine hnf (.inr ⟨t', ht', ?_⟩)
      rw [if_pos hn] at hcount
      rw [Token.isFired, decide_eq_true_iff]
      omega
    obtain ⟨t, ht, -⟩ := of_get?_takeAll ht'
    rw [entries_takeAll, if_neg hn]
    exact h.connected x l o t hk (fun hf => hnf (.inl hf)) ht
  case settled =>
    intro x l o hk hf
    rw [kept?_takeAll] at hk
    by_cases hold : fired l.token
    · rcases h.settled x l o hk hold with hset | ⟨cb, hcb, ho⟩
      · exact .inl (hmono o (hl.used x l o hk) hset)
      · exact .inr ⟨cb, List.mem_append_right _ hcb, ho⟩
    · -- It is the token's first firing, so the owner is still connected to it and gets taken.
      obtain ⟨t', ht', hfired⟩ := hf.resolve_left hold
      obtain ⟨t, ht, -, -, hcount⟩ := of_get?_takeAll ht'
      have hn : n = l.token := by
        by_contra hn
        rw [if_neg hn] at hcount
        rw [Token.isFired, hcount] at hfired
        exact hold ((h.isFired _ t ht).2 hfired)
      subst hn
      obtain ⟨cb, he⟩ := h.connected x l o t hk hold ht
      refine .inr ⟨cb, List.mem_append_left _ ?_, hl.owner_eq hk he⟩
      rw [takeAll_snd_eq]
      exact List.mem_map.2 ⟨_, he, rfl⟩

/-- Those whose owners are settled need not be due. -/
theorem Signalled.invoked {due' : List Callback} (h : w.Signalled fired due)
    (hdue : ∀ cb ∈ due, cb ∈ due' ∨ w.Settled cb.owner) : w.Signalled fired due' := by
  refine { h with settled := fun x l o hk hf => ?_ }
  rcases h.settled x l o hk hf with hset | ⟨cb, hcb, rfl⟩
  · exact .inl hset
  · exact (hdue cb hcb).elim (fun hcb => .inr ⟨cb, hcb, rfl⟩) .inl

/-- A child that is fired by its parent is settled. -/
theorem settled_takeAll (n : Nat) : (w.takeAll n).1.Settled (.child n) := by
  intro t' ht'
  obtain ⟨t, -, -, -, hcount⟩ := of_get?_takeAll ht'
  rw [if_pos rfl] at hcount
  rw [Token.isFired, decide_eq_true_iff]
  omega

end World

/-! ## Runs -/

theorem Rewires.signalled {a b : Standing Arrivals} {ds : List Deed} (hr : Rewires a ds b) (hm : Move a ds b)
    (hl : a.world.Linked) {fired : Nat → Prop} (h : a.world.Signalled fired a.due) :
    b.world.Signalled (World.Later fired b.world) b.due := by
  have hfut : ∀ f u', b.world.futures.get? f = some u' →
      (f = a.world.next ∧ a.world.New u') ∨ ∃ u, a.world.futures.get? f = some u ∧ a.world.GoesOn u u' :=
    fun f u' => hm.future
  have htake : ∀ {w : World Arrivals} {n m : Nat} {t' : Token Arrivals}, (w.takeAll n).1.tokens.get? m = some t' →
      ∃ t, w.tokens.get? m = some t ∧ (t.isFired = true → t'.isFired = true) := by
    intro w n m t' ht'
    obtain ⟨t, ht, -, -, hcount⟩ := World.of_get?_takeAll ht'
    refine ⟨t, ht, fun hf => ?_⟩
    rw [Token.isFired, decide_eq_true_iff] at hf ⊢
    omega
  cases hr with
  | lose hlose | flash _ hlose =>
    exact World.Signalled.loses h hl hlose fun o hu hs => hs.mono hu (fun _ _ => hlose.toContinues.isFired) hfut
  | gain hg hs =>
    exact World.Signalled.gains h hl hg (fun o hu hs => hs.mono hu (fun _ _ => hg.toContinues.isFired) hfut) hs
  | invoke _ hlose hs =>
    refine (World.Signalled.loses h hl hlose
      fun o hu hs => hs.mono hu (fun _ _ => hlose.toContinues.isFired) hfut).invoked fun cb hcb => ?_
    rcases List.mem_cons.1 hcb with rfl | hcb
    · exact .inr hs
    · exact .inl hcb
  | fire n => exact World.Signalled.takeAll h hl n fun o hu hs => hs.mono hu (fun _ _ _ => htake) hfut
  | fireChild n =>
    refine (World.Signalled.takeAll h hl n fun o hu hs => hs.mono hu (fun _ _ _ => htake) hfut).invoked fun cb hcb => ?_
    rcases List.mem_append.1 hcb with hcb | hcb
    · exact .inl (List.mem_append_left _ hcb)
    · rcases List.mem_cons.1 hcb with rfl | hcb
      · exact .inr (World.settled_takeAll n)
      · exact .inl (List.mem_append_right _ hcb)

/-- Tokens that have ever fired stay so. -/
theorem Moves.signalled {a b : Standing Arrivals} {ds : List Deed} (hm : Moves a ds b) (hs : a.world.Sound)
    {fired : Nat → Prop} (h : a.world.Signalled fired a.due) :
    ∃ fired', (∀ n, fired n → fired' n) ∧ b.world.Signalled fired' b.due := by
  refine (hm.keeps hs (P := fun _ b => ∃ fired', (∀ n, fired n → fired' n) ∧ b.world.Signalled fired' b.due)
    ⟨fired, fun _ => id, h⟩ ?_).2
  rintro ds b ds' c ⟨fired', hle, hP⟩ hb hm hr
  exact ⟨_, fun n hf => .inl (hle n hf), hr.signalled hm hb.linked hP⟩

end Gateway.Signal
