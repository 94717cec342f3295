import Gateway.Proofs.Signal.Cascade
import Gateway.Proofs.Signal.Observers
import Gateway.Proofs.Signal.Progress
/-!
# Trees of tokens

A living token that was made as a child keeps a link to its parent, and nothing else makes
one (`Moment.Reaches.isChild_iff`). So a token and its descendants are a tree: a child has
one parent, and its number is greater.

A tree in which no token has fired has all its children connected, so its callbacks can be
put in depth-first order (`Moment.Reaches.exists_depthFirst`). Each token holds its own in
the order in which they were registered (`Moves.connected_sublist`).
-/
namespace Gateway.Signal

/-! ## Children and their parents -/

namespace World

/-- The token `c` is alive and linked to its parent `p`. -/
def IsChild {R : Type → Type} (w : World R) (p c : Nat) : Prop :=
  ∃ t l, w.tokens.get? c = some t ∧ t.parent = some l ∧ l.token = p

variable {R : Type → Type} {w : World R}

theorem isChild_iff {p c : Nat} : w.IsChild p c ↔ ∃ l, w.kept? (.token c) = some (l, .child c) ∧ l.token = p := by
  constructor
  · rintro ⟨t, l, hc, hp, hl⟩
    exact ⟨l, kept?_token hc hp, hl⟩
  · rintro ⟨l, hk, hl⟩
    obtain ⟨-, t, hc, hp⟩ := keptBy_of_kept? hk
    exact ⟨t, l, hc, hp, hl⟩

theorem IsChild.parent_unique {p p' c : Nat} (h : w.IsChild p c) (h' : w.IsChild p' c) : p = p' := by
  obtain ⟨t, l, hc, hp, rfl⟩ := h
  obtain ⟨t', l', hc', hp', rfl⟩ := h'
  obtain rfl := Option.some.inj (hc.symm.trans hc')
  obtain rfl := Option.some.inj (hp.symm.trans hp')
  rfl

/-- What registers a child is the command that makes it. -/
theorem makesChild_of_register {task : Task} {c : Nat} (h : .register (.fireChild c) ∈ w.deeds task) :
    ∃ p, w.MakesChild task p c := by
  cases task with
  | run within command =>
    cases command with
    | token name parent =>
      unfold deeds at h
      dsimp only at h
      cases parent with
      | none => cases h
      | some parent =>
        cases hp : w.token? parent with
        | none =>
          rw [Option.bind_some, hp] at h
          cases h
        | some p =>
          rw [Option.bind_some, hp] at h
          cases List.mem_singleton.1 h
          exact ⟨p.1, .intro hp⟩
    | fire name | connect token name script | wait condvar name token =>
      unfold deeds at h
      dsimp only at h
      split at h
      · cases List.mem_singleton.1 h
      · cases h
    | poll name =>
      unfold deeds pollDeeds at h
      dsimp only at h
      split at h
      · split at h
        · split at h
          · cases List.mem_singleton.1 h
          · cases h
        · cases h
      · cases h
    | cancelled token name | condvar name | notify name | drop name | inspect name | unknown => cases h
  | invoke cb => cases List.mem_singleton.1 h
  | finish held => cases h

end World

theorem Callback.eq_fireChild {cb : Callback} {c : Nat} (h : cb.owner = .child c) : cb = .fireChild c := by
  cases cb with
  | fireChild c' =>
    cases h
    rfl
  | script _ _ _ | abortWait _ _ | complete _ => cases h

section Moves

variable {a b : Standing Arrivals} {ds : List Deed}

/-- A child that was not linked before has been registered. -/
theorem Rewires.register_child (hr : Rewires a ds b) {c : Nat} {l : Link} (hb : b.world.kept? (.token c) = some (l, .child c)) :
    a.world.kept? (.token c) = some (l, .child c) ∨
      (.register (.fireChild c) ∈ ds ∧ ∃ t, a.world.tokens.get? l.token = some t ∧ ¬ a.world.Used (.child c)) := by
  cases hr with
  | lose hl | flash _ hl | invoke _ hl _ =>
    rw [hl.kept] at hb
    split at hb
    · cases hb
    · exact .inl hb
  | @gain _ _ _ _ _ x l' cb hg _ =>
    rw [hg.kept] at hb
    split at hb
    · obtain ⟨rfl, ho⟩ := Prod.mk.inj (Option.some.inj hb)
      obtain rfl := Callback.eq_fireChild ho
      obtain ⟨t, -, ht, -⟩ := hg.token_some
      exact .inr ⟨List.mem_singleton_self _, t, ht, hg.fresh⟩
    · exact .inl hb
  | fire n | fireChild n =>
    rw [World.kept?_takeAll] at hb
    exact .inl hb

/-- Every child was registered, and after its parent was made. -/
structure World.Bred (w : World Arrivals) (ds : List Deed) : Prop where
  registered : ∀ p c, w.IsChild p c → .register (.fireChild c) ∈ ds
  lt : ∀ p c, w.IsChild p c → p < c

theorem Moves.bred (hm : Moves a ds b) (hs : a.world.Sound) (h : a.world.Bred []) : b.world.Bred ds := by
  refine (hm.keeps hs (P := fun ds b => b.world.Bred ds) h ?_).2
  intro ds b ds' c hb hsound _ hr
  refine ⟨fun p n hn => ?_, fun p n hn => ?_⟩ <;> obtain ⟨l, hk, rfl⟩ := World.isChild_iff.1 hn
  · rcases hr.register_child hk with hold | ⟨hnew, -⟩
    · exact List.mem_append_left _ (hb.registered _ n (World.isChild_iff.2 ⟨l, hold, rfl⟩))
    · exact List.mem_append_right _ hnew
  · rcases hr.register_child hk with hold | ⟨-, t, ht, hfresh⟩
    · exact hb.lt _ n (World.isChild_iff.2 ⟨l, hold, rfl⟩)
    · exact Nat.lt_of_lt_of_le (hsound.linked.token_lt _ t ht) (Nat.not_lt.1 hfresh)

end Moves

theorem Moment.Reaches.bred {done : List (World Arrivals × Task)} {m : Moment Arrivals}
    (hr : Moment.Reaches ({} : Moment Arrivals) done m) : m.world.Bred (deedsOf done) :=
  hr.moves.bred World.sound_empty ⟨fun _ _ ⟨_, _, h, _⟩ => (nomatch h), fun _ _ ⟨_, _, h, _⟩ => (nomatch h)⟩

theorem Moment.Reaches.isChild_iff {done : List (World Arrivals × Task)} {m : Moment Arrivals}
    (hr : Moment.Reaches ({} : Moment Arrivals) done m) {p c : Nat} : m.world.IsChild p c ↔
      (∃ e ∈ done, e.1.MakesChild e.2 p c) ∧ (m.world.tokens.get? c).isSome = true := by
  constructor
  · intro h
    obtain ⟨e, he, hdeed⟩ := List.mem_flatMap.1 (hr.bred.registered p c h)
    obtain ⟨p', hm⟩ := World.makesChild_of_register hdeed
    obtain ⟨t, l, hc, hp, rfl⟩ := h
    obtain ⟨l', hp', rfl⟩ := hr.child he hm hc
    obtain rfl := Option.some.inj (hp.symm.trans hp')
    exact ⟨⟨e, he, hm⟩, by rw [hc]; rfl⟩
  · rintro ⟨⟨e, he, hm⟩, hc⟩
    obtain ⟨t, ht⟩ := Option.isSome_iff_exists.1 hc
    obtain ⟨l, hp, hl⟩ := hr.child he hm ht
    exact ⟨t, l, ht, hp, hl⟩

/-! ## Callbacks of a tree -/

namespace World

variable {w : World Arrivals}

/-- What is connected to a token, in order. -/
def connected (w : World Arrivals) (n : Nat) : List Callback := (w.entries n).map (·.2)

theorem connected_of_get? {n : Nat} {t : Token Arrivals} (hn : w.tokens.get? n = some t) :
    w.connected n = Registry.toList t.registry := by
  rw [connected, entries_of_get? hn]
  rfl

/-- The token is the root of a tree or a descendant of it. -/
abbrev Tree {R : Type → Type} (w : World R) : (root n : Nat) → Prop := Relation.ReflTransGen w.IsChild

/-- The callback is connected to a token of the tree. -/
def InTree (w : World Arrivals) (root : Nat) (cb : Callback) : Prop := ∃ n, w.Tree root n ∧ cb ∈ w.connected n

theorem Linked.isChild (h : w.Linked) {n c : Nat} (hc : .fireChild c ∈ w.connected n) : w.IsChild n c := by
  obtain ⟨e, he, hcb⟩ := List.mem_map.1 hc
  obtain ⟨x, l, hk, hl, -⟩ := h.kept n e he
  rw [hcb] at hk
  obtain ⟨rfl, -⟩ := keptBy_of_kept? hk
  exact isChild_iff.2 ⟨l, hk, hl⟩

/-- A callback is connected to one token only. -/
theorem Linked.connected_unique (h : w.Linked) {cb : Callback} {n n' : Nat} (hn : cb ∈ w.connected n)
    (hn' : cb ∈ w.connected n') : n = n' := by
  obtain ⟨e, he, rfl⟩ := List.mem_map.1 hn
  obtain ⟨e', he', hcb⟩ := List.mem_map.1 hn'
  obtain ⟨x, l, hx, hl, -⟩ := h.kept n e he
  obtain ⟨y, l', hy, hl', -⟩ := h.kept n' e' he'
  rw [hcb] at hy
  obtain rfl := h.keeper x y l l' _ hx hy
  obtain ⟨rfl, -⟩ := Prod.mk.inj (Option.some.inj (hx.symm.trans hy))
  exact hl.symm.trans hl'

theorem Linked.nodup_connected (h : w.Linked) (n : Nat) : (w.connected n).Nodup := by
  have hnodup := h.nodup n
  rw [← Function.comp_def Callback.owner, ← List.map_map] at hnodup
  exact hnodup.of_map _

variable (hlt : ∀ p c, w.IsChild p c → p < c)
include hlt

theorem le_of_tree {root n : Nat} (h : w.Tree root n) : root ≤ n := by
  induction h with
  | refl => exact Nat.le_refl _
  | tail _ hc ih => exact Nat.le_trans ih (Nat.le_of_lt (hlt _ _ hc))

/-- What is connected in the tree of a child is not connected to its parent. -/
theorem Linked.notMem_connected (h : w.Linked) {n c : Nat} (hc : w.IsChild n c) {cb : Callback} (hcb : w.InTree c cb) :
    cb ∉ w.connected n := by
  intro hn
  obtain ⟨d, hd, hcb⟩ := hcb
  obtain rfl := h.connected_unique hn hcb
  exact absurd (hlt n c hc) (Nat.not_lt.2 (le_of_tree hlt hd))

/-- The trees of two children have nothing in common. -/
theorem Linked.sibling_unique (h : w.Linked) {n c c' : Nat} (hc : w.IsChild n c) (hc' : w.IsChild n c') {cb : Callback}
    (hcb : w.InTree c cb) (hcb' : w.InTree c' cb) : c = c' := by
  -- One would be in the tree of the other, and so would their parent.
  have hup : ∀ {c c'}, w.IsChild n c → w.IsChild n c' → w.Tree c c' → c = c' := by
    intro c c' hc hc' htree
    rcases htree.cases_tail with heq | ⟨p, hp, hpc⟩
    · exact heq.symm
    · obtain rfl := hpc.parent_unique hc'
      exact absurd (hlt p c hc) (Nat.not_lt.2 (le_of_tree hlt hp))
  obtain ⟨d, hd, hcb⟩ := hcb
  obtain ⟨d', hd', hcb'⟩ := hcb'
  obtain rfl := h.connected_unique hcb hcb'
  have hright : Relator.RightUnique (Function.swap w.IsChild) := fun _ _ _ h h' => h.parent_unique h'
  rcases Relation.ReflTransGen.total_of_right_unique hright hd.swap hd'.swap with htree | htree
  · exact (hup hc' hc htree.swap).symm
  · exact hup hc hc' htree.swap

/-- Some of a token's callbacks, in depth-first order with all that gets invoked for them. -/
theorem Linked.depthFirst_below (h : w.Linked) {n : Nat}
    (ih : ∀ c, w.IsChild n c → ∃ order, w.DepthFirst (w.connected c) order ∧ order.Nodup ∧ ∀ cb, cb ∈ order ↔ w.InTree c cb)
    (cbs : List Callback) (hsub : ∀ cb ∈ cbs, cb ∈ w.connected n) (hnodup : cbs.Nodup) :
    ∃ order, w.DepthFirst cbs order ∧ order.Nodup ∧
      ∀ cb, cb ∈ order ↔ cb ∈ cbs ∨ ∃ c, .fireChild c ∈ cbs ∧ w.InTree c cb := by
  -- What comes for the first callback has nothing in common with what comes for the others.
  induction cbs with
  | nil => exact ⟨[], .nil, .nil, by simp⟩
  | cons cb cbs ihs =>
    obtain ⟨hcb, hnodup⟩ := List.nodup_cons.1 hnodup
    have hchild : ∀ c, .fireChild c ∈ cb :: cbs → w.IsChild n c := fun c hc => h.isChild (hsub _ hc)
    obtain ⟨order, hd, hn, hmem⟩ := ihs (fun cb' hcb' => hsub cb' (List.mem_cons_of_mem _ hcb')) hnodup
    have hnew : cb ∉ order := by
      intro hin
      rcases (hmem cb).1 hin with hin | ⟨c, hc, hin⟩
      · exact hcb hin
      · exact h.notMem_connected hlt (hchild c (List.mem_cons_of_mem _ hc)) hin (hsub cb List.mem_cons_self)
    by_cases hfire : ∃ c, cb = .fireChild c
    · obtain ⟨c, rfl⟩ := hfire
      have hc := hchild c List.mem_cons_self
      obtain ⟨below, hdb, hnb, hmemb⟩ := ih c hc
      obtain ⟨t, l, ht, -, -⟩ := hc
      rw [connected_of_get? ht] at hdb
      refine ⟨.fireChild c :: (below ++ order), .child ht hdb hd, List.nodup_cons.2 ⟨fun hin => ?_, ?_⟩, fun cb => ?_⟩
      · rcases List.mem_append.1 hin with hin | hin
        · exact h.notMem_connected hlt (hchild c List.mem_cons_self) ((hmemb _).1 hin) (hsub _ List.mem_cons_self)
        · exact hnew hin
      · refine List.nodup_append.2 ⟨hnb, hn, ?_⟩
        rintro cb hin _ hin' rfl
        rcases (hmem cb).1 hin' with hin' | ⟨c', hc', hin'⟩
        · exact h.notMem_connected hlt (hchild c List.mem_cons_self) ((hmemb cb).1 hin)
            (hsub cb (List.mem_cons_of_mem _ hin'))
        · obtain rfl := h.sibling_unique hlt (hchild c List.mem_cons_self) (hchild c' (List.mem_cons_of_mem _ hc'))
            ((hmemb cb).1 hin) hin'
          exact hcb hc'
      · simp only [List.mem_cons, List.mem_append, hmem, hmemb, Callback.fireChild.injEq, or_and_right, exists_or,
          exists_eq_left]
        tauto
    · have hplain : ∀ c, cb ≠ .fireChild c := fun c hc => hfire ⟨c, hc⟩
      refine ⟨cb :: order, .plain hplain hd, List.nodup_cons.2 ⟨hnew, hn⟩, fun cb' => ?_⟩
      have hne : ∀ c, Callback.fireChild c ≠ cb := fun c => (hplain c).symm
      simp only [List.mem_cons, hmem, hne, false_or, or_assoc]

/-- If all the children in a tree are connected, its callbacks can be put in depth-first order. -/
theorem Linked.exists_depthFirst (h : w.Linked) (root : Nat)
    (hconn : ∀ p c, w.Tree root p → w.IsChild p c → .fireChild c ∈ w.connected p) :
    ∃ order, w.DepthFirst (w.connected root) order ∧ order.Nodup ∧ ∀ cb, cb ∈ order ↔ w.InTree root cb := by
  -- Children have greater numbers, and all numbers are below the next one.
  induction hk : w.next - root using Nat.strong_induction_on generalizing root with
  | _ k ih =>
    subst hk
    have hbelow : ∀ c, w.IsChild root c →
        ∃ order, w.DepthFirst (w.connected c) order ∧ order.Nodup ∧ ∀ cb, cb ∈ order ↔ w.InTree c cb := by
      intro c hc
      have hrc := hlt root c hc
      obtain ⟨t, l, ht, -, -⟩ := id hc
      have hcn := h.token_lt c t ht
      exact ih _ (by omega) c (fun p c' hp => hconn p c' (.head hc hp)) rfl
    obtain ⟨order, hd, hn, hmem⟩ := h.depthFirst_below hlt hbelow (w.connected root) (fun _ hcb => hcb) (h.nodup_connected root)
    refine ⟨order, hd, hn, fun cb => (hmem cb).trans ⟨?_, ?_⟩⟩
    · rintro (hcb | ⟨c, hc, d, hd, hcb⟩)
      · exact ⟨root, .refl, hcb⟩
      · exact ⟨d, .head (h.isChild hc) hd, hcb⟩
    · rintro ⟨d, hd, hcb⟩
      rcases hd.cases_head with rfl | ⟨c, hc, hd⟩
      · exact .inl hcb
      · exact .inr ⟨c, hconn root c .refl hc, d, hd, hcb⟩

end World

/-! ## Trees at a moment of a run -/

section Reaches

variable {done : List (World Arrivals × Task)} {m : Moment Arrivals} (hr : Moment.Reaches ({} : Moment Arrivals) done m)
include hr

/-- A token's tree is the token and its descendants. -/
theorem Moment.Reaches.tree_iff {root n : Nat} : m.world.Tree root n ↔ n = root ∨ m.world.Descends done root n := by
  constructor
  · intro h
    induction h with
    | refl => exact .inl rfl
    | tail _ hc ih =>
      obtain ⟨⟨e, he, hm⟩, hc⟩ := hr.isChild_iff.1 hc
      rcases ih with rfl | hd
      · exact .inr (.child he hm hc)
      · exact .inr (.step hd he hm hc)
  · rintro (rfl | hd)
    · exact .refl
    · induction hd with
      | child he hm hc => exact .single (hr.isChild_iff.2 ⟨⟨_, he, hm⟩, hc⟩)
      | step _ he hm hc ih => exact ih.tail (hr.isChild_iff.2 ⟨⟨_, he, hm⟩, hc⟩)

/-- A living child of a living token that has not fired is connected to it. -/
theorem Moment.Reaches.connected_child {p c : Nat} {t : Token Arrivals} (hc : m.world.IsChild p c)
    (hp : m.world.tokens.get? p = some t) (hunfired : t.isFired = false) : .fireChild c ∈ m.world.connected p := by
  obtain ⟨fired, -, hsig⟩ := hr.moves.signalled World.sound_empty World.signalled_empty
  obtain ⟨l, hk, rfl⟩ := World.isChild_iff.1 hc
  have hnot : ¬ fired l.token := by
    rw [hsig.isFired _ t hp, hunfired]
    exact Bool.false_ne_true
  obtain ⟨cb, he⟩ := hsig.connected _ l _ t hk hnot hp
  obtain rfl := Callback.eq_fireChild (hr.once.1.linked.owner_eq hk he)
  exact List.mem_map.2 ⟨_, he, rfl⟩

/-- The callbacks of a tree in which no token has fired, in depth-first order, with all the children among them. -/
theorem Moment.Reaches.exists_depthFirst {root : Nat} {t : Token Arrivals} (hroot : m.world.tokens.get? root = some t)
    (hunfired : ∀ n t', m.world.Tree root n → m.world.tokens.get? n = some t' → t'.isFired = false) :
    ∃ order, m.world.DepthFirst (Registry.toList t.registry) order ∧ (.fireChild root :: order).Nodup ∧
      (∀ cb, cb ∈ order ↔ m.world.InTree root cb) ∧ ∀ n, .fireChild n ∈ .fireChild root :: order ↔ m.world.Tree root n := by
  have hl := hr.once.1.linked
  have hconn : ∀ p c, m.world.Tree root p → m.world.IsChild p c → .fireChild c ∈ m.world.connected p := by
    intro p c hp hc
    obtain ⟨tp, htp⟩ : ∃ tp, m.world.tokens.get? p = some tp := by
      rcases hp.cases_tail with rfl | ⟨_, -, tp, _, htp, -⟩
      · exact ⟨t, hroot⟩
      · exact ⟨tp, htp⟩
    exact hr.connected_child hc htp (hunfired p tp hp htp)
  obtain ⟨order, hd, hn, hmem⟩ := hl.exists_depthFirst hr.bred.lt root hconn
  rw [World.connected_of_get? hroot] at hd
  refine ⟨order, hd, List.nodup_cons.2 ⟨fun hin => ?_, hn⟩, hmem, fun n => ?_⟩
  · -- The root would be a child of a token of its own tree.
    obtain ⟨p, hp, hin⟩ := (hmem _).1 hin
    exact absurd (hr.bred.lt p root (hl.isChild hin)) (Nat.not_lt.2 (World.le_of_tree hr.bred.lt hp))
  · rw [List.mem_cons, hmem, Callback.fireChild.injEq]
    constructor
    · rintro (rfl | ⟨p, hp, hin⟩)
      · exact .refl
      · exact hp.tail (hl.isChild hin)
    · intro htree
      rcases htree.cases_tail with rfl | ⟨p, hp, hc⟩
      · exact .inl rfl
      · exact .inr ⟨p, hp, hconn p n hp hc⟩

theorem Moment.Reaches.holders_pos {name : Name} {n : Nat} {t : Token Arrivals} (hn : m.world.token? name = some (n, t)) :
    0 < t.holders := by
  obtain ⟨hname, ht⟩ := World.token?_eq_some hn
  have hheld := (hr.moves.watched World.sound_empty ⟨Standing.held_empty, fun _ _ _ _ h => by cases h⟩).held n
  have hsum := Table.sum_erase_add_le (fun m => if m = n then 1 else 0) hname
  rw [if_pos rfl] at hsum
  have hholders : m.world.holders n = t.holders := by rw [World.holders, ht]; rfl
  simp only [Standing.needs, Moment.standing] at hheld
  omega

end Reaches

/-! ## The order of connection -/

/-- Callbacks are connected in the order in which they were registered. -/
theorem Moves.connected_sublist {a b : Standing Arrivals} {ds : List Deed} (hm : Moves a ds b) (hs : a.world.Sound)
    (h : ∀ n, a.world.connected n = []) (n : Nat) : (b.world.connected n).Sublist (ds.filterMap Deed.registered?) := by
  refine (hm.keeps hs (P := fun ds b => ∀ n, (b.world.connected n).Sublist (ds.filterMap Deed.registered?))
    (fun n => h n ▸ List.nil_sublist _) ?_).2 n
  intro ds b ds' c hb _ _ hr n
  rw [List.filterMap_append]
  have hfewer : ∀ {x : Option Keeper} {w' : World Arrivals}, World.Loses x b.world w' →
      (w'.connected n).Sublist (ds.filterMap Deed.registered?) := by
    intro x w' hl
    cases hn : w'.tokens.get? n with
    | none =>
      rw [World.connected, World.entries, hn]
      exact List.nil_sublist _
    | some t' =>
      rw [World.connected, hl.entries n t' hn]
      exact (List.filter_sublist.map _).trans (hb n)
  cases hr with
  | lose hl | flash _ hl | invoke _ hl _ => exact (hfewer hl).trans (List.sublist_append_left _ _)
  | @gain _ w' _ _ _ _ l cb hg _ =>
    cases hn : w'.tokens.get? n with
    | none =>
      show (w'.connected n).Sublist _
      rw [World.connected, World.entries, hn]
      exact List.nil_sublist _
    | some t' =>
      show (w'.connected n).Sublist _
      rw [World.connected, hg.entries n t' hn, List.map_append]
      refine (hb n).append ?_
      split
      · exact List.Sublist.refl _
      · exact List.nil_sublist _
  | fire m | fireChild m =>
    refine List.Sublist.trans ?_ ((hb n).trans (List.sublist_append_left _ _))
    show ((World.takeAll _ m).1.connected n).Sublist _
    rw [World.connected, World.entries_takeAll]
    split
    · exact List.nil_sublist _
    · exact List.Sublist.refl _

end Gateway.Signal
