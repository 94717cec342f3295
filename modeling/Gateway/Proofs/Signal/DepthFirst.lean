import Gateway.Proofs.Signal.Trees
/-!
# A tree fires in depth-first order

Whoever fires the root of a tree in which no token has fired invokes everything connected
in the tree once, in depth-first order, and does nothing to any other token
(`fires_depth_first`). A token that was dropped is not in its parent's tree any more, and
neither are its children (`not_fires_whole_tree`).
-/
namespace Gateway.Signal

/-! ## The same trees over slots -/

section Slots

variable {κ : KeyPairs} {w : World Slots} {v : World Arrivals}

theorem World.Mirrors.isSome_token (h : w.Mirrors κ v) (n : Nat) :
    (w.tokens.get? n).isSome = (v.tokens.get? n).isSome := by
  rcases h.tokens.cases n with ⟨hn, hn'⟩ | ⟨t, t', hn, hn', -⟩
  · rw [hn, hn']
    rfl
  · rw [hn, hn']
    rfl

theorem World.Mirrors.pollDeeds (h : w.Mirrors κ v) (f : Nat) {u u' : Future} (hu : u.Mirrors κ u') :
    w.pollDeeds f u = v.pollDeeds f u' := by
  obtain ⟨source, _, _, completed⟩ := u
  obtain ⟨source', _, _, _⟩ := u'
  obtain ⟨hs, -, -, rfl⟩ := hu
  unfold World.pollDeeds
  cases hs with
  | wait v ticket hl => rfl
  | firing n hl =>
    cases hl with
    | some hl => rfl
    | none =>
      cases completed with
      | true => rfl
      | false =>
        dsimp only
        rw [h.isSome_token]

/-- The same tasks do the same to registrations. -/
theorem World.Mirrors.deeds (h : w.Mirrors κ v) (task : Task) : w.deeds task = v.deeds task := by
  cases task with
  | run within c =>
    unfold World.deeds
    cases c with
    | token name parent =>
      dsimp only
      rcases h.bind_token? parent with ⟨hn, hn'⟩ | ⟨n, t, t', hn, hn', -⟩ <;> rw [hn, hn']
      rw [h.next]
    | fire name =>
      dsimp only
      rcases h.token? name with ⟨hn, hn'⟩ | ⟨n, t, t', hn, hn', -⟩ <;> rw [hn, hn']
    | connect token name script =>
      dsimp only
      rcases h.token? token with ⟨hn, hn'⟩ | ⟨n, t, t', hn, hn', -⟩ <;> rw [hn, hn']
      rw [h.next]
    | wait condvar name token =>
      dsimp only
      rw [h.condvar?]
      rcases h.bind_token? token with ⟨hn, hn'⟩ | ⟨n, t, t', hn, hn', -⟩ <;> rw [hn, hn'] <;>
        cases w.condvar? condvar <;> rfl
    | poll name =>
      dsimp only
      rcases h.future? name with ⟨hf, hf'⟩ | ⟨f, u, u', hf, hf', hu⟩ <;> rw [hf, hf']
      exact h.pollDeeds f hu
    | cancelled token name | condvar name | notify name | drop name | inspect name | unknown => rfl
  | invoke cb => rfl
  | finish held => rfl

variable {done : List (World Slots × Task)} {done' : List (World Arrivals × Task)}

theorem SideBySide.deedsOf (hside : SideBySide done done') : deedsOf done = deedsOf done' :=
  congrArg List.flatten (hside.map fun _ _ _ task hm => hm.deeds task)

theorem World.Mirrors.makesChild_iff (h : w.Mirrors κ v) {task : Task} {p c : Nat} :
    w.MakesChild task p c ↔ v.MakesChild task p c := by
  refine ⟨h.makesChild, fun hm => ?_⟩
  obtain @⟨within, name, parent, p, t', hp'⟩ := hm
  rcases h.token? parent with ⟨-, hnone⟩ | ⟨q, t, t₁, hp, hq, -⟩
  · exact nomatch hnone.symm.trans hp'
  · obtain ⟨rfl, -⟩ := Prod.mk.inj (Option.some.inj (hq.symm.trans hp'))
    rw [← h.next]
    exact .intro hp

/-- The same tokens descend from others. -/
theorem World.Mirrors.descends_iff (h : w.Mirrors κ v) (hside : SideBySide done done') {n c : Nat} :
    w.Descends done n c ↔ v.Descends done' n c := by
  refine ⟨h.descends hside, fun hd => ?_⟩
  have hmakes : ∀ p c, (∃ e ∈ done, e.1.MakesChild e.2 p c) ↔ ∃ e ∈ done', e.1.MakesChild e.2 p c := fun p c =>
    hside.exists_iff fun _ _ _ task hm => @World.Mirrors.makesChild_iff _ _ _ hm task p c
  induction hd with
  | child he hm hc =>
    obtain ⟨e, he, hm⟩ := (hmakes _ _).2 ⟨_, he, hm⟩
    exact .child he hm (h.isSome_token _ ▸ hc)
  | step _ he hm hc ih =>
    obtain ⟨e, he, hm⟩ := (hmakes _ _).2 ⟨_, he, hm⟩
    exact .step ih he hm (h.isSome_token _ ▸ hc)

theorem World.Mirrors.depthFirst (h : w.Mirrors κ v) {cbs order : List Callback} (hd : v.DepthFirst cbs order) :
    w.DepthFirst cbs order := by
  induction hd with
  | nil => exact .nil
  | plain hcb _ ih => exact .plain hcb ih
  | @child c t' cbs below order hc _ _ ihb ih =>
    obtain ⟨t, ht, hm⟩ := h.some_token hc
    exact .child ht (hm.toList ▸ ihb) ih

theorem World.Mirrors.mem_connected (h : w.Mirrors κ v) {n : Nat} {cb : Callback} : cb ∈ v.connected n ↔
    ∃ t, w.tokens.get? n = some t ∧ cb ∈ Registry.toList t.registry := by
  rcases h.tokens.cases n with ⟨hn, hn'⟩ | ⟨t, t', hn, hn', hm⟩
  · rw [World.connected, World.entries, hn', hn]
    simp
  · rw [World.connected_of_get? hn', hn, ← hm.toList]
    simp

end Slots

theorem Slots.toList_clear {α : Type} (s : Slots α) : Registry.toList (Registry.clear s) = [] := by
  show ((s.clear.occupants).foldr Slots.place []).map (·.value) = []
  rw [s.occupants_clear]
  rfl

/-! ## Firing the root -/

/-- What the firing of a token has done when it is over, where `tree` are the token and its descendants. -/
structure World.FiresTree (w : World Slots) (root : Token Slots) (tree : Nat → Prop) (order : List Callback)
    (w' : World Slots) : Prop where
  /-- A child's callbacks come right after the child, in the place that it has among those of its parent. -/
  depthFirst : w.DepthFirst (Registry.toList root.registry) order
  /-- Everything that was connected in the tree is invoked once. -/
  nodup : order.Nodup
  complete : ∀ cb, cb ∈ order ↔ ∃ n t, tree n ∧ w.tokens.get? n = some t ∧ cb ∈ Registry.toList t.registry
  /-- Every token of the tree has fired once more, and nothing is connected to it any more. -/
  fired : ∀ n t, tree n → w.tokens.get? n = some t → ∃ t', w'.tokens.get? n = some t' ∧ t'.count = t.count + 1 ∧
    Registry.toList t'.registry = []
  /-- Every other token is as it was, with all that is connected to it. -/
  others : ∀ n, ¬ tree n → w'.tokens.get? n = w.tokens.get? n

/-- If no token of a tree has fired, and callbacks leave tokens alone, a firing of its root serves the whole tree in
depth-first order, where each token has its callbacks in the order in which they were connected. -/
theorem fires_depth_first {done : List (World Slots × Task)} {w : World Slots} {within : Option Name} {name : Name}
    {rest : List Task} (hr : Moment.Reaches {} done ⟨w, .run within (.fire name) :: rest⟩) {root : Nat} {t : Token Slots}
    (hroot : w.token? name = some (root, t))
    (hunfired : ∀ n t', n = root ∨ w.Descends done root n → w.tokens.get? n = some t' → t'.isFired = false)
    (hquiet : (w.step (.run within (.fire name))).1.Quiet (w.step (.run within (.fire name))).2) :
    (∃ order w', (w.step (.run within (.fire name))).1.Serves (w.step (.run within (.fire name))).2 order w' ∧
      w.FiresTree t (fun n => n = root ∨ w.Descends done root n) order w') ∧
    ∀ n t', w.tokens.get? n = some t' →
      (Registry.toList t'.registry).Sublist ((deedsOf done).filterMap Deed.registered?) := by
  obtain ⟨κ, done', ⟨v, _⟩, hv, ⟨hw, rfl⟩, hside, -⟩ := hr.sound
  obtain ⟨tv, hrootv, ht⟩ := hw.token?_some hroot
  have htree : ∀ n, v.Tree root n ↔ n = root ∨ w.Descends done root n := fun n =>
    hv.tree_iff.trans (or_congr_right (hw.descends_iff hside).symm)
  have hunfired' : ∀ n t', v.Tree root n → v.tokens.get? n = some t' → t'.isFired = false := by
    intro n t' hn ht'
    obtain ⟨tw, htw, hm⟩ := hw.some_token ht'
    exact hm.isFired ▸ hunfired n tw ((htree n).1 hn) htw
  -- The order is found in the run over lists, and holds here as well.
  obtain ⟨order, hd, hnodup, hmem, hchildren⟩ := hv.exists_depthFirst (World.token?_eq_some hrootv).2 hunfired'
  have hdw := hw.depthFirst hd
  rw [← ht.toList] at hdw
  obtain ⟨w', hs, hf⟩ := hdw.serves_fire hroot hnodup (ht.holders ▸ hv.holders_pos hrootv) hquiet
  refine ⟨⟨order, w', hs, hdw, (List.nodup_cons.1 hnodup).2, fun cb => ?_, fun n t hn hnt => ?_, fun n hn => ?_⟩,
    fun n t' ht' => ?_⟩
  · rw [hmem]
    refine exists_congr fun n => ?_
    rw [htree, hw.mem_connected, exists_and_left]
  · refine ⟨t.fire, ?_, rfl, Slots.toList_clear t.registry⟩
    rw [(hf n).1 ((hchildren n).2 ((htree n).2 hn)), hnt]
    rfl
  · exact (hf n).2 fun hin => hn ((htree n).1 ((hchildren n).1 hin))
  · obtain ⟨t₁, ht₁, hm⟩ := hw.token_some ht'
    rw [hm.toList, ← World.connected_of_get? ht₁, hside.deedsOf]
    exact hv.moves.connected_sublist World.sound_empty (fun _ => rfl) n

/-- No token has fired in a world if none is found to have. -/
theorem World.unfired_of_all {w : World Slots} (h : (w.tokens.entries.all fun e => !e.2.isFired) = true) {n : Nat}
    {t : Token Slots} (hn : w.tokens.get? n = some t) : t.isFired = false := by
  simpa using List.all_eq_true.1 h _ (Table.mem_of_get? hn)

/-- A child's callback, whose script looks at a token, is served in the child's place. -/
theorem fires_depth_first_child : ∃ done, ∃ w : World Slots, ∃ t order w',
    Moment.Reaches {} done ⟨w, [.run none (.fire ['g'])]⟩ ∧ w.FiresTree t (fun n => n = 0 ∨ w.Descends done 0 n) order w' ∧
    order = [.script 1 ['a'] [], .fireChild 2, .script 3 ['b'] [.inspect ['g']], .script 4 ['d'] []] := by
  obtain ⟨done, hmade⟩ := Moment.reaches_performAll [.token ['g'] none, .connect ['g'] ['a'] [], .token ['c'] (some ['g']),
    .connect ['c'] ['b'] [.inspect ['g']], .connect ['g'] ['d'] []]
  have hfire := hmade.command (.fire ['g'])
  have hfires := fires_depth_first hfire rfl (fun n t' _ ht' => World.unfired_of_all rfl ht') ?_
  · obtain ⟨⟨order, w', -, h⟩, -⟩ := hfires
    refine ⟨done, _, _, order, w', hfire, h, ?_⟩
    have hscript : ∀ {w : World Slots} {c name commands cbs order}, w.DepthFirst cbs order →
        w.DepthFirst (.script c name commands :: cbs) (.script c name commands :: order) := .plain nofun
    have hchild : ∀ {w : World Slots} {c}, w.tokens.get? 2 = some c →
        Registry.toList c.registry = [.script 3 ['b'] [.inspect ['g']]] →
        w.DepthFirst [.fireChild 2, .script 4 ['d'] []] [.fireChild 2, .script 3 ['b'] [.inspect ['g']], .script 4 ['d'] []] := by
      intro w c hc hlist
      have hbelow : w.DepthFirst (Registry.toList c.registry) [.script 3 ['b'] [.inspect ['g']]] := by
        rw [hlist]
        exact hscript .nil
      exact .child hc hbelow (hscript .nil)
    exact h.depthFirst.unique (hscript (hchild rfl rfl))
  · refine .of_step nofun (.of_step nofun (.of_step nofun (.of_step ?_ ?_)))
    · rintro name c ⟨⟩
      rfl
    · exact .of_step nofun (.of_step nofun (.of_step nofun (World.quiet_nil _)))

/-- A token whose parent was dropped is not fired with the root of the tree that it was made in. -/
theorem not_fires_whole_tree : ¬ ∀ (done : List (World Slots × Task)) (w : World Slots) (name : Name) (root : Nat)
    (t : Token Slots) (order : List Callback) (w' : World Slots) (c : Nat) (tc : Token Slots),
    Moment.Reaches {} done ⟨w, [.run none (.fire name)]⟩ → w.token? name = some (root, t) →
    (∀ n t', w.tokens.get? n = some t' → t'.isFired = false) →
    (w.step (.run none (.fire name))).1.Quiet (w.step (.run none (.fire name))).2 →
    (w.step (.run none (.fire name))).1.Serves (w.step (.run none (.fire name))).2 order w' →
    Relation.ReflTransGen (fun p c => ∃ e ∈ done, e.1.MakesChild e.2 p c) root c → w.tokens.get? c = some tc →
    ∃ tc', w'.tokens.get? c = some tc' ∧ tc'.count = tc.count + 1 := by
  intro h
  have htoken := (Moment.Reaches.refl (m := ({} : Moment Slots))).command (.token ['g'] none)
  have hparent := htoken.task.command (.token ['p'] (some ['g']))
  have hchild := hparent.task.command (.token ['c'] (some ['p']))
  have hdrop := hchild.task.command (.drop ['p'])
  have hfire := hdrop.task.command (.fire ['g'])
  obtain ⟨tc, htc, hcount⟩ := h _ _ ['g'] 0 _ [] _ 2 _ hfire rfl (fun n t' ht' => World.unfired_of_all rfl ht')
    (.of_step nofun (World.quiet_nil _)) (.step id .nil)
    (.tail (.single ⟨_, List.getElem_mem (n := 1) (by simp), .intro rfl⟩)
      ⟨_, List.getElem_mem (n := 2) (by simp), .intro rfl⟩) rfl
  obtain rfl := Option.some.inj htc
  cases hcount

end Gateway.Signal
