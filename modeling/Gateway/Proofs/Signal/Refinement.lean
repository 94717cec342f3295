import Gateway.Proofs.Signal.Progress
import Gateway.Proofs.Signal.Once
/-!
# Slots are as good as lists

A world over slots goes through the same moments as one over plain lists, in which a
token is a count and the list of its callbacks in the order of connection: connecting
appends to the list, and firing takes all of it (`slots_follow_lists`). What the
two worlds do not share are the keys, so they are compared with every registry as its list
and without keys (`World.listed`).
-/
namespace Gateway.Signal

/-! ## Worlds without keys -/

/-- The link with a key that says nothing. -/
def Link.bare (l : Link) : Link := ⟨l.token, ⟨0, 0⟩⟩

/-- The source with such a link. -/
def Source.bare : Source → Source
  | .firing n l => .firing n (l.map Link.bare)
  | .wait v ticket l => .wait v ticket (l.map Link.bare)

section Listed

variable {R : Type → Type} [Registry R]

/-- The token with its registry as a list, and without its key. -/
def Token.listed (t : Token R) : Token List :=
  ⟨t.count, Registry.toList t.registry, t.parent.map Link.bare, t.holders⟩

/-- The world with every registry as the list of its callbacks, and without keys. -/
def World.listed (w : World R) : World List where
  tokens := w.tokens.mapValues Token.listed
  connections := w.connections.mapValues fun k => { k with link := k.link.bare }
  condvars := w.condvars
  futures := w.futures.mapValues fun u => { u with source := u.source.bare }
  tokenNames := w.tokenNames
  connectionNames := w.connectionNames
  condvarNames := w.condvarNames
  futureNames := w.futureNames
  next := w.next
  log := w.log

end Listed

variable {κ : KeyPairs}

theorem Link.Mirrors.bare {l l' : Option Link} (h : Option.Rel (Link.Mirrors κ) l l') :
    l.map Link.bare = l'.map Link.bare := by
  cases h with
  | none => rfl
  | some h => rw [Option.map_some, Option.map_some, Link.bare, Link.bare, h.1]

theorem Source.Mirrors.bare {s s' : Source} (h : s.Mirrors κ s') : s.bare = s'.bare := by
  cases h with
  | firing n hl => rw [Source.bare, Source.bare, Link.Mirrors.bare hl]
  | wait v ticket hl => rw [Source.bare, Source.bare, Link.Mirrors.bare hl]

theorem World.Mirrors.listed {w : World Slots} {v : World Arrivals} (h : w.Mirrors κ v) : w.listed = v.listed := by
  have htokens : w.tokens.mapValues Token.listed = v.tokens.mapValues Token.listed :=
    h.tokens.mapValues fun n t t' ht => by
      rw [Token.listed, Token.listed, ht.count, ht.holders, Link.Mirrors.bare ht.parent,
        show Registry.toList t.registry = Registry.toList t'.registry from ht.registry.models.toList]
  have hconnections : w.connections.mapValues (fun k => { k with link := k.link.bare }) =
      v.connections.mapValues fun k => { k with link := k.link.bare } :=
    h.connections.mapValues fun c k k' hk => by rw [hk.count, Link.bare, Link.bare, hk.link.1]
  have hfutures : w.futures.mapValues (fun u => { u with source := u.source.bare }) =
      v.futures.mapValues fun u => { u with source := u.source.bare } :=
    h.futures.mapValues fun f u u' hu => by
      rw [hu.source.bare, hu.outcome, hu.watcher, hu.completed]
  simp only [World.listed, htokens, hconnections, hfutures, h.condvars, h.tokenNames, h.connectionNames,
    h.condvarNames, h.futureNames, h.next, h.log]

/-! ## Runs side by side -/

theorem World.mirrors_empty : ({} : World Slots).Mirrors (fun _ _ _ => False) {} :=
  ⟨Table.related_empty, Table.related_empty, rfl, Table.related_empty, rfl, rfl, rfl, rfl, rfl, rfl,
    fun _ h => (nomatch h), fun _ _ _ => False.elim⟩

/-- The same is left to do, in worlds that mirror each other. -/
structure Moment.Mirrors (κ : KeyPairs) (m : Moment Slots) (v : Moment Arrivals) : Prop where
  world : m.world.Mirrors κ v.world
  tasks : m.tasks = v.tasks

theorem Moment.mirrors_step {w : World Slots} {v : World Arrivals} (h : w.Mirrors κ v) (t : Task) (rest : List Task) :
    ∃ κ', Moment.Mirrors κ' ⟨(w.step t).1, (w.step t).2 ++ rest⟩ ⟨(v.step t).1, (v.step t).2 ++ rest⟩ := by
  obtain ⟨κ', hstep, htasks⟩ := h.step t
  exact ⟨κ', hstep, congrArg (· ++ rest) htasks⟩

theorem Moment.mirrors_empty : Moment.Mirrors (fun _ _ _ => False) {} {} := ⟨World.mirrors_empty, rfl⟩

/-- The same tasks, in worlds that mirror each other. -/
abbrev SideBySide (done : List (World Slots × Task)) (done' : List (World Arrivals × Task)) : Prop :=
  List.Forall₂ (fun x y => (∃ κ, World.Mirrors κ x.1 y.1) ∧ x.2 = y.2) done done'

section SideBySide

variable {done : List (World Slots × Task)} {done' : List (World Arrivals × Task)} (h : SideBySide done done')
include h

/-- What a task does alike in worlds that mirror one another, it does alike all along. -/
theorem SideBySide.map {α : Type} {f : World Slots → Task → α} {g : World Arrivals → Task → α}
    (hf : ∀ κ w v task, World.Mirrors κ w v → f w task = g v task) :
    done.map (fun e => f e.1 e.2) = done'.map fun e => g e.1 e.2 := by
  induction h with
  | nil => rfl
  | cons he _ ih =>
    obtain ⟨⟨κ, hκ⟩, htask⟩ := he
    rw [List.map_cons, List.map_cons, ih, hf κ _ _ _ hκ, htask]

theorem SideBySide.forall_iff {p : World Slots → Task → Prop} {q : World Arrivals → Task → Prop}
    (hp : ∀ κ w v task, World.Mirrors κ w v → (p w task ↔ q v task)) :
    (∀ e ∈ done, p e.1 e.2) ↔ ∀ e ∈ done', q e.1 e.2 := by
  have hmap := h.map fun κ w v task hm => propext (hp κ w v task hm)
  have hall := congrArg (fun props : List Prop => ∀ prop ∈ props, prop) hmap
  simpa only [List.forall_mem_map] using Iff.of_eq hall

theorem SideBySide.exists_iff {p : World Slots → Task → Prop} {q : World Arrivals → Task → Prop}
    (hp : ∀ κ w v task, World.Mirrors κ w v → (p w task ↔ q v task)) :
    (∃ e ∈ done, p e.1 e.2) ↔ ∃ e ∈ done', q e.1 e.2 := by
  have hnone := h.forall_iff fun κ w v task hm => not_congr (hp κ w v task hm)
  simpa using not_congr hnone

theorem SideBySide.tasks : done'.map (·.2) = done.map (·.2) :=
  (h.map (f := fun _ task => task) (g := fun _ task => task) fun _ _ _ _ _ => rfl).symm

end SideBySide

theorem SideBySide.mem {done : List (World Slots × Task)} {done' : List (World Arrivals × Task)}
    (h : SideBySide done done') {e : World Slots × Task} (he : e ∈ done) :
    ∃ e' ∈ done', (∃ κ, World.Mirrors κ e.1 e'.1) ∧ e.2 = e'.2 := by
  induction h with
  | nil => cases he
  | @cons a b _ _ hab _ ih =>
    rcases List.mem_cons.1 he with rfl | he
    · exact ⟨b, List.mem_cons_self, hab⟩
    · obtain ⟨e', he', hee⟩ := ih he
      exact ⟨e', List.mem_cons_of_mem _ he', hee⟩

theorem Moment.Reaches.mirrored {m m' : Moment Slots} {done : List (World Slots × Task)} (hr : m.Reaches done m')
    {v : Moment Arrivals} (h : m.Mirrors κ v) :
    ∃ κ' done' v', v.Reaches done' v' ∧ m'.Mirrors κ' v' ∧ SideBySide done done' := by
  induction hr with
  | refl => exact ⟨κ, [], v, .refl, h, .nil⟩
  | command _ c ih =>
    obtain ⟨κ', done', v', hv, hm, hd⟩ := ih
    obtain ⟨w', tasks⟩ := v'
    obtain ⟨hw, rfl⟩ := hm
    exact ⟨κ', done', _, .command hv c, ⟨hw, rfl⟩, hd⟩
  | @task done w t rest _ ih =>
    obtain ⟨κ', done', v', hv, hm, hd⟩ := ih
    obtain ⟨w', tasks⟩ := v'
    obtain ⟨hw, rfl⟩ := hm
    obtain ⟨κ'', hstep⟩ := Moment.mirrors_step hw t rest
    exact ⟨κ'', _, _, .task hv, hstep,
      List.rel_append hd (.cons ⟨⟨κ', hw⟩, rfl⟩ .nil)⟩

/-- Every run over lists is mirrored by one over slots. -/
theorem Moment.Reaches.mirrors {v v' : Moment Arrivals} {done' : List (World Arrivals × Task)} (hr : v.Reaches done' v')
    {m : Moment Slots} (h : m.Mirrors κ v) :
    ∃ κ' done m', m.Reaches done m' ∧ m'.Mirrors κ' v' ∧ SideBySide done done' := by
  induction hr with
  | refl => exact ⟨κ, [], m, .refl, h, .nil⟩
  | command _ c ih =>
    obtain ⟨κ', done, m', hr, hm, hd⟩ := ih
    obtain ⟨w, tasks⟩ := m'
    obtain ⟨hw, rfl⟩ := hm
    exact ⟨κ', done, _, .command hr c, ⟨hw, rfl⟩, hd⟩
  | @task done' w' t rest _ ih =>
    obtain ⟨κ', done, m', hr, hm, hd⟩ := ih
    obtain ⟨w, tasks⟩ := m'
    obtain ⟨hw, rfl⟩ := hm
    obtain ⟨κ'', hstep⟩ := Moment.mirrors_step hw t rest
    exact ⟨κ'', _, _, .task hr, hstep,
      List.rel_append hd (.cons ⟨⟨κ', hw⟩, rfl⟩ .nil)⟩

theorem World.mirrors_performAll (commands : List Command) :
    ∃ κ, (World.performAll {} commands : World Slots).Mirrors κ (World.performAll {} commands) := by
  have hfold : ∀ (w : World Slots) (v : World Arrivals) (κ : KeyPairs), w.Mirrors κ v →
      ∃ κ', (World.performAll w commands).Mirrors κ' (World.performAll v commands) := by
    induction commands with
    | nil => exact fun w v κ h => ⟨κ, h⟩
    | cons c commands ih =>
      intro w v κ h
      obtain ⟨κ', hκ, -⟩ := h.perform c
      exact ih _ _ κ' hκ
  exact hfold _ _ _ World.mirrors_empty

/-- What is carried out in one go is a run that leaves nothing to do. -/
theorem Moment.reaches_performAll (commands : List Command) :
    ∃ done, Moment.Reaches ({} : Moment Slots) done ⟨World.performAll {} commands, []⟩ := by
  have hfold : ∀ (w : World Slots) (v : World Arrivals) (κ : KeyPairs), w.Mirrors κ v →
      ∃ done, Moment.Reaches ⟨w, []⟩ done ⟨World.performAll w commands, []⟩ := by
    induction commands with
    | nil => exact fun w v κ h => ⟨[], .refl⟩
    | cons c commands ih =>
      intro w v κ h
      obtain ⟨done, hd⟩ := Moment.reaches_perform w v h c
      obtain ⟨κ', hκ, -⟩ := h.perform c
      obtain ⟨done', hd'⟩ := ih _ _ κ' hκ
      exact ⟨_, hd.trans hd'⟩
  exact hfold _ _ _ World.mirrors_empty

/-! ## What holds at every moment -/

theorem World.Mirrors.token_some {w : World Slots} {v : World Arrivals} (h : w.Mirrors κ v) {n : Nat} {t : Token Slots}
    (hn : w.tokens.get? n = some t) : ∃ t', v.tokens.get? n = some t' ∧ t.Mirrors κ n t' := by
  rcases h.tokens.cases n with ⟨hnone, -⟩ | ⟨t₁, t', ht₁, ht', ht⟩
  · exact nomatch hnone.symm.trans hn
  · obtain rfl := Option.some.inj (ht₁.symm.trans hn)
    exact ⟨t', ht', ht⟩

theorem World.Mirrors.some_token {w : World Slots} {v : World Arrivals} (h : w.Mirrors κ v) {n : Nat} {t' : Token Arrivals}
    (hn : v.tokens.get? n = some t') : ∃ t, w.tokens.get? n = some t ∧ t.Mirrors κ n t' := by
  rcases h.tokens.cases n with ⟨-, hnone⟩ | ⟨t, t₁, ht, ht₁, hm⟩
  · exact nomatch hnone.symm.trans hn
  · obtain rfl := Option.some.inj (ht₁.symm.trans hn)
    exact ⟨t, ht, hm⟩

theorem Token.Mirrors.toList {n : Nat} {t : Token Slots} {t' : Token Arrivals} (h : t.Mirrors κ n t') :
    Registry.toList t.registry = Registry.toList t'.registry := h.registry.models.toList

theorem World.Mirrors.token?_some {w : World Slots} {v : World Arrivals} (h : w.Mirrors κ v) {name : Name} {n : Nat}
    {t : Token Slots} (hn : w.token? name = some (n, t)) : ∃ t', v.token? name = some (n, t') ∧ t.Mirrors κ n t' := by
  rcases h.token? name with ⟨hnone, -⟩ | ⟨m, t₁, t', hm, hm', -, ht⟩
  · exact nomatch hnone.symm.trans hn
  · obtain ⟨rfl, rfl⟩ := Prod.mk.inj (Option.some.inj (hm.symm.trans hn))
    exact ⟨t', hm', ht⟩

theorem World.Mirrors.future_some {w : World Slots} {v : World Arrivals} (h : w.Mirrors κ v) {f : Nat} {u : Future}
    (hf : w.futures.get? f = some u) : ∃ u', v.futures.get? f = some u' ∧ u.Mirrors κ u' := by
  rcases h.futures.cases f with ⟨hnone, -⟩ | ⟨u₁, u', hu₁, hu', hu⟩
  · exact nomatch hnone.symm.trans hf
  · obtain rfl := Option.some.inj (hu₁.symm.trans hf)
    exact ⟨u', hu', hu⟩

/-- A moment of a run over slots is mirrored by one of a run over lists, in which what holds between moves holds. -/
theorem Moment.Reaches.sound {m : Moment Slots} {done : List (World Slots × Task)}
    (hr : Moment.Reaches ({} : Moment Slots) done m) : ∃ κ done' v, Moment.Reaches ({} : Moment Arrivals) done' v ∧
      m.Mirrors κ v ∧ SideBySide done done' ∧ v.world.Sound ∧
      v.world.Gone ((done'.filterMap fun e => e.2.callback?) ++ v.standing.due) := by
  obtain ⟨κ, done', v, hv, hm, hd⟩ := hr.mirrored Moment.mirrors_empty
  exact ⟨κ, done', v, hv, hm, hd, hv.once⟩

theorem Slots.length_occupants {α : Type} (s : Slots α) : (Registry.toList s).length = s.occupants.length := by
  show (((s.slots.filterMap (·.occupant)).foldr Slots.place []).map (·.value)).length = _
  rw [List.length_map, Slots.foldr_place, List.length_insertionSort]
  rfl

/-! ## What happens to the lists -/

/-- The callback is connected to the token `n`. -/
def World.append (w : World List) (n : Nat) (cb : Callback) : World List :=
  { w with tokens := w.tokens.modify n fun t => { t with registry := t.registry ++ [cb] } }

/-- The token `n` has been fired once more, and its callbacks have been taken. -/
def World.drain (w : World List) (n : Nat) : World List :=
  { w with tokens := w.tokens.modify n fun t => { t with count := t.count + 1, registry := [] } }

/-- Nothing is connected for the connection `c`. -/
def World.without (w : World List) (c : Nat) : World List :=
  { w with
    connections := w.connections.erase c
    tokens := w.tokens.mapValues fun t => { t with registry := t.registry.filter fun cb => cb.owner ≠ .connection c } }

theorem World.listed_register {w : World Arrivals} (hk : w.tokens.Keyed) {n : Nat} {t : Token Arrivals}
    (hn : w.tokens.get? n = some t) (cb : Callback) : (w.register n t cb).1.listed = w.listed.append n cb := by
  have htokens : (w.tokens.insert n { t with registry := (Registry.insert t.registry cb).1 }).mapValues Token.listed =
      (w.tokens.mapValues Token.listed).modify n fun t => { t with registry := t.registry ++ [cb] } := by
    rw [Table.insert_eq_modify hk hn fun t => { t with registry := (Registry.insert t.registry cb).1 }]
    refine Table.mapValues_modify _ (fun t => ?_) n
    show Token.mk t.count ((t.registry.list ++ [(t.registry.count, cb)]).map Prod.snd) _ _ = _
    rw [List.map_append]
    rfl
  exact congrArg (fun tokens => { w.listed with tokens := tokens }) htokens

theorem World.listed_takeAll {w : World Arrivals} (hk : w.tokens.Keyed) (n : Nat) :
    (w.takeAll n).1.listed = w.listed.drain n := by
  have hmodify : (w.tokens.modify n fun t => { t with count := t.count + 1, registry := Registry.clear t.registry }).mapValues
      Token.listed = (w.tokens.mapValues Token.listed).modify n fun t => { t with count := t.count + 1, registry := [] } := by
    refine Table.mapValues_modify _ (fun t => ?_) n
    rfl
  show _ = ({ w.listed with tokens := Table.modify (Table.mapValues _ _) _ _ } : World List)
  rw [← hmodify]
  unfold takeAll
  cases hn : w.tokens.get? n with
  | none =>
    rw [Table.modify_eq_self hn]
    rfl
  | some t =>
    rw [← Table.insert_eq_modify hk hn fun t => { t with count := t.count + 1, registry := Registry.clear t.registry }]
    rfl

theorem World.listed_dropConnection {w : World Arrivals} (h : w.Linked) (hk : w.tokens.Keyed) {c : Nat} {k : Connection}
    (hc : w.connections.get? c = some k) : (w.dropConnection c).listed = w.listed.without c := by
  have hkept : w.kept? (.connection c) = some (k.link, .connection c) := by rw [kept?, hc]; rfl
  have htokens : ((w.tokens.modify k.link.token fun t =>
      { t with registry := Registry.remove t.registry k.link.key }).mapValues Token.listed) =
      (w.tokens.mapValues Token.listed).mapValues
        fun t => { t with registry := t.registry.filter fun cb => cb.owner ≠ .connection c } := by
    refine congrArg Table.mk ?_
    rw [Table.modify, List.map_map, Table.mapValues, List.map_map]
    refine List.map_congr_left fun e he => ?_
    obtain ⟨n, t⟩ := e
    have hfilter := h.filter_owner hkept n
    rw [entries_of_get? (hk.get?_of_mem he)] at hfilter
    have hlist : (t.registry.list.map (·.2)).filter (fun cb => cb.owner ≠ .connection c) =
        (t.registry.list.filter fun e => .connection c ≠ e.2.owner).map (·.2) := by
      rw [List.filter_map]
      exact congrArg _ (List.filter_congr fun e _ => decide_eq_decide.2 ne_comm)
    show _ = (n, ({ t.listed with registry := (t.registry.list.map (·.2)).filter _ } : Token List))
    rw [hlist, ← hfilter]
    simp only [Function.comp_apply]
    by_cases hn : n = k.link.token
    · rw [if_pos hn, if_pos hn.symm]
      rfl
    · rw [if_neg hn, if_neg (Ne.symm hn)]
      rfl
  rw [dropConnection, hc]
  show ({ w.listed with
    connections := (w.connections.erase c).mapValues _, tokens := Table.mapValues (Table.modify _ _ _) _ } : World List) = _
  rw [htokens, Table.mapValues_erase]
  rfl

/-! ## The two compared -/

/-- What a run over slots that has done the tasks `done` has in common with one over lists. -/
structure Moment.FollowsLists (m : Moment Slots) (done : List (World Slots × Task)) : Prop where
  /-- The same tasks lead to the same world and leave the same to do, and every command gives back the same. -/
  lists : ∃ done' m', Moment.Reaches ({} : Moment Arrivals) done' m' ∧ done'.map (·.2) = done.map (·.2) ∧
    m'.tasks = m.tasks ∧ m'.world.listed = m.world.listed ∧
    ∀ c : Command, (m'.world.execute c).2 = (m.world.execute c).2
  /-- No callback was invoked twice. -/
  once : (done.filterMap fun e => e.2.callback?).Nodup
  /-- As many slots are occupied as callbacks are in the list. -/
  size : ∀ n t, m.world.tokens.get? n = some t → t.registry.occupants.length = (Registry.toList t.registry).length
  /-- A callback that is connected comes last in the list. -/
  connected : ∀ n t cb, m.world.tokens.get? n = some t → (m.world.register n t cb).1.listed = m.world.listed.append n cb
  /-- A firing takes the whole list, in order. -/
  fired : ∀ n t, m.world.tokens.get? n = some t →
    (m.world.takeAll n).1.listed = m.world.listed.drain n ∧ (m.world.takeAll n).2 = Registry.toList t.registry
  /-- A connection that is dropped disconnects its own callback and nothing else. -/
  dropped : ∀ c k, m.world.connections.get? c = some k → (m.world.dropConnection c).listed = m.world.listed.without c

theorem Moment.Reaches.followsLists {m : Moment Slots} {done : List (World Slots × Task)}
    (hr : Moment.Reaches ({} : Moment Slots) done m) : m.FollowsLists done := by
  obtain ⟨κ, done', v, hv, hm, hd, hsound, hgone⟩ := hr.sound
  constructor
  case lists =>
    refine ⟨done', v, hv, hd.tasks, hm.tasks.symm, hm.world.listed.symm, fun c => ?_⟩
    obtain ⟨-, -, heq⟩ := hm.world.execute c
    exact heq.symm
  case once =>
    have htasks : done.filterMap (fun e => e.2.callback?) = done'.filterMap fun e => e.2.callback? := by
      have h := congrArg (List.filterMap Task.callback?) hd.tasks
      rw [List.filterMap_map, List.filterMap_map] at h
      exact h.symm
    rw [htasks]
    exact (List.nodup_append.1 (hgone.nodup.of_map _)).1
  case size =>
    exact fun n t _ => (Slots.length_occupants t.registry).symm
  case connected =>
    intro n t cb hn
    obtain ⟨t', hn', ht⟩ := hm.world.token_some hn
    rw [(hm.world.register hn ht cb).listed, hm.world.listed]
    exact World.listed_register hm.world.tokens.keyed_right hn' cb
  case fired =>
    intro n t hn
    refine ⟨?_, by rw [World.takeAll_snd, hn]; rfl⟩
    rw [(hm.world.takeAll n).1.listed, hm.world.listed]
    exact World.listed_takeAll hm.world.tokens.keyed_right n
  case dropped =>
    intro c k hc
    obtain ⟨k', hc'⟩ : ∃ k', v.world.connections.get? c = some k' := by
      rcases hm.world.connections.cases c with ⟨hnone, -⟩ | ⟨-, k', -, hc', -⟩
      · exact nomatch hnone.symm.trans hc
      · exact ⟨k', hc'⟩
    rw [(hm.world.dropConnection c).listed, hm.world.listed]
    exact World.listed_dropConnection hsound.linked hm.world.tokens.keyed_right hc'

/-- Whatever commands are given, and whatever commands callbacks run while firings are in progress, slots do what lists
do: at the end of the run, in what every command gives back, and at every moment in between. -/
theorem slots_follow_lists :
    (∀ commands : List Command,
      (World.performAll {} commands : World Slots).listed = (World.performAll {} commands : World Arrivals).listed ∧
      (∀ c, ((World.performAll {} commands : World Slots).perform c).2 =
        ((World.performAll {} commands : World Arrivals).perform c).2) ∧
      ∃ done, Moment.Reaches ({} : Moment Slots) done ⟨World.performAll {} commands, []⟩) ∧
    (∀ done (m : Moment Slots), Moment.Reaches {} done m → m.FollowsLists done) ∧
    ∀ done' (m' : Moment Arrivals), Moment.Reaches {} done' m' →
      ∃ done m, Moment.Reaches ({} : Moment Slots) done m ∧ done.map (·.2) = done'.map (·.2) ∧ m.tasks = m'.tasks ∧
        m.world.listed = m'.world.listed := by
  refine ⟨fun commands => ?_, fun done m hr => hr.followsLists, fun done' m' hr => ?_⟩
  · obtain ⟨κ, hκ⟩ := World.mirrors_performAll commands
    refine ⟨hκ.listed, fun c => ?_, Moment.reaches_performAll commands⟩
    obtain ⟨-, -, heq⟩ := hκ.perform c
    exact heq
  · obtain ⟨κ, done, m, hm, hmir, hd⟩ := hr.mirrors Moment.mirrors_empty
    exact ⟨done, m, hm, hd.tasks.symm, hmir.tasks, hmir.world.listed⟩

end Gateway.Signal
