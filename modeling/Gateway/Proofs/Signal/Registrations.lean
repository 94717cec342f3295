import Mathlib.Data.Set.Card
import Gateway.Proofs.Signal.Signalled
import Gateway.Proofs.Signal.Firing
import Gateway.Proofs.Signal.Waiting
/-!
# No registration is leaked

As many callbacks are connected to a token as there are living owners of registrations
with it that no firing has taken, and as many waits are queued at a condition variable as
are alive and undecided (`no_leaked_registrations`).

An owner that keeps a link to a living token either is connected there or has had its
callback taken (`World.Accounted`). Both at once is impossible (`World.Gone`), and
whatever is connected has an owner (`World.Linked`).
-/
namespace Gateway.Signal

/-! ## Connected or taken -/

/-- A link to a living token leads to a callback that is connected, or to one of those that are
gone from their tokens. -/
def World.Accounted (w : World Arrivals) (gone : List Callback) : Prop :=
  ∀ x l o t, w.kept? x = some (l, o) → w.tokens.get? l.token = some t →
    (∃ cb, (l.key.place, cb) ∈ w.entries l.token) ∨ ∃ cb ∈ gone, cb.owner = o

namespace World

variable {w w' : World Arrivals} {gone gone' : List Callback}

theorem accounted_empty : ({} : World Arrivals).Accounted [] := fun _ _ _ _ _ h => (nomatch h)

theorem Accounted.mono (h : w.Accounted gone) (hsub : gone ⊆ gone') : w.Accounted gone' :=
  fun x l o t hx ht => (h x l o t hx ht).imp_right fun ⟨cb, hcb, ho⟩ => ⟨cb, hsub hcb, ho⟩

theorem Accounted.loses (h : w.Accounted gone) (hl : w.Linked) {x : Option Keeper} (hlose : Loses x w w') :
    w'.Accounted gone := by
  intro y l o t' hy ht'
  rw [hlose.kept] at hy
  split at hy
  · cases hy
  · rename_i hxy
    obtain ⟨t, ht, -⟩ := hlose.toContinues.isFired (hl.link_lt y l o hy) ht'
    refine (h y l o t hy ht).imp_left fun ⟨cb, he⟩ => ⟨cb, ?_⟩
    obtain rfl := hl.owner_eq hy he
    exact hlose.connected hl hy hxy he ht'

theorem Accounted.gains (h : w.Accounted gone) (hl : w.Linked) {x : Keeper} {l : Link} {cb : Callback}
    (hg : Gains x l cb w w') : w'.Accounted gone := by
  intro y l' o t' hy ht'
  rw [hg.kept] at hy
  split at hy
  · cases hy
    refine .inl ⟨cb, ?_⟩
    rw [hg.entries _ t' ht', if_pos rfl]
    exact List.mem_append_right _ (List.mem_singleton_self _)
  · obtain ⟨t, ht, -⟩ := hg.toContinues.isFired (hl.link_lt y l' o hy) ht'
    exact (h y l' o t hy ht).imp_left fun ⟨cb', he⟩ => ⟨cb', hg.connected he ht'⟩

theorem Accounted.takeAll (h : w.Accounted gone) (hl : w.Linked) (n : Nat) :
    (w.takeAll n).1.Accounted ((w.takeAll n).2 ++ gone) := by
  intro x l o t' hx ht'
  rw [kept?_takeAll] at hx
  obtain ⟨t, ht, -⟩ := of_get?_takeAll ht'
  rcases h x l o t hx ht with ⟨cb, he⟩ | ⟨cb, hcb, ho⟩
  · by_cases hn : n = l.token
    · subst hn
      refine .inr ⟨cb, List.mem_append_left _ ?_, hl.owner_eq hx he⟩
      rw [takeAll_snd_eq]
      exact List.mem_map.2 ⟨_, he, rfl⟩
    · refine .inl ⟨cb, ?_⟩
      rwa [entries_takeAll, if_neg hn]
  · exact .inr ⟨cb, List.mem_append_right _ hcb, ho⟩

end World

theorem Rewires.accounted {a b : Standing Arrivals} {ds : List Deed} (hr : Rewires a ds b) (hl : a.world.Linked)
    {invoked : List Callback} (h : a.world.Accounted (invoked ++ a.due)) :
    b.world.Accounted (invoked ++ ds.filterMap Deed.invoked? ++ b.due) := by
  cases hr with
  | lose hlose | flash _ hlose => exact (World.Accounted.loses h hl hlose).mono (by simp [Deed.invoked?])
  | gain hg _ => exact (World.Accounted.gains h hl hg).mono (by simp [Deed.invoked?])
  | invoke _ hlose _ => exact (World.Accounted.loses h hl hlose).mono (by simp [Deed.invoked?])
  | fire n | fireChild n =>
    refine (World.Accounted.takeAll h hl n).mono fun cb hcb => ?_
    -- What is taken is due now.
    simp only [List.mem_append, List.mem_cons, List.filterMap_cons, List.filterMap_nil, Deed.invoked?] at hcb ⊢
    tauto

theorem Moment.Reaches.accounted {done : List (World Arrivals × Task)} {m : Moment Arrivals}
    (hr : Moment.Reaches ({} : Moment Arrivals) done m) :
    m.world.Accounted ((done.filterMap fun e => e.2.callback?) ++ m.standing.due) := by
  have haccounted := (hr.moves.keeps World.sound_empty
    (P := fun ds b => b.world.Accounted (ds.filterMap Deed.invoked? ++ b.due)) World.accounted_empty ?_).2
  · rwa [Deed.filterMap_deedsOf World.invoked_deeds] at haccounted
  · intro ds b ds' c hP hb _ hr
    rw [List.filterMap_append]
    exact hr.accounted hb.linked hP

/-! ## What is taken -/

/-- The task fires a token and takes the owner's callback from it. -/
def World.Takes {R : Type → Type} [Registry R] (w : World R) (task : Task) (o : Owner) : Prop :=
  ∃ n t cb, w.Fires task n ∧ w.tokens.get? n = some t ∧ cb ∈ Registry.toList t.registry ∧ cb.owner = o

theorem World.takes_iff {w : World Arrivals} {task : Task} {o : Owner} :
    w.Takes task o ↔ ∃ cb, .invoke cb ∈ (w.step task).2 ∧ cb.owner = o := by
  constructor
  · rintro ⟨n, t, cb, hf, ht, hcb, ho⟩
    obtain ⟨e, he, rfl⟩ := List.mem_map.1 hcb
    exact ⟨e.2, invoke_mem_step.2 ⟨n, hf, e.1, World.entries_of_get? ht ▸ he⟩, ho⟩
  · rintro ⟨cb, hcb, ho⟩
    obtain ⟨n, hf, k, he⟩ := invoke_mem_step.1 hcb
    obtain ⟨t, ht, he⟩ := World.get?_of_mem_entries he
    exact ⟨n, t, cb, hf, ht, List.mem_map.2 ⟨_, he, rfl⟩, ho⟩

/-- What has been taken is due, or was invoked since. -/
theorem Moment.Reaches.taken {done : List (World Arrivals × Task)} {m : Moment Arrivals}
    (hr : Moment.Reaches ({} : Moment Arrivals) done m) (o : Owner) : (∃ e ∈ done, e.1.Takes e.2 o) ↔
      ∃ cb ∈ (done.filterMap fun e => e.2.callback?) ++ m.standing.due, cb.owner = o := by
  have hmem : ∀ {done : List (World Arrivals × Task)} {m : Moment Arrivals} {cb : Callback},
      cb ∈ (done.filterMap fun e => e.2.callback?) ++ m.standing.due ↔ .invoke cb ∈ done.map (·.2) ∨ .invoke cb ∈ m.tasks :=
    fun {_ _ _} => List.mem_append.trans (or_congr mem_callbacks_done mem_callbacks)
  simp only [hmem]
  induction hr with
  | refl => simp
  | command _ c ih =>
    refine ih.trans (exists_congr fun cb => and_congr_left fun _ => or_congr_right ?_)
    simp
  | @task done w t rest _ ih =>
    have hsplit : (∃ e ∈ done ++ [(w, t)], e.1.Takes e.2 o) ↔ (∃ e ∈ done, e.1.Takes e.2 o) ∨ w.Takes t o := by
      simp [or_and_right, exists_or]
    refine hsplit.trans ((or_congr ih World.takes_iff).trans ?_)
    rw [← exists_or]
    refine exists_congr fun cb => ?_
    rw [← or_and_right]
    refine and_congr_left fun _ => ?_
    -- The task is done now, and what it leaves to do comes first.
    simp only [List.map_append, List.mem_append, List.map_cons, List.map_nil, List.mem_cons, List.not_mem_nil, or_false]
    tauto

/-! ## Owners that are alive -/

/-- Someone who is alive and registered with the token `n`: by whom the link is kept, and whom the callback is for. -/
inductive World.Owns {R : Type → Type} (w : World R) (n : Nat) : Keeper → Owner → Prop where
  | connection {c : Nat} {k : Connection} (h : w.connections.get? c = some k) (hl : k.link.token = n) :
    Owns w n (.connection c) (.connection c)
  | child {c : Nat} {t : Token R} {l : Link} (h : w.tokens.get? c = some t) (hp : t.parent = some l) (hl : l.token = n) :
    Owns w n (.token c) (.child c)
  /-- Also if the wait has ended. -/
  | wait {f v ticket : Nat} {u : Future} {l : Link} (h : w.futures.get? f = some u)
    (hs : u.source = .wait v ticket (some l)) (hl : l.token = n) : Owns w n (.future f) (.wait v ticket)
  /-- A future that has been polled, but not to its end. -/
  | firing {f m : Nat} {u : Future} {l : Link} (h : w.futures.get? f = some u) (hs : u.source = .firing m (some l))
    (hc : u.completed = false) (hl : l.token = n) : Owns w n (.future f) (.firing f)

theorem World.owns_iff {R : Type → Type} {w : World R} {n : Nat} {x : Keeper} {o : Owner} :
    w.Owns n x o ↔ ∃ l, w.kept? x = some (l, o) ∧ l.token = n := by
  constructor
  · intro h
    cases h with
    | connection h hl => exact ⟨_, by rw [kept?, h]; rfl, hl⟩
    | child h hp hl => exact ⟨_, kept?_token h hp, hl⟩
    | wait h hs hl => exact ⟨_, by rw [kept?, h, Option.bind_some, Future.kept?, hs]; rfl, hl⟩
    | firing h hs hc hl => exact ⟨_, by rw [kept?, h, Option.bind_some, Future.kept?, hs, hc]; rfl, hl⟩
  · rintro ⟨l, hx, hl⟩
    cases o with
    | connection c =>
      obtain ⟨rfl, k, hk, rfl⟩ := keptBy_of_kept? hx
      exact .connection hk hl
    | child c =>
      obtain ⟨rfl, t, ht, hp⟩ := keptBy_of_kept? hx
      exact .child ht hp hl
    | wait v ticket =>
      obtain ⟨f, u, rfl, hu, hs⟩ := keptBy_of_kept? hx
      exact .wait hu hs hl
    | firing f =>
      obtain ⟨rfl, u, m, hu, hs, hc⟩ := keptBy_of_kept? hx
      exact .firing hu hs hc hl

/-! ## Counting -/

theorem encard_of_nodup {α : Type} {l : List α} (h : l.Nodup) : {a | a ∈ l}.encard = l.length := by
  classical
  have hcoe : {a | a ∈ l} = (l.toFinset : Set α) := by
    ext a
    simp
  rw [hcoe, Set.encard_coe_eq_coe_finsetCard, List.toFinset_card_of_nodup h]

namespace World

variable {w : World Arrivals}

/-- An owner is connected to a living token unless its callback has been taken from it. -/
theorem Accounted.mem_entries {gone : List Callback} (h : w.Accounted gone) (hg : w.Gone gone) (hl : w.Linked) {n : Nat}
    {t : Token Arrivals} (hn : w.tokens.get? n = some t) (o : Owner) : o ∈ (w.entries n).map (fun e => e.2.owner) ↔
      ∃ x, w.Owns n x o ∧ ¬ ∃ cb ∈ gone, cb.owner = o := by
  constructor
  · intro ho
    obtain ⟨e, he, rfl⟩ := List.mem_map.1 ho
    obtain ⟨x, l, hx, hln, -⟩ := hl.kept n e he
    exact ⟨x, owns_iff.2 ⟨l, hx, hln⟩, fun ⟨cb, hcb, ho⟩ => hg.free cb hcb n e he ho.symm⟩
  · rintro ⟨x, hx, hnot⟩
    obtain ⟨l, hk, rfl⟩ := owns_iff.1 hx
    obtain ⟨cb, he⟩ := (h x l o t hk hn).resolve_right hnot
    exact List.mem_map.2 ⟨_, he, hl.owner_eq hk he⟩

theorem Accounted.size {gone : List Callback} (h : w.Accounted gone) (hg : w.Gone gone) (hl : w.Linked) {n : Nat}
    {t : Token Arrivals} (hn : w.tokens.get? n = some t) :
    {x | ∃ o, w.Owns n x o ∧ ¬ ∃ cb ∈ gone, cb.owner = o}.encard = t.size := by
  -- Owners and those who keep their links are counted alike, as each keeps one link and each has one keeper.
  have hinj : Set.InjOn (fun x => (w.kept? x).map (·.2)) {x | ∃ o, w.Owns n x o ∧ ¬ ∃ cb ∈ gone, cb.owner = o} := by
    rintro x ⟨o, hx, -⟩ y ⟨o', hy, -⟩ he
    obtain ⟨l, hx, -⟩ := owns_iff.1 hx
    obtain ⟨l', hy, -⟩ := owns_iff.1 hy
    simp only [hx, hy, Option.map_some, Option.some.injEq] at he
    subst he
    exact hl.keeper x y l l' o hx hy
  have himage : (fun x => (w.kept? x).map (·.2)) '' {x | ∃ o, w.Owns n x o ∧ ¬ ∃ cb ∈ gone, cb.owner = o} =
      {o | o ∈ ((w.entries n).map fun e => e.2.owner).map some} := by
    ext o'
    constructor
    · rintro ⟨x, ⟨o, hx, hnot⟩, rfl⟩
      obtain ⟨l, hk, -⟩ := owns_iff.1 hx
      exact List.mem_map.2 ⟨o, (h.mem_entries hg hl hn o).2 ⟨x, hx, hnot⟩, by simp only [hk, Option.map_some]⟩
    · intro ho
      obtain ⟨o, hmem, rfl⟩ := List.mem_map.1 ho
      obtain ⟨x, hx, hnot⟩ := (h.mem_entries hg hl hn o).1 hmem
      obtain ⟨l, hk, -⟩ := owns_iff.1 hx
      exact ⟨x, ⟨o, hx, hnot⟩, by simp only [hk, Option.map_some]⟩
  have hnodup : (((w.entries n).map fun e => e.2.owner).map some).Nodup :=
    (hl.nodup n).map fun _ _ he => Option.some.inj he
  rw [← hinj.encard_image, himage, encard_of_nodup hnodup, List.length_map, List.length_map, entries_of_get? hn, Token.size]
  exact congrArg Nat.cast (List.length_map Prod.snd).symm

theorem Lined.count {R : Type → Type} {w : World R} (h : w.Lined) (hq : w.Queued) {v : Nat} {cv : Condvar Nat}
    (hv : w.condvars.get? v = some cv) : {f | w.Pending v f}.encard = cv.count := by
  have hset : {f | w.Pending v f} = {f | f ∈ cv.waiting.map (·.2)} := by
    ext f
    rw [Set.mem_ofPred_eq, ← h.mem_waiters hq, waiters, hv]
    rfl
  rw [hset, encard_of_nodup ((h.sorted v cv hv).imp Nat.ne_of_lt), List.length_map, Condvar.count]

end World

/-! ## The same for slots -/

namespace World.Mirrors

variable {κ : KeyPairs} {w : World Slots} {v : World Arrivals} (h : w.Mirrors κ v)
include h

theorem pending {c f : Nat} : w.Pending c f ↔ v.Pending c f := by
  unfold Pending
  rcases h.futures.cases f with ⟨hf, hf'⟩ | ⟨u, u', hf, hf', hu⟩
  · simp [hf, hf']
  · obtain ⟨source, outcome, _, _⟩ := u
    obtain ⟨source', _, _, _⟩ := u'
    obtain ⟨hs, rfl, -, -⟩ := hu
    cases hs with
    | firing n hl => simp [hf, hf']
    | wait c' ticket hl => simp [hf, hf']

/-- The same keepers keep links to the same tokens. -/
theorem map_kept? (x : Keeper) :
    (w.kept? x).map (fun e => (e.1.token, e.2)) = (v.kept? x).map fun e => (e.1.token, e.2) := by
  have hlink : ∀ {l l' : Option Link} (o : Owner), Option.Rel (Link.Mirrors κ) l l' →
      (l.map fun l => (l, o)).map (fun e => (e.1.token, e.2)) = (l'.map fun l => (l, o)).map fun e => (e.1.token, e.2) := by
    intro l l' o hl
    cases hl with
    | none => rfl
    | some hl => simp only [Option.map_some, hl.1]
  cases x with
  | connection c =>
    rw [World.kept?, World.kept?]
    rcases h.connections.cases c with ⟨hc, hc'⟩ | ⟨k, k', hc, hc', hk⟩
    · rw [hc, hc']
    · simp only [hc, hc', Option.map_some, hk.link.1]
  | token n =>
    rw [World.kept?, World.kept?]
    rcases h.tokens.cases n with ⟨hn, hn'⟩ | ⟨t, t', hn, hn', ht⟩ <;> rw [hn, hn']
    · rfl
    · exact hlink (.child n) ht.parent
  | future f =>
    rw [World.kept?, World.kept?]
    rcases h.futures.cases f with ⟨hf, hf'⟩ | ⟨u, u', hf, hf', hu⟩
    · rw [hf, hf']
    · rw [hf, hf', Option.bind_some, Option.bind_some]
      obtain ⟨source, outcome, _, completed⟩ := u
      obtain ⟨source', _, _, _⟩ := u'
      obtain ⟨hs, -, -, rfl⟩ := hu
      cases hs with
      | firing n hl =>
        cases completed with
        | true => rfl
        | false => exact hlink (.firing f) hl
      | wait c ticket hl => exact hlink (.wait c ticket) hl

theorem owns {n : Nat} {x : Keeper} {o : Owner} : w.Owns n x o ↔ v.Owns n x o := by
  have hmap : ∀ e : Option (Link × Owner), (∃ l, e = some (l, o) ∧ l.token = n) ↔
      e.map (fun e => (e.1.token, e.2)) = some (n, o) := by
    intro e
    rcases e with _ | ⟨l, o'⟩
    · simp
    · simp [and_comm]
  rw [owns_iff, owns_iff, hmap, hmap, h.map_kept?]

theorem takes {task : Task} {o : Owner} : w.Takes task o ↔ v.Takes task o := by
  constructor
  · rintro ⟨n, t, cb, hf, ht, hcb, ho⟩
    obtain ⟨t', ht', hm⟩ := h.token_some ht
    exact ⟨n, t', cb, h.fires.1 hf, ht', hm.toList ▸ hcb, ho⟩
  · rintro ⟨n, t', cb, hf, ht', hcb, ho⟩
    obtain ⟨t, ht, hm⟩ := h.some_token ht'
    exact ⟨n, t, cb, h.fires.2 hf, ht, hm.toList ▸ hcb, ho⟩

end World.Mirrors

/-- At every moment, a token counts its living owners that no firing has taken, and a condition variable its living waits
that are not decided. So both counts are zero when nobody is left. -/
theorem no_leaked_registrations {done : List (World Slots × Task)} {m : Moment Slots} (hr : Moment.Reaches {} done m) :
    (∀ n t, m.world.tokens.get? n = some t →
      {x | ∃ o, m.world.Owns n x o ∧ ∀ e ∈ done, ¬ e.1.Takes e.2 o}.encard = t.size ∧
      ((∀ x o, ¬ m.world.Owns n x o) → t.size = 0)) ∧
    ∀ v cv, m.world.condvars.get? v = some cv →
      {f | m.world.Pending v f}.encard = cv.count ∧ ((∀ f, ¬ m.world.Pending v f) → cv.count = 0) := by
  obtain ⟨κ, done', m', hr', hm, hdone, hsound, hgone⟩ := hr.sound
  constructor
  · intro n t hn
    obtain ⟨t', hn', ht⟩ := hm.world.token_some hn
    have hcount : {x | ∃ o, m.world.Owns n x o ∧ ∀ e ∈ done, ¬ e.1.Takes e.2 o}.encard = t.size := by
      rw [ht.size, ← hr'.accounted.size hgone hsound.linked hn']
      have htakes := fun o => hdone.forall_iff fun _ _ _ task hm => not_congr (@World.Mirrors.takes _ _ _ hm task o)
      simp only [hm.world.owns, htakes, ← hr'.taken, not_exists, not_and]
    refine ⟨hcount, fun hnone => ?_⟩
    simpa [hnone] using hcount.symm
  · intro v cv hv
    have hcount : {f | m.world.Pending v f}.encard = cv.count := by
      rw [← hr'.lined.1.count hsound.queued (hm.world.condvars ▸ hv)]
      simp only [hm.world.pending]
    refine ⟨hcount, fun hnone => ?_⟩
    simpa [hnone] using hcount.symm

/-- Owners of every kind, among them a wait that has ended, and a wait that has not. -/
theorem no_leaked_registrations_kinds : ∃ done, ∃ m : Moment Slots, Moment.Reaches {} done m ∧
    {x | ∃ o, m.world.Owns 0 x o ∧ ∀ e ∈ done, ¬ e.1.Takes e.2 o}.encard = 4 ∧ {f | m.world.Pending 3 f}.encard = 1 := by
  have htoken := (Moment.Reaches.refl (m := ({} : Moment Slots))).command (.token ['t'] none)
  have hchild := htoken.task.command (.token ['c'] (some ['t']))
  have hconnection := hchild.task.command (.connect ['t'] ['k'] [])
  have hcondvar := hconnection.task.command (.condvar ['v'])
  have hended := hcondvar.task.command (.wait ['v'] ['w'] (some ['t']))
  have hnotify := hended.task.command (.notify ['v'])
  have hwait := hnotify.task.command (.wait ['v'] ['x'] none)
  have hfuture := hwait.task.command (.cancelled ['t'] ['f'])
  have hpoll := (hfuture.task.command (.poll ['f'])).task
  obtain ⟨htokens, hcondvars⟩ := no_leaked_registrations hpoll
  exact ⟨_, _, hpoll, (htokens 0 _ rfl).1.trans rfl, (hcondvars 3 _ rfl).1.trans rfl⟩

end Gateway.Signal
