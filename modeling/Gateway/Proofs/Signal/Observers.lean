import Gateway.Proofs.Signal.Signalled
import Gateway.Proofs.Signal.Holders
import Gateway.Proofs.Signal.Origins
/-!
# Everyone learns of a firing

While no firing is in progress, whoever is to learn of a firing has learnt of it
(`no_missed_signal`): the descendants of a token that has fired have fired, the waits
that it aborts have ended, and the futures for its firing are ready from then on.

A token that is dropped before it fires cuts its children off, so descendants are
counted through tokens that are alive.
-/
namespace Gateway.Signal

/-- A living token that was made as a child of the token `n`, or of a living descendant of it. -/
inductive World.Descends {R : Type → Type} (w : World R) (done : List (World R × Task)) (n : Nat) : Nat → Prop where
  | child {e : World R × Task} {c : Nat} (he : e ∈ done) (hm : e.1.MakesChild e.2 n c)
    (hc : (w.tokens.get? c).isSome = true) : Descends w done n c
  | step {e : World R × Task} {p c : Nat} (h : Descends w done n p) (he : e ∈ done) (hm : e.1.MakesChild e.2 p c)
    (hc : (w.tokens.get? c).isSome = true) : Descends w done n c

/-! ## Futures for a firing -/

/-- The future ends at its next poll: what it is for has happened. -/
def World.Ready {R : Type → Type} (w : World R) (n : Nat) (u : Future) : Prop :=
  (u.source = .firing n none ∧ ∃ t, w.tokens.get? n = some t ∧ t.isFired = true) ∨
    ∃ l, u.source = .firing n (some l) ∧ u.outcome.isSome = true

theorem World.Ready.poll {R : Type → Type} [Registry R] {w : World R} {n : Nat} {u : Future} (h : w.Ready n u)
    (hc : u.completed = false) (name : Name) (f : Nat) : (w.pollFuture name f u).2 = .ok := by
  obtain ⟨source, outcome, watcher, completed⟩ := u
  rcases h with ⟨hs, t, ht, hf⟩ | ⟨l, hs, ho⟩
  · obtain rfl : completed = false := hc
    obtain rfl : source = _ := hs
    simp [pollFuture, ht, hf]
  · obtain rfl : completed = false := hc
    obtain rfl : source = _ := hs
    obtain ⟨o, rfl⟩ := Option.isSome_iff_exists.1 ho
    rfl

/-- What holds of every world besides: tokens are held, and a future is connected to the token for whose firing it is. -/
structure Standing.Watched (a : Standing Arrivals) : Prop where
  held : a.Held
  token : ∀ f u n l, a.world.futures.get? f = some u → u.source = .firing n (some l) → l.token = n

theorem Moves.watched {a b : Standing Arrivals} {ds : List Deed} (hm : Moves a ds b) (hs : a.world.Sound)
    (h : a.Watched) : b.Watched := by
  refine (hm.keeps hs (P := fun _ b => b.Watched) h ?_).2
  rintro ds b ds' c hb hsound hm -
  refine ⟨hm.held hsound.linked.token_lt hb.held, fun f u' n l hu' hs' => ?_⟩
  rcases hm.future hu' with ⟨-, hnew, -⟩ | ⟨u, hu, -, -, hsrc | ⟨m, l', t, -, hsrc, hl, -⟩⟩
  · exact absurd hs' (hnew n l)
  · exact hb.token f u n l hu (hsrc ▸ hs')
  · rw [hs'] at hsrc
    cases hsrc
    exact hl

/-- A future that waits for a firing keeps the token alive. -/
theorem Standing.Held.token_some {a : Standing Arrivals} (h : a.Held) {f n : Nat} {u : Future} {l : Option Link}
    (hf : a.world.futures.get? f = some u) (hs : u.source = .firing n l) (hc : u.completed = false) :
    ∃ t, a.world.tokens.get? n = some t := by
  cases hn : a.world.tokens.get? n with
  | some t => exact ⟨t, rfl⟩
  | none =>
    have hheld := h n
    have hsum := Table.sum_erase_add_le (Future.holds n) hf
    rw [Future.holds_firing hs hc, if_pos rfl] at hsum
    rw [Standing.needs, World.holders, hn] at hheld
    simp only [Option.map_none, Option.getD_none] at hheld
    omega

/-- Once a token has fired, the futures for its firing stay ready until they end. -/
theorem Moves.ready {a b : Standing Arrivals} {ds : List Deed} (hm : Moves a ds b) (hs : a.world.Sound) (hw : a.Watched)
    {fired : Nat → Prop} (hsig : a.world.Signalled fired a.due) {n : Nat} (hn : fired n) {f : Nat} {u : Future}
    (hf : a.world.futures.get? f = some u) (hsrc : u.source = .firing n none ∨ ∃ l, u.source = .firing n (some l) ∧
      u.outcome.isSome = true) {u' : Future} (hf' : b.world.futures.get? f = some u') (hc : u'.completed = false) :
    b.world.Ready n u' := by
  let P := fun (_ : List Deed) (b : Standing Arrivals) => f < b.world.next ∧
    (∃ fired', fired' n ∧ b.world.Signalled fired' b.due) ∧
    ∀ u, b.world.futures.get? f = some u → u.source = .firing n none ∨
      ∃ l, u.source = .firing n (some l) ∧ u.outcome.isSome = true
  have hP : P ds b := by
    refine (hm.keeps hs (P := P) ⟨hs.queued.future_lt f u hf, ⟨fired, hn, hsig⟩, fun u₁ hu₁ => ?_⟩ ?_).2
    · obtain rfl := Option.some.inj (hf.symm.trans hu₁)
      exact hsrc
    · rintro ds b ds' c ⟨hlt, ⟨fired', hn', hsig'⟩, hfut⟩ hb hm hr
      refine ⟨Nat.lt_of_lt_of_le hlt hr.next_le, ⟨_, .inl hn', hr.signalled hm hb.linked hsig'⟩, fun u₂ hu₂ => ?_⟩
      rcases hm.future hu₂ with ⟨rfl, -⟩ | ⟨u₁, hu₁, ho, -, hs₂ | ⟨m, l, t, hs₁, -, -, ht, hunfired⟩⟩
      · exact absurd hlt (Nat.lt_irrefl _)
      · rw [hs₂]
        exact (hfut u₁ hu₁).imp_right fun ⟨l, hl, hout⟩ => ⟨l, hl, ho hout⟩
      · -- A future is not connected to a token that has fired.
        rcases hfut u₁ hu₁ with hs | ⟨l', hs, -⟩
        · rw [hs₁] at hs
          cases hs
          exact absurd ((hsig'.isFired _ t ht).1 hn') (by rw [hunfired]; exact Bool.false_ne_true)
        · rw [hs₁] at hs
          cases hs
  obtain ⟨-, ⟨fired', hn', hsig'⟩, hfut⟩ := hP
  rcases hfut u' hf' with hs' | ⟨l, hs', ho⟩
  · obtain ⟨t, ht⟩ := (hm.watched hs hw).held.token_some hf' hs' hc
    exact .inl ⟨hs', t, ht, (hsig'.isFired n t ht).1 hn'⟩
  · exact .inr ⟨l, hs', ho⟩

/-! ## While no firing is in progress -/

namespace World

variable {w : World Arrivals} {fired : Nat → Prop}

theorem Signalled.now (h : w.Signalled fired []) {x : Keeper} {l : Link} {o : Owner} (hx : w.kept? x = some (l, o))
    (hl : fired l.token) : w.Settled o :=
  (h.settled x l o hx hl).resolve_right fun ⟨_, hcb, _⟩ => (nomatch hcb)

theorem Signalled.child (h : w.Signalled fired []) {c : Nat} {t : Token Arrivals} {l : Link}
    (hc : w.tokens.get? c = some t) (hp : t.parent = some l) (hl : fired l.token) : t.isFired = true :=
  h.now (kept?_token hc hp) hl t hc

theorem Signalled.wait (h : w.Signalled fired []) {f v ticket : Nat} {u : Future} {l : Link}
    (hf : w.futures.get? f = some u) (hs : u.source = .wait v ticket (some l)) (hl : fired l.token) :
    u.outcome.isSome = true := by
  have hk : w.kept? (.future f) = some (l, .wait v ticket) := by
    rw [kept?, hf, Option.bind_some, Future.kept?, hs]
    rfl
  exact h.now hk hl f u (some l) hf hs

theorem Signalled.firing (h : w.Signalled fired []) {f n : Nat} {u : Future} {l : Link}
    (hf : w.futures.get? f = some u) (hs : u.source = .firing n (some l)) (hc : u.completed = false)
    (hl : fired l.token) : u.outcome.isSome = true := by
  have hk : w.kept? (.future f) = some (l, .firing f) := by
    rw [kept?, hf, Option.bind_some, Future.kept?, hs, hc]
    rfl
  exact h.now hk hl u hf

end World

/-- Who is alive when no firing is in progress has learnt of every firing it was to learn of. -/
theorem Moment.Reaches.descends {done : List (World Arrivals × Task)} {m : Moment Arrivals}
    (hr : Moment.Reaches ({} : Moment Arrivals) done m) {fired : Nat → Prop} (h : m.world.Signalled fired []) {n : Nat}
    (hn : fired n) {c : Nat} (hd : m.world.Descends done n c) : ∃ t, m.world.tokens.get? c = some t ∧ t.isFired = true := by
  induction hd with
  | child he hm hc =>
    obtain ⟨t, ht⟩ := Option.isSome_iff_exists.1 hc
    obtain ⟨l, hp, hl⟩ := hr.child he hm ht
    exact ⟨t, ht, h.child ht hp (hl ▸ hn)⟩
  | step _ he hm hc ih =>
    obtain ⟨t', hp', hf⟩ := ih
    obtain ⟨t, ht⟩ := Option.isSome_iff_exists.1 hc
    obtain ⟨l, hp, hl⟩ := hr.child he hm ht
    exact ⟨t, ht, h.child ht hp (hl ▸ (h.isFired _ t' hp').2 hf)⟩

theorem Moment.Reaches.ready {done later : List (World Arrivals × Task)} {m m' : Moment Arrivals}
    (hr : Moment.Reaches ({} : Moment Arrivals) done m) (hend : m.tasks = []) {fired : Nat → Prop}
    (h : m.world.Signalled fired []) {n : Nat} (hn : fired n) {e : World Arrivals × Task} (he : e ∈ done) {f : Nat}
    (hm : e.1.MakesCancelled e.2 n f) {u : Future} (hf : m.world.futures.get? f = some u) (hc : u.completed = false)
    (hr' : m.Reaches later m') {u' : Future} (hf' : m'.world.futures.get? f = some u') (hc' : u'.completed = false) :
    m'.world.Ready n u' := by
  have hdue : m.standing.due = [] := by rw [Moment.standing, hend]; rfl
  have hwatched := hr.moves.watched World.sound_empty ⟨Standing.held_empty, fun _ _ _ _ h => by cases h⟩
  refine hr'.moves.ready hr.once.1 hwatched (hdue ▸ h) hn hf ?_ hf' hc'
  obtain ⟨l, hs⟩ := hr.cancelled he hm hf
  cases l with
  | none => exact .inl hs
  | some l =>
    have hl := hwatched.token f u n l hf hs
    exact .inr ⟨l, hs, h.firing hf hs hc (hl ▸ hn)⟩

/-! ## The same for slots -/

theorem World.Mirrors.descends {κ : KeyPairs} {w : World Slots} {v : World Arrivals} (h : w.Mirrors κ v)
    {done : List (World Slots × Task)} {done' : List (World Arrivals × Task)} (hside : SideBySide done done') {n c : Nat}
    (hd : w.Descends done n c) : v.Descends done' n c := by
  have halive : ∀ c, (w.tokens.get? c).isSome = true → (v.tokens.get? c).isSome = true := by
    intro c hc
    obtain ⟨t, ht⟩ := Option.isSome_iff_exists.1 hc
    obtain ⟨t', ht', -⟩ := h.token_some ht
    rw [ht']
    rfl
  induction hd with
  | child he hm hc =>
    obtain ⟨e', he', ⟨κ', hκ⟩, htask⟩ := hside.mem he
    exact .child he' (htask ▸ hκ.makesChild hm) (halive _ hc)
  | step _ he hm hc ih =>
    obtain ⟨e', he', ⟨κ', hκ⟩, htask⟩ := hside.mem he
    exact .step ih he' (htask ▸ hκ.makesChild hm) (halive _ hc)

/-- A token has fired at some moment, and no firing is in progress at a later one. Then everyone has learnt of it. -/
theorem no_missed_signal {done done' : List (World Slots × Task)} {m m' : Moment Slots} (hr : Moment.Reaches {} done m)
    {n : Nat} {t : Token Slots} (hn : m.world.tokens.get? n = some t) (hfired : t.isFired = true)
    (hr' : m.Reaches done' m') (hend : m'.tasks = []) :
    (∀ c, m'.world.Descends (done ++ done') n c → ∃ t, m'.world.tokens.get? c = some t ∧ t.isFired = true) ∧
    (∀ e ∈ done ++ done', ∀ f u, e.1.MakesWait e.2 n f → m'.world.futures.get? f = some u → u.outcome.isSome = true) ∧
    ∀ e ∈ done ++ done', ∀ f u, e.1.MakesCancelled e.2 n f → m'.world.futures.get? f = some u → u.completed = false →
      ∀ later m'' u', m'.Reaches later m'' → m''.world.futures.get? f = some u' → u'.completed = false →
        ∀ name, (m''.world.pollFuture name f u').2 = .ok := by
  -- The run over lists is signalled at its end, with nothing due, and what is read off here is the same in both.
  obtain ⟨κ, dv, v, hv, hm, hdone⟩ := hr.mirrored Moment.mirrors_empty
  obtain ⟨κ', dv', v', hv', hm', hdone'⟩ := hr'.mirrored hm
  obtain ⟨tv, hnv, ht⟩ := hm.world.token_some hn
  have hall := hv.trans hv'
  have hside : SideBySide (done ++ done') (dv ++ dv') := List.rel_append hdone hdone'
  obtain ⟨fired, -, hsig⟩ := hv.moves.signalled World.sound_empty World.signalled_empty
  have hnf : fired n := (hsig.isFired n tv hnv).2 (ht.isFired ▸ hfired)
  obtain ⟨fired', hle, hsig'⟩ := hv'.moves.signalled hv.once.1 hsig
  have hnow : v'.world.Signalled fired' [] := by
    have hdue : v'.standing.due = [] := by rw [Moment.standing, ← hm'.tasks, hend]; rfl
    exact hdue ▸ hsig'
  refine ⟨fun c hd => ?_, fun e he f u hmake hf => ?_, fun e he f u hmake hf hc later m'' u' hr'' hf' hc' name => ?_⟩
  · obtain ⟨t', hc', hft⟩ := hall.descends hnow (hle n hnf) (hm'.world.descends hside hd)
    rcases hm'.world.tokens.cases c with ⟨-, hnone⟩ | ⟨t₁, t₂, ht₁, ht₂, htt⟩
    · cases hnone.symm.trans hc'
    · obtain rfl := Option.some.inj (ht₂.symm.trans hc')
      exact ⟨t₁, ht₁, htt.isFired.trans hft⟩
  · obtain ⟨uv, huv, hu⟩ := hm'.world.future_some hf
    obtain ⟨e', he', ⟨_, he₁⟩, he₂⟩ := hside.mem he
    obtain ⟨_, _, l, hs, hl⟩ := hall.wait he' (he₂ ▸ he₁.makesWait hmake) huv
    rw [hu.outcome]
    exact hnow.wait huv hs (hl ▸ hle n hnf)
  · obtain ⟨uv, huv, hu⟩ := hm'.world.future_some hf
    obtain ⟨e', he', ⟨_, he₁⟩, he₂⟩ := hside.mem he
    obtain ⟨_, _, v'', hv'', hm'', -⟩ := hr''.mirrored hm'
    obtain ⟨uv', huv', hu'⟩ := hm''.world.future_some hf'
    have hready := hall.ready (hm'.tasks ▸ hend) hnow (hle n hnf) he' (he₂ ▸ he₁.makesCancelled hmake) huv
      (hu.completed ▸ hc) hv'' huv' (hu'.completed ▸ hc')
    obtain ⟨_, -, hpoll⟩ := hm''.world.pollFuture name f hu'
    rw [hpoll]
    exact hready.poll (hu'.completed ▸ hc') name f

/-- A child, a wait and a future that have learnt of a firing. -/
theorem no_missed_signal_kinds : ∃ done, ∃ m : Moment Slots, Moment.Reaches {} done m ∧
    (∃ t, m.world.tokens.get? 1 = some t ∧ t.isFired = true) ∧
    (∃ u, m.world.futures.get? 3 = some u ∧ u.outcome.isSome = true) ∧
    ∃ u, m.world.futures.get? 4 = some u ∧ ∀ name, (m.world.pollFuture name 4 u).2 = .ok := by
  have htoken := (Moment.Reaches.refl (m := ({} : Moment Slots))).command (.token ['g'] none)
  have hchild := htoken.task.command (.token ['c'] (some ['g']))
  have hcondvar := hchild.task.command (.condvar ['v'])
  have hwait := hcondvar.task.command (.wait ['v'] ['w'] (some ['g']))
  have hfuture := hwait.task.command (.cancelled ['g'] ['f'])
  have hfire := hfuture.task.command (.fire ['g'])
  have hend := hfire.task.task.task.task.task
  obtain ⟨hchildren, hwaits, hfutures⟩ := no_missed_signal (n := 0) hend rfl rfl .refl rfl
  refine ⟨_, _, hend, hchildren 1 (.child (List.getElem_mem (n := 1) (by simp)) (.intro rfl) rfl),
    ⟨_, rfl, hwaits _ (List.getElem_mem (n := 3) (by simp)) 3 _ (.intro rfl rfl) rfl⟩,
    ⟨_, rfl, hfutures _ (List.getElem_mem (n := 4) (by simp)) 4 _ (.intro rfl) rfl rfl [] _ _ .refl rfl rfl⟩⟩

/-- It is not so that every living descendant learns: a token that is dropped before the firing cuts its children off. -/
theorem cut_off : ¬ ∀ (done : List (World Slots × Task)) (m : Moment Slots) (n c : Nat) (t t' : Token Slots),
    Moment.Reaches {} done m → m.tasks = [] →
    Relation.TransGen (fun p c => ∃ e ∈ done, e.1.MakesChild e.2 p c) n c →
    m.world.tokens.get? n = some t → t.isFired = true → m.world.tokens.get? c = some t' → t'.isFired = true := by
  intro h
  have htoken := (Moment.Reaches.refl (m := ({} : Moment Slots))).command (.token ['g'] none)
  have hparent := htoken.task.command (.token ['p'] (some ['g']))
  have hchild := hparent.task.command (.token ['c'] (some ['p']))
  have hdrop := hchild.task.command (.drop ['p'])
  have hfire := hdrop.task.command (.fire ['g'])
  have hfired := h _ _ 0 2 _ _ hfire.task.task rfl
    (.tail (.single ⟨_, List.getElem_mem (n := 1) (by simp), .intro rfl⟩)
      ⟨_, List.getElem_mem (n := 2) (by simp), .intro rfl⟩) rfl rfl rfl
  cases hfired

end Gateway.Signal
