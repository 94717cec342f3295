import Gateway.Proofs.Signal.Firing
/-!
# Who is to learn of a firing

Three commands make something that is to learn of a token's firing: a child, a wait, and
a future. As long as it lives it is for the token it was made for (`Moment.Reaches.child`,
`Moment.Reaches.wait`, `Moment.Reaches.cancelled`).
-/
namespace Gateway.Signal

namespace World

variable {R : Type → Type} (w : World R)

/-- The task makes a token that is a child of the token `n`. -/
inductive MakesChild : Task → Nat → Nat → Prop where
  | intro {within : Option Name} {name parent : Name} {n : Nat} {t : Token R} (hn : w.token? parent = some (n, t)) :
    MakesChild (.run within (.token name (some parent))) n w.next

/-- The task makes a wait that is given the token `n`. -/
inductive MakesWait : Task → Nat → Nat → Prop where
  | intro {within : Option Name} {condvar name token : Name} {v n : Nat} {cv : Condvar Nat} {t : Token R}
    (hv : w.condvar? condvar = some (v, cv)) (hn : w.token? token = some (n, t)) :
    MakesWait (.run within (.wait condvar name (some token))) n w.next

/-- The task makes a future for the firing of the token `n`. -/
inductive MakesCancelled : Task → Nat → Nat → Prop where
  | intro {within : Option Name} {token name : Name} {n : Nat} {t : Token R} (hn : w.token? token = some (n, t)) :
    MakesCancelled (.run within (.cancelled token name)) n w.next

end World

/-! ## The steps that make them -/

section Steps

variable {R : Type → Type} [Registry R] {w : World R} {within : Option Name} {n : Nat} {t : Token R}

theorem World.noteResult_done {R : Type → Type} (w : World R) (within : Option Name) : w.noteResult within .done = w := by
  cases within <;> rfl

theorem step_makeChild {name parent : Name} (hn : w.token? parent = some (n, t)) :
    w.step (.run within (.token name (some parent))) = ((w.addChild n t).nameToken name w.next, []) := by
  have hmake : w.makeToken name (some parent) = (w.addChild n t).nameToken name w.next := by
    unfold World.makeToken
    dsimp only
    rw [show (some parent).bind ({ w with next := w.next + 1 } : World R).token? = some (n, t) from hn]
    rfl
  rw [← hmake]
  exact Prod.ext (World.noteResult_done _ within) rfl

theorem step_makeWait {condvar name token : Name} {v : Nat} {cv : Condvar Nat}
    (hv : w.condvar? condvar = some (v, cv)) (hn : w.token? token = some (n, t)) :
    w.step (.run within (.wait condvar name (some token))) = ((w.addWaitFor v cv n t).nameFuture name w.next, []) := by
  have hexec : w.execute (.wait condvar name (some token)) = ((w.addWaitFor v cv n t).nameFuture name w.next, [], .done) := by
    unfold World.execute
    dsimp only
    rw [hv, show (some token).bind w.token? = some (n, t) from hn]
    rfl
  unfold World.step
  dsimp only
  rw [hexec, World.noteResult_done]

theorem step_makeCancelled {token name : Name} (hn : w.token? token = some (n, t)) :
    w.step (.run within (.cancelled token name)) =
      (World.nameFuture { w.hold n with
        next := w.next + 1, futures := w.futures.insert w.next { source := .firing n none } } name w.next, []) := by
  have hexec : w.execute (.cancelled token name) = (World.nameFuture { w.hold n with
      next := w.next + 1, futures := w.futures.insert w.next { source := .firing n none } } name w.next, [], .done) := by
    unfold World.execute
    dsimp only
    rw [hn]
    rfl
  unfold World.step
  dsimp only
  rw [hexec, World.noteResult_done]

end Steps

/-! ## What becomes of them -/

theorem Moment.Reaches.at_task {R : Type → Type} [Registry R] {m m' : Moment R} {done : List (World R × Task)}
    (hr : m.Reaches done m') {e : World R × Task} (he : e ∈ done) : ∃ before rest later,
      m.Reaches before ⟨e.1, e.2 :: rest⟩ ∧
        Moment.Reaches ⟨(e.1.step e.2).1, (e.1.step e.2).2 ++ rest⟩ later m' := by
  induction hr with
  | refl => cases he
  | command _ c ih =>
    obtain ⟨before, rest, later, hbefore, hlater⟩ := ih he
    exact ⟨before, rest, later, hbefore, .command hlater c⟩
  | @task done w t rest hr ih =>
    rcases List.mem_append.1 he with he | he
    · obtain ⟨before, rest, later, hbefore, hlater⟩ := ih he
      exact ⟨before, rest, _, hbefore, .task hlater⟩
    · obtain rfl := List.mem_singleton.1 he
      exact ⟨done, rest, [], hr, .refl⟩

/-- A future keeps what it is for. -/
theorem Moves.source {a b : Standing Arrivals} {ds : List Deed} (hm : Moves a ds b) (hs : a.world.Sound) {f : Nat}
    (hf : f < a.world.next) : f < b.world.next ∧ ∀ u', b.world.futures.get? f = some u' →
      ∃ u, a.world.futures.get? f = some u ∧ (u'.source = u.source ∨
        ∃ n l, u.source = .firing n none ∧ u'.source = .firing n (some l)) := by
  refine (hm.keeps hs (P := fun _ b => f < b.world.next ∧ ∀ u', b.world.futures.get? f = some u' →
    ∃ u, a.world.futures.get? f = some u ∧ (u'.source = u.source ∨
      ∃ n l, u.source = .firing n none ∧ u'.source = .firing n (some l))) ⟨hf, fun u hu => ⟨u, hu, .inl rfl⟩⟩ ?_).2
  rintro ds b ds' c ⟨hlt, hb⟩ - hm hr
  refine ⟨Nat.lt_of_lt_of_le hlt hr.next_le, fun u₂ hu₂ => ?_⟩
  rcases hm.future hu₂ with ⟨rfl, -⟩ | ⟨u₁, hu₁, -, -, hs₂⟩
  · exact absurd hlt (Nat.lt_irrefl _)
  · obtain ⟨u, hu, hs₁⟩ := hb u₁ hu₁
    refine ⟨u, hu, ?_⟩
    rcases hs₂ with hs₂ | ⟨n, l, t, hs₂, hs₂', -⟩
    · rwa [hs₂]
    · rcases hs₁ with hs₁ | ⟨n', l', -, hs₁⟩
      · exact .inr ⟨n, l, hs₁ ▸ hs₂, hs₂'⟩
      · rw [hs₂] at hs₁
        cases hs₁

section Made

variable {w : World Arrivals} {n : Nat} {t : Token Arrivals}

/-- A new child has its parent, and counts a firing if that has fired. -/
theorem World.Sound.child (hs : w.Sound) (hn : w.tokens.get? n = some t) (name : Name) :
    w.next < ((w.addChild n t).nameToken name w.next).next ∧
      ∀ c, ((w.addChild n t).nameToken name w.next).tokens.get? w.next = some c →
        c.parent = some ⟨n, ⟨t.registry.count, 0⟩⟩ ∧ c.count = if t.isFired then 1 else 0 := by
  have hadd := (Moves.one (Move.makeChild (w := w) (d := []) (h := []) hn)).sound hs
  obtain ⟨hnext, htoken⟩ := (moves_nameToken _ [] [] name w.next).token hadd (Nat.lt_succ_self w.next)
  refine ⟨hnext, fun c hc => ?_⟩
  obtain ⟨c', hc', hparent, hcount⟩ := htoken c hc
  have hchild : (w.addChild n t).tokens.get? w.next = some
      { registry := Registry.empty, parent := some ⟨n, ⟨t.registry.count, 0⟩⟩, count := if t.isFired then 1 else 0 } :=
    (Table.get?_insert _ _ _ _).trans (if_pos rfl)
  obtain rfl := Option.some.inj (hchild.symm.trans hc')
  exact ⟨hparent, hcount⟩

theorem World.source_addWaitFor {v : Nat} {cv : Condvar Nat} {u : Future}
    (hu : (w.addWaitFor v cv n t).futures.get? w.next = some u) :
    u.source = .wait v cv.nextTicket (some ⟨n, ⟨t.registry.count, 0⟩⟩) := by
  have hadd : ∀ u, (w.addWaitTo v cv n t).futures.get? w.next = some u →
      u.source = .wait v cv.nextTicket (some ⟨n, ⟨t.registry.count, 0⟩⟩) := by
    intro u hu
    replace hu : (w.futures.insert w.next _).get? w.next = some u := hu
    rw [Table.get?_insert, if_pos rfl] at hu
    cases hu
    rfl
  unfold addWaitFor at hu
  dsimp only at hu
  split at hu
  · obtain ⟨u₀, hu₀, hs, -⟩ := (decides_abortWait _ v cv.nextTicket).of_get? hu
    exact hs.trans (hadd u₀ hu₀)
  · exact hadd u hu

theorem World.Sound.wait (hs : w.Sound) {v : Nat} {cv : Condvar Nat} (hv : w.condvars.get? v = some cv)
    (hn : w.tokens.get? n = some t) (name : Name) : w.next < ((w.addWaitFor v cv n t).nameFuture name w.next).next ∧
      ∀ u, ((w.addWaitFor v cv n t).nameFuture name w.next).futures.get? w.next = some u →
        u.source = .wait v cv.nextTicket (some ⟨n, ⟨t.registry.count, 0⟩⟩) := by
  have hwait := Moves.one (Move.waitFor (w := w) (d := []) (h := []) hv hn)
  have hnext : w.next < (w.addWaitFor v cv n t).next := by
    unfold addWaitFor
    dsimp only
    split
    · rw [(decides_abortWait _ v cv.nextTicket).next]
      exact Nat.lt_succ_self w.next
    · exact Nat.lt_succ_self w.next
  obtain ⟨hlt, hsource⟩ := (moves_nameFuture _ [] [] name w.next).source (hwait.sound hs) hnext
  refine ⟨hlt, fun u hu => ?_⟩
  obtain ⟨u₀, hu₀, hs | ⟨m, l, hs, -⟩⟩ := hsource u hu
  · exact hs.trans (World.source_addWaitFor hu₀)
  · rw [World.source_addWaitFor hu₀] at hs
    cases hs

theorem World.Sound.cancelled (hs : w.Sound) (hn : w.tokens.get? n = some t) (name : Name) {w' : World Arrivals}
    (hw : w' = { w.hold n with
      next := w.next + 1, futures := w.futures.insert w.next { source := .firing n none } }) :
    w.next < (w'.nameFuture name w.next).next ∧
      ∀ u, (w'.nameFuture name w.next).futures.get? w.next = some u → ∃ l, u.source = .firing n l := by
  subst hw
  have hmake := Moves.cons (.hold hn) (.one (Move.cancelled (w := w.hold n) (d := []) (h := []) n))
  obtain ⟨hlt, hsource⟩ := (moves_nameFuture _ [] [] name w.next).source (hmake.sound hs) (Nat.lt_succ_self w.next)
  refine ⟨hlt, fun u hu => ?_⟩
  obtain ⟨u₀, hu₀, hsrc⟩ := hsource u hu
  replace hu₀ : (w.futures.insert w.next _).get? w.next = some u₀ := hu₀
  rw [Table.get?_insert, if_pos rfl] at hu₀
  cases hu₀
  rcases hsrc with hsrc | ⟨m, l, hnone, hsome⟩
  · exact ⟨none, hsrc⟩
  · cases hnone
    exact ⟨some l, hsome⟩

end Made

/-! ## Later in a run -/

namespace Moment.Reaches

variable {done : List (World Arrivals × Task)} {m : Moment Arrivals} (hr : Moment.Reaches ({} : Moment Arrivals) done m)
  {e : World Arrivals × Task} (he : e ∈ done) {n x : Nat}
include hr he

theorem child (hm : e.1.MakesChild e.2 n x) {t : Token Arrivals} (hx : m.world.tokens.get? x = some t) :
    ∃ l, t.parent = some l ∧ l.token = n := by
  obtain ⟨before, rest, later, hbefore, hlater⟩ := hr.at_task he
  obtain ⟨w, task⟩ := e
  cases hm with
  | @intro _ name _ _ t₀ hn =>
    have hs := hbefore.task.once.1
    obtain ⟨hnext, hnew⟩ := hbefore.once.1.child (World.token?_eq_some hn).2 name
    simp only [step_makeChild hn] at hlater hs
    obtain ⟨t', ht', hparent, -⟩ := (hlater.moves.token hs hnext).2 t hx
    exact ⟨_, hparent.trans (hnew t' ht').1, rfl⟩

theorem wait (hm : e.1.MakesWait e.2 n x) {u : Future} (hx : m.world.futures.get? x = some u) :
    ∃ v ticket l, u.source = .wait v ticket (some l) ∧ l.token = n := by
  obtain ⟨before, rest, later, hbefore, hlater⟩ := hr.at_task he
  obtain ⟨w, task⟩ := e
  cases hm with
  | @intro _ _ name _ _ _ _ _ hv hn =>
    have hs := hbefore.task.once.1
    obtain ⟨hnext, hnew⟩ := hbefore.once.1.wait (World.condvar?_eq_some hv) (World.token?_eq_some hn).2 name
    simp only [step_makeWait hv hn] at hlater hs
    obtain ⟨u₀, hu₀, hsrc | ⟨k, l, hsrc, -⟩⟩ := (hlater.moves.source hs hnext).2 u hx
    · exact ⟨_, _, _, hsrc.trans (hnew u₀ hu₀), rfl⟩
    · rw [hnew u₀ hu₀] at hsrc
      cases hsrc

theorem cancelled (hm : e.1.MakesCancelled e.2 n x) {u : Future} (hx : m.world.futures.get? x = some u) :
    ∃ l, u.source = .firing n l := by
  obtain ⟨before, rest, later, hbefore, hlater⟩ := hr.at_task he
  obtain ⟨w, task⟩ := e
  cases hm with
  | @intro _ _ name _ _ hn =>
    have hs := hbefore.task.once.1
    obtain ⟨hnext, hnew⟩ := hbefore.once.1.cancelled (World.token?_eq_some hn).2 name rfl
    simp only [step_makeCancelled hn] at hlater hs
    obtain ⟨u₀, hu₀, hsrc⟩ := (hlater.moves.source hs hnext).2 u hx
    obtain ⟨l₀, hl₀⟩ := hnew u₀ hu₀
    rcases hsrc with hsrc | ⟨k, l, hnone, hsome⟩
    · exact ⟨l₀, hsrc.trans hl₀⟩
    · rw [hl₀] at hnone
      cases hnone
      exact ⟨_, hsome⟩

end Moment.Reaches

/-! ## The same for slots -/

namespace World.Mirrors

variable {κ : KeyPairs} {w : World Slots} {v : World Arrivals} (h : w.Mirrors κ v) {task : Task} {n x : Nat}
include h

theorem makesChild (hm : w.MakesChild task n x) : v.MakesChild task n x := by
  cases hm with
  | intro hn =>
    obtain ⟨t', hn', -⟩ := h.token?_some hn
    exact h.next ▸ .intro hn'

theorem makesWait (hm : w.MakesWait task n x) : v.MakesWait task n x := by
  cases hm with
  | intro hv hn =>
    obtain ⟨t', hn', -⟩ := h.token?_some hn
    exact h.next ▸ .intro ((h.condvar? _).trans hv) hn'

theorem makesCancelled (hm : w.MakesCancelled task n x) : v.MakesCancelled task n x := by
  cases hm with
  | intro hn =>
    obtain ⟨t', hn', -⟩ := h.token?_some hn
    exact h.next ▸ .intro hn'

end World.Mirrors

end Gateway.Signal
