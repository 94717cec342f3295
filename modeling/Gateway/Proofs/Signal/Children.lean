import Gateway.Proofs.Signal.Origins
/-!
# How often a child is fired by its parent

A child is fired once when it is made if its parent has fired before, and once when its
parent is fired next, and never by its parent after that (`child_count`). So a child of
a token that has not fired is fired once, however often its parent is fired, and a child
of one that has is fired once more than it should be.
-/
namespace Gateway.Signal

/-! ## Between the making of a child and now -/

/-- Where the child `c`, which counted `base` when it was made, has the link `l` to its parent, and `done` was done since. -/
structure Raised (c : Nat) (l : Link) (base : Nat) (done : List (World Arrivals × Task)) (m : Moment Arrivals) : Prop where
  parent : ∀ t, m.world.tokens.get? c = some t → t.parent = some l
  called : .invoke (.fireChild c) ∈ done.map (·.2) → ∀ t, m.world.tokens.get? c = some t → t.count = base + 1
  uncalled : .invoke (.fireChild c) ∉ done.map (·.2) → ∀ t, m.world.tokens.get? c = some t → t.count = base
  /-- The first firing of the parent takes the child's callback. -/
  taken : (∃ e ∈ done, e.1.Fires e.2 l.token) → (m.world.tokens.get? c).isSome →
    .invoke (.fireChild c) ∈ done.map (·.2) ∨ .invoke (.fireChild c) ∈ m.tasks
  untaken : (∀ e ∈ done, ¬ e.1.Fires e.2 l.token) →
    .invoke (.fireChild c) ∉ done.map (·.2) ∧ .invoke (.fireChild c) ∉ m.tasks
  connected : (∀ e ∈ done, ¬ e.1.Fires e.2 l.token) → (m.world.tokens.get? c).isSome →
    (m.world.tokens.get? l.token).isSome → (l.key.place, .fireChild c) ∈ m.world.entries l.token

section Step

variable {c : Nat} {l : Link} {base : Nat} {done : List (World Arrivals × Task)} {w : World Arrivals}
  {task : Task} {rest : List Task}

theorem invoked_append : .invoke (.fireChild c) ∈ (done ++ [(w, task)]).map (·.2) ↔
    .invoke (.fireChild c) ∈ done.map (·.2) ∨ task = .invoke (.fireChild c) := by
  rw [List.map_append, List.mem_append, List.map_singleton, List.mem_singleton, eq_comm (b := task)]

theorem fires_append {n : Nat} : (∀ e ∈ done ++ [(w, task)], ¬ e.1.Fires e.2 n) ↔
    (∀ e ∈ done, ¬ e.1.Fires e.2 n) ∧ ¬ w.Fires task n := by
  simp only [List.mem_append, List.mem_singleton, or_imp, forall_and, forall_eq]

variable (h : Raised c l base done ⟨w, task :: rest⟩) (hs : w.Sound)
include h hs

/-- The child's callback is left to be invoked by nothing but a firing of the parent. -/
theorem Raised.fires_of_mem_step (hm : .invoke (.fireChild c) ∈ (w.step task).2) : w.Fires task l.token := by
  obtain ⟨n, hf, k, he⟩ := invoke_mem_step.1 hm
  obtain ⟨x, l', hx, rfl, -⟩ := hs.linked.kept n _ he
  obtain ⟨rfl, t, ht, hp⟩ := World.keptBy_of_kept? hx
  obtain rfl := Option.some.inj ((h.parent t ht).symm.trans hp)
  exact hf

theorem Raised.step (hc : c < w.next) (hl : l.token < w.next)
    (honce : task = .invoke (.fireChild c) → .invoke (.fireChild c) ∉ done.map (·.2))
    (hdirect : w.Fires task c → task = .invoke (.fireChild c)) :
    Raised c l base (done ++ [(w, task)]) ⟨(w.step task).1, (w.step task).2 ++ rest⟩ := by
  have htoken := (step_token hs task hc).2
  have halive : ((w.step task).1.tokens.get? c).isSome → (w.tokens.get? c).isSome := by
    intro ha
    obtain ⟨t', ht'⟩ := Option.isSome_iff_exists.1 ha
    obtain ⟨t, ht, -⟩ := htoken t' ht'
    rw [ht]
    rfl
  constructor
  case parent =>
    intro t' ht'
    obtain ⟨t, ht, hp, -⟩ := htoken t' ht'
    exact hp.trans (h.parent t ht)
  case called =>
    -- The callback is invoked once and nobody else fires the child, so it counts no second firing.
    intro hi t' ht'
    obtain ⟨t, ht, -, hone, hnone⟩ := htoken t' ht'
    by_cases htask : task = .invoke (.fireChild c)
    · have hf : w.Fires task c := htask ▸ .child ht
      rw [hone hf, h.uncalled (honce htask) t ht]
    · rw [hnone (mt hdirect htask), h.called ((invoked_append.1 hi).resolve_right htask) t ht]
  case uncalled =>
    intro hi t' ht'
    obtain ⟨t, ht, -, -, hnone⟩ := htoken t' ht'
    obtain ⟨hdone, htask⟩ := not_or.1 (mt invoked_append.2 hi)
    rw [hnone (mt hdirect htask), h.uncalled hdone t ht]
  case taken =>
    rintro ⟨e, he, hf⟩ ha
    by_cases hsome : ∃ e ∈ done, e.1.Fires e.2 l.token
    · rcases h.taken hsome (halive ha) with hi | hi
      · exact .inl (invoked_append.2 (.inl hi))
      · rcases List.mem_cons.1 hi with hi | hi
        · exact .inl (invoked_append.2 (.inr hi.symm))
        · exact .inr (List.mem_append_right _ hi)
    · -- The parent's first firing finds the callback connected.
      obtain rfl := (List.mem_append.1 he).elim (fun he => absurd ⟨e, he, hf⟩ hsome) List.mem_singleton.1
      obtain ⟨t, ht⟩ := hf.token_some
      have hconn := h.connected (fun e he hf => hsome ⟨e, he, hf⟩) (halive ha) (by rw [ht]; rfl)
      exact .inr (List.mem_append_left _ (invoke_mem_step.2 ⟨_, hf, _, hconn⟩))
  case untaken =>
    intro hf
    obtain ⟨hdone, htask⟩ := fires_append.1 hf
    obtain ⟨hi, hleft⟩ := h.untaken hdone
    obtain ⟨hne, hrest⟩ := not_or.1 (mt List.mem_cons.2 hleft)
    refine ⟨fun hm => (invoked_append.1 hm).elim hi (Ne.symm hne), fun hm => ?_⟩
    exact (List.mem_append.1 hm).elim (fun hm => htask (h.fires_of_mem_step hs hm)) hrest
  case connected =>
    intro hf ha hp
    obtain ⟨hdone, htask⟩ := fires_append.1 hf
    obtain ⟨t', ht'⟩ := Option.isSome_iff_exists.1 ha
    obtain ⟨p', hp'⟩ := Option.isSome_iff_exists.1 hp
    obtain ⟨t, ht, hpar, -⟩ := htoken t' ht'
    obtain ⟨p, hpt, -⟩ := (step_token hs task hl).2 p' hp'
    have hconn := h.connected hdone (by rw [ht]; rfl) (by rw [hpt]; rfl)
    have hkept : (w.step task).1.kept? (.token c) = some (l, .child c) :=
      World.kept?_token ht' (hpar.trans (h.parent t ht))
    exact (step_moves w task rest).connected hs (.fireChild c) hl hc hconn ((countP_deeds hpt).2 htask) hkept hp'

end Step

/-! ## From the making of a child on -/

section Run

variable {done later : List (World Arrivals × Task)} {w : World Arrivals} {within : Option Name} {name parent : Name}
  {rest : List Task} {p : Nat} {t : Token Arrivals}

theorem raised_makeChild (hr : Moment.Reaches {} done ⟨w, .run within (.token name (some parent)) :: rest⟩)
    (hp : w.token? parent = some (p, t)) :
    w.next < ((w.addChild p t).nameToken name w.next).next ∧
      Raised w.next ⟨p, ⟨t.registry.count, 0⟩⟩ (if t.isFired then 1 else 0) []
        ⟨(w.addChild p t).nameToken name w.next, rest⟩ := by
  obtain ⟨hs, hgone⟩ := hr.once
  have hpt := (World.token?_eq_some hp).2
  have hg := gains_makeChild hs.linked hpt
  let due := rest.filterMap Task.callback?
  let held := rest.filterMap Task.held?
  have hmake := Moves.one (Move.makeChild (w := w) (d := due) (h := held) hpt)
  have hadd : (w.addChild p t).Sound := hmake.sound hs
  have hname := moves_nameToken (w.addChild p t) due held name w.next
  obtain ⟨hnext, hnew⟩ := hs.child hpt name
  refine ⟨hnext, fun c hc => (hnew c hc).1, fun hi => (nomatch hi), fun _ c hc => (hnew c hc).2, fun ⟨e, he, _⟩ => (nomatch he),
    fun _ => ⟨List.not_mem_nil, fun hi => ?_⟩, fun _ hc hp => ?_⟩
  · -- A callback that is due was registered for a child that there was before.
    have hused := hgone.used (.fireChild w.next) (List.mem_append_right _ (mem_callbacks.2 (List.mem_cons_of_mem _ hi)))
    exact Nat.lt_irrefl _ hused
  · obtain ⟨c, hc⟩ := Option.isSome_iff_exists.1 hc
    obtain ⟨p', hp'⟩ := Option.isSome_iff_exists.1 hp
    obtain ⟨-, t', -, ht', -, -⟩ := hg.token_some
    have hlt : p < (w.addChild p t).next := Nat.lt_succ_of_lt (hs.linked.token_lt p t hpt)
    have he : (t.registry.count, .fireChild w.next) ∈ (w.addChild p t).entries p := by
      rw [hg.entries p t' ht', if_pos rfl]
      exact List.mem_append_right _ (List.mem_singleton_self _)
    exact hname.connected hadd (.fireChild w.next) hlt (Nat.lt_succ_self _) he (fun _ hd => (nomatch hd))
      (World.kept?_token hc (hnew c hc).1) hp'

/-- A new command does not matter. -/
theorem Raised.command {c : Nat} {l : Link} {base : Nat} (h : Raised c l base later ⟨w, []⟩) (command : Command) :
    Raised c l base later ⟨w, [.run none command]⟩ :=
  { h with
    taken := fun hf hc => (h.taken hf hc).imp_right fun hi => (nomatch hi)
    untaken := fun hf => ⟨(h.untaken hf).1, fun hi => (nomatch List.mem_singleton.1 hi)⟩ }

theorem Moment.Reaches.raised {task : Task} {c : Nat} (hr : Moment.Reaches {} done ⟨w, task :: rest⟩)
    (hmake : w.MakesChild task p c) (hp : w.tokens.get? p = some t) {m : Moment Arrivals}
    (hr' : Moment.Reaches ⟨(w.step task).1, (w.step task).2 ++ rest⟩ later m)
    (hdirect : ∀ e ∈ later, e.1.Fires e.2 c → e.2 = .invoke (.fireChild c)) :
    c < m.world.next ∧ p < m.world.next ∧
      Raised c ⟨p, ⟨t.registry.count, 0⟩⟩ (if t.isFired then 1 else 0) later m := by
  induction hr' with
  | refl =>
    have hlt := hr.once.1.linked.token_lt p t hp
    cases hmake with
    | intro hn =>
      obtain rfl := Option.some.inj ((World.token?_eq_some hn).2.symm.trans hp)
      rw [step_makeChild hn]
      obtain ⟨hnext, hraised⟩ := raised_makeChild hr hn
      exact ⟨hnext, Nat.lt_trans hlt hnext, hraised⟩
  | command _ command ih =>
    obtain ⟨hc, hp, hraised⟩ := ih hdirect
    exact ⟨hc, hp, hraised.command command⟩
  | @task later w' task' rest' hr' ih =>
    obtain ⟨hc, hp', hraised⟩ := ih fun e he => hdirect e (List.mem_append_left _ he)
    obtain ⟨hs, hgone⟩ := (hr.task.trans hr').once
    refine ⟨(step_token hs task' hc).1, (step_token hs task' hp').1, hraised.step hs hc hp' ?_ ?_⟩
    · rintro rfl hi
      refine hgone.notMem (.fireChild c) ?_
      rw [List.filterMap_append]
      exact List.mem_append_right _ (mem_callbacks_done.2 hi)
    · exact hdirect (w', task') (List.mem_append_right _ (List.mem_singleton_self _))

end Run

theorem Raised.count {c : Nat} {l : Link} {base : Nat} {later : List (World Arrivals × Task)} {m : Moment Arrivals}
    (h : Raised c l base later m) (hend : m.tasks = []) {child : Token Arrivals} (hc : m.world.tokens.get? c = some child) :
    ((∃ e ∈ later, e.1.Fires e.2 l.token) → child.count = base + 1) ∧
      ((∀ e ∈ later, ¬ e.1.Fires e.2 l.token) → child.count = base) := by
  refine ⟨fun hf => ?_, fun hf => h.uncalled (h.untaken hf).1 child hc⟩
  rcases h.taken hf (by rw [hc]; rfl) with hi | hi
  · exact h.called hi child hc
  · rw [hend] at hi
    cases hi

/-! ## The same for slots -/

/-- A child counts one firing if its parent had fired when it was made, and one more from the next firing of its parent on. -/
theorem child_count {done later : List (World Slots × Task)} {w : World Slots} {task : Task} {rest : List Task}
    (hr : Moment.Reaches {} done ⟨w, task :: rest⟩) {p c : Nat} (hmake : w.MakesChild task p c) {t : Token Slots}
    (hp : w.tokens.get? p = some t) {m : Moment Slots}
    (hr' : Moment.Reaches ⟨(w.step task).1, (w.step task).2 ++ rest⟩ later m) (hend : m.tasks = [])
    (hdirect : ∀ e ∈ later, e.1.Fires e.2 c → e.2 = .invoke (.fireChild c)) {child : Token Slots}
    (hc : m.world.tokens.get? c = some child) :
    ((∃ e ∈ later, e.1.Fires e.2 p) → child.count = (if t.isFired then 1 else 0) + 1) ∧
      ((∀ e ∈ later, ¬ e.1.Fires e.2 p) → child.count = if t.isFired then 1 else 0) := by
  obtain ⟨κ, done', ⟨v, _⟩, hv, ⟨hw, rfl⟩, -⟩ := hr.sound
  obtain ⟨t', hp', ht⟩ := hw.token_some hp
  obtain ⟨κ₁, hm₁⟩ := Moment.mirrors_step hw task rest
  obtain ⟨κ', later', m', hv', hm, hlater⟩ := hr'.mirrored hm₁
  obtain ⟨child', hc', hchild⟩ := hm.world.token_some hc
  obtain ⟨-, -, hraised⟩ :=
    hv.raised (hw.makesChild hmake) hp' hv' ((hlater.fires c (· = .invoke (.fireChild c))).1 hdirect)
  obtain ⟨hfired, hunfired⟩ := hraised.count (hm.tasks ▸ hend) hc'
  rw [← ht.isFired, ← hchild.count] at hfired hunfired
  refine ⟨fun hf => hfired ?_, fun hf => hunfired ((hlater.fires p fun _ => False).1 hf)⟩
  by_contra hnone
  obtain ⟨e, he, hef⟩ := hf
  exact (hlater.fires p fun _ => False).2 (fun e he hef => hnone ⟨e, he, hef⟩) e he hef

/-- A child of a token that has fired, which is then fired again. -/
theorem fires_again : ∃ done later, ∃ w : World Slots, ∃ task rest t, ∃ m : Moment Slots, ∃ child,
    Moment.Reaches {} done ⟨w, task :: rest⟩ ∧ w.MakesChild task 0 1 ∧ w.tokens.get? 0 = some t ∧ t.isFired = true ∧
    Moment.Reaches ⟨(w.step task).1, (w.step task).2 ++ rest⟩ later m ∧ m.tasks = [] ∧
    (∀ e ∈ later, e.1.Fires e.2 1 → e.2 = .invoke (.fireChild 1)) ∧ (∃ e ∈ later, e.1.Fires e.2 0) ∧
    m.world.tokens.get? 1 = some child ∧ child.count = 2 := by
  obtain ⟨done, hfired⟩ := Moment.reaches_performAll [.token ['p'] none, .fire ['p']]
  have hmade := Moment.Reaches.refl (m := Moment.mk (World.step (R := Slots)
    (World.performAll {} [.token ['p'] none, .fire ['p']]) (.run none (.token ['c'] (some ['p'])))).1 [])
  have hagain := (hmade.command (.fire ['p'])).task.task.task.task
  refine ⟨done, _, _, _, [], _, _, _, hfired.command (.token ['c'] (some ['p'])), .intro rfl, rfl, rfl, hagain, rfl, ?_, ?_,
    rfl, rfl⟩
  · intro e he hf
    simp only [List.mem_append, List.mem_singleton, List.not_mem_nil, false_or] at he
    rcases he with ((rfl | rfl) | rfl) | rfl
    · cases hf with
      | command h => exact nomatch (Prod.mk.inj (Option.some.inj h)).1
    · rfl
    · cases hf
    · cases hf
  · exact ⟨_, List.getElem_mem (n := 0) (by simp), .command rfl⟩

theorem child_count_fired_again : ∃ done later, ∃ w : World Slots, ∃ task rest t, ∃ m : Moment Slots, ∃ child,
    Moment.Reaches {} done ⟨w, task :: rest⟩ ∧ w.MakesChild task 0 1 ∧ w.tokens.get? 0 = some t ∧
    Moment.Reaches ⟨(w.step task).1, (w.step task).2 ++ rest⟩ later m ∧ m.tasks = [] ∧
    m.world.tokens.get? 1 = some child ∧ child.count = (if t.isFired then 1 else 0) + 1 := by
  obtain ⟨done, later, w, task, rest, t, m, child, hr, hmake, hp, -, hr', hend, hdirect, hf, hc, -⟩ := fires_again
  exact ⟨done, later, w, task, rest, t, m, child, hr, hmake, hp, hr', hend, hc,
    (child_count hr hmake hp hr' hend hdirect hc).1 hf⟩

/-- It is not so that a child that is not fired directly counts one firing whenever its parent has fired. -/
theorem not_fired_once : ¬ ∀ (done later : List (World Slots × Task)) (w : World Slots) (task : Task) (rest : List Task)
    (p c : Nat) (t : Token Slots) (m : Moment Slots) (child : Token Slots),
    Moment.Reaches {} done ⟨w, task :: rest⟩ → w.MakesChild task p c → w.tokens.get? p = some t →
    Moment.Reaches ⟨(w.step task).1, (w.step task).2 ++ rest⟩ later m → m.tasks = [] →
    (∀ e ∈ later, e.1.Fires e.2 c → e.2 = .invoke (.fireChild c)) → m.world.tokens.get? c = some child →
    (t.isFired = true ∨ ∃ e ∈ later, e.1.Fires e.2 p) → child.count = 1 := by
  intro h
  obtain ⟨done, later, w, task, rest, t, m, child, hr, hmake, hp, hfired, hr', hend, hdirect, -, hc, hcount⟩ := fires_again
  have hone := h done later w task rest 0 1 t m child hr hmake hp hr' hend hdirect hc (.inl hfired)
  rw [hone] at hcount
  cases hcount

end Gateway.Signal
