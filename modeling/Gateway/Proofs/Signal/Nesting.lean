import Gateway.Proofs.Signal.DepthFirst
/-!
# Firings end

Callbacks may connect further callbacks, make children and fire tokens, also those that are
being fired. Every firing comes to its end all the same, for each task uses up weight
(`World.Mirrors.exists_serves`), and firings nest no deeper than there were registrations,
and one more (`firings_end`).

The bound rests on the order of what is left to do (`Layered`): all that is due after a
script's command was taken by firings that had begun before the script, and each of those
but the first was begun by the callback of one of the others.
-/
namespace Gateway.Signal

/-! ## What a task leaves to do -/

section Leaves

variable {R : Type → Type} [Registry R]

/-- A task leaves nothing to do, or the commands of a script, or the callbacks that a firing took. -/
inductive World.Leaves (w : World R) (t : Task) : Prop where
  | nothing (h : (w.step t).2 = [])
  | script {c : Nat} {name : Name} {commands : List Command} (ht : t = .invoke (.script c name commands))
    (h : (w.step t).2 = commands.map (.run (some name)))
  | firing {n : Nat} {cbs : List Callback} {held : Option Nat} (hf : w.Fires t n)
    (h : (w.step t).2 = cbs.map .invoke ++ [.finish held])

theorem World.step_leaves (w : World R) (t : Task) : w.Leaves t := by
  cases t with
  | run within c =>
    rcases w.execute_tasks c with ⟨name, rfl⟩ | hnil
    · cases hn : w.token? name with
      | none =>
        refine .nothing ?_
        show (w.execute (.fire name)).2.1 = []
        unfold execute
        dsimp only
        rw [hn]
      | some n => exact .firing (.command hn) (congrArg Prod.snd (step_fire hn))
    · exact .nothing hnil
  | invoke cb =>
    cases cb with
    | script c name commands => exact .script rfl rfl
    | fireChild n =>
      cases hn : w.tokens.get? n with
      | none =>
        refine .nothing ?_
        unfold step
        dsimp only
        rw [hn]
      | some t => exact .firing (.child hn) (congrArg Prod.snd (step_fireChild hn))
    | abortWait v ticket => exact .nothing rfl
    | complete f => exact .nothing rfl
  | finish held => cases held <;> exact .nothing rfl

theorem World.step_unprompted (w : World R) (t : Task) : ∀ u ∈ (w.step t).2, ¬ u.IsPrompt := by
  intro u hu
  cases w.step_leaves t with
  | nothing h => rw [h] at hu; cases hu
  | script _ h =>
    rw [h] at hu
    obtain ⟨c, -, rfl⟩ := List.mem_map.1 hu
    exact id
  | firing _ h =>
    rw [h] at hu
    rcases List.mem_append.1 hu with hu | hu
    · obtain ⟨cb, -, rfl⟩ := List.mem_map.1 hu
      exact id
    · cases List.mem_singleton.1 hu
      exact id

end Leaves

/-! ## Tasks come to an end -/

/-- Whatever there is to do gets done, together with all that it leaves to do. -/
theorem World.Mirrors.exists_serves {κ : KeyPairs} {w : World Slots} {v : World Arrivals} (h : w.Mirrors κ v)
    (tasks : List Task) (hu : ∀ t ∈ tasks, ¬ t.IsPrompt) : ∃ order w', w.Serves tasks order w' := by
  -- over the fuel: each task uses up some of it, whatever it leaves to do
  induction hn : v.fuel tasks using Nat.strongRecOn generalizing κ w v tasks with
  | ind n ih =>
    cases tasks with
    | nil => exact ⟨[], w, .nil⟩
    | cons t tasks =>
      obtain ⟨κ', hmirrors, hleft⟩ := h.step t
      have hunprompted : ∀ u ∈ (w.step t).2 ++ tasks, ¬ u.IsPrompt := fun u hu' =>
        (List.mem_append.1 hu').elim (w.step_unprompted t u) fun hrest => hu u (List.mem_cons_of_mem t hrest)
      have hless : (v.step t).1.fuel ((w.step t).2 ++ tasks) < n := hn ▸ hleft ▸ v.fuel_step t tasks
      obtain ⟨order, w', hs⟩ := ih _ hless hmirrors _ hunprompted rfl
      exact ⟨_, w', .cons (hu t List.mem_cons_self) hs⟩

/-! ## What is invoked was registered -/

/-- The callback is connected to a token, or has been taken by a firing and not invoked yet. -/
def Standing.Awaits (a : Standing Arrivals) (cb : Callback) : Prop := cb ∈ a.due ∨ ∃ n k, (k, cb) ∈ a.world.entries n

section Awaits

variable {w w' : World Arrivals} {d : List Callback} {h h' : List Nat} {cb cb' : Callback}

theorem Standing.Awaits.loses {x : Option Keeper} (ha : Awaits ⟨w', d, h'⟩ cb) (hl : World.Loses x w w') :
    Awaits ⟨w, d, h⟩ cb :=
  ha.imp_right fun ⟨n, k, he⟩ => ⟨n, k, hl.mem_entries he⟩

theorem Standing.Awaits.gains {x : Keeper} {l : Link} (ha : Awaits ⟨w', d, h'⟩ cb) (hg : World.Gains x l cb' w w') :
    Awaits ⟨w, d, h⟩ cb ∨ cb = cb' := by
  rcases ha with hdue | ⟨n, k, he⟩
  · exact .inl (.inl hdue)
  · obtain ⟨t', ht', -⟩ := World.get?_of_mem_entries he
    rw [hg.entries n t' ht'] at he
    rcases List.mem_append.1 he with he | he
    · exact .inl (.inr ⟨n, k, he⟩)
    · split at he
      · exact .inr (Prod.mk.inj (List.mem_singleton.1 he)).2
      · cases he

theorem Standing.Awaits.takeAll {n : Nat} (ha : Awaits ⟨(w.takeAll n).1, (w.takeAll n).2 ++ d, h'⟩ cb) :
    Awaits ⟨w, d, h⟩ cb := by
  rcases ha with hdue | ⟨m, k, he⟩
  · rw [World.takeAll_snd_eq] at hdue
    rcases List.mem_append.1 hdue with htaken | hdue
    · obtain ⟨e, he, rfl⟩ := List.mem_map.1 htaken
      exact .inr ⟨n, e.1, he⟩
    · exact .inl hdue
  · rw [World.entries_takeAll] at he
    split at he
    · cases he
    · exact .inr ⟨m, k, he⟩

theorem Standing.Awaits.cons (ha : Awaits ⟨w, d, h'⟩ cb) : Awaits ⟨w, cb' :: d, h⟩ cb :=
  ha.imp_left (List.mem_cons_of_mem cb')

end Awaits

/-- A callback awaits a firing or its turn in one because it did so before, or because it was registered. -/
theorem Rewires.awaits {a b : Standing Arrivals} {ds : List Deed} (hr : Rewires a ds b) {cb : Callback} (h : b.Awaits cb) :
    a.Awaits cb ∨ .register cb ∈ ds := by
  cases hr with
  | lose hl | flash _ hl => exact .inl (h.loses hl)
  | gain hg _ => exact (h.gains hg).imp_right fun hcb => List.mem_singleton.2 (congrArg Deed.register hcb)
  | invoke _ hl _ => exact .inl (h.loses (h := []) hl).cons
  | fire n => exact .inl h.takeAll
  | fireChild n => exact .inl (h.takeAll (h := [])).cons

/-- What is invoked was taken by a firing before. -/
theorem Rewires.awaits_of_invoke {a b : Standing Arrivals} {ds : List Deed} (hr : Rewires a ds b) {cb : Callback}
    (h : .invoke cb ∈ ds) : a.Awaits cb := by
  cases hr with
  | lose _ => cases h
  | gain _ _ | flash _ _ | fire n => cases List.mem_singleton.1 h
  | invoke _ _ _ | fireChild n =>
    cases List.mem_singleton.1 h
    exact .inl List.mem_cons_self

theorem Moves.registered {a b : Standing Arrivals} {ds : List Deed} (hm : Moves a ds b) (hs : a.world.Sound)
    (ha : ∀ cb, ¬ a.Awaits cb) (cb : Callback) : (b.Awaits cb → .register cb ∈ ds) ∧ (.invoke cb ∈ ds → .register cb ∈ ds) := by
  refine (hm.keeps hs (P := fun ds b => (b.Awaits cb → .register cb ∈ ds) ∧ (.invoke cb ∈ ds → .register cb ∈ ds))
    ⟨fun h => absurd h (ha cb), fun h => (nomatch h)⟩ ?_).2
  rintro ds b ds' c ⟨hawaits, hinvoked⟩ - - hr
  refine ⟨fun h => List.mem_append.2 ((hr.awaits h).imp_left hawaits), fun h => ?_⟩
  rcases List.mem_append.1 h with h | h
  · exact List.mem_append_left _ (hinvoked h)
  · exact List.mem_append_left _ (hawaits (hr.awaits_of_invoke h))

/-- For each callback that was invoked or is due there is a registration of its own. -/
theorem Moment.Reaches.invoked_subperm {done : List (World Arrivals × Task)} {m : Moment Arrivals}
    (hr : Moment.Reaches ({} : Moment Arrivals) done m) :
    ((done.filterMap fun e => e.2.callback?) ++ m.standing.due).Subperm ((deedsOf done).filterMap Deed.registered?) := by
  have hnone : ∀ cb, ¬ ({} : Moment Arrivals).standing.Awaits cb := by
    rintro cb (h | ⟨n, k, h⟩) <;> cases h
  have hregistered := hr.moves.registered World.sound_empty hnone
  refine List.subperm_of_subset (hr.once.2.nodup.of_map _) fun cb hcb => ?_
  refine List.mem_filterMap.2 ⟨.register cb, ?_, rfl⟩
  rcases List.mem_append.1 hcb with hcb | hcb
  · exact (hregistered cb).2 (mem_deedsOf.2 (mem_callbacks_done.1 hcb))
  · exact (hregistered cb).1 (.inl hcb)

/-! ## Firings in progress -/

/-- The task ends a firing. -/
def Task.isFinish : Task → Bool
  | .finish _ => true
  | _ => false

/-- How many firings are in progress when some tasks are left to do. -/
def depth (tasks : List Task) : Nat := tasks.countP Task.isFinish

theorem depth_finish (held : Option Nat) (tasks : List Task) : depth (.finish held :: tasks) = depth tasks + 1 :=
  List.countP_cons_of_pos rfl

theorem depth_cons {t : Task} (ht : t.isFinish = false) (tasks : List Task) : depth (t :: tasks) = depth tasks :=
  List.countP_cons_of_neg (Bool.not_eq_true _ ▸ ht)

/-- Of tasks that are left to do when `called` callbacks have been invoked: behind the commands of a script there are
no more firings in progress than callbacks, and behind a callback that is due no more than one besides. -/
inductive Layered (called : Nat) : List Task → Prop where
  | nil : Layered called []
  | prompt (c : Command) : Layered called [.run none c]
  | command {name : Name} {c : Command} {rest : List Task} (h : Layered called rest) (hd : depth rest ≤ called) :
    Layered called (.run (some name) c :: rest)
  | invoke {cb : Callback} {rest : List Task} (h : Layered called rest) (hd : depth rest ≤ called + 1) :
    Layered called (.invoke cb :: rest)
  | finish {held : Option Nat} {rest : List Task} (h : Layered called rest) (hd : depth rest ≤ called) :
    Layered called (.finish held :: rest)

namespace Layered

variable {called called' : Nat} {t : Task} {tasks rest : List Task}

theorem depth_le (h : Layered called tasks) : depth tasks ≤ called + 1 := by
  cases h with
  | nil | prompt c => exact Nat.zero_le _
  | command _ hd => exact Nat.le_succ_of_le hd
  | invoke _ hd => exact hd
  | finish _ hd => exact depth_finish _ _ ▸ Nat.succ_le_succ hd

theorem mono (h : Layered called tasks) (hle : called ≤ called') : Layered called' tasks := by
  induction h with
  | nil => exact .nil
  | prompt c => exact .prompt c
  | command _ hd ih => exact .command ih (Nat.le_trans hd hle)
  | invoke _ hd ih => exact .invoke ih (Nat.le_trans hd (Nat.succ_le_succ hle))
  | finish _ hd ih => exact .finish ih (Nat.le_trans hd hle)

theorem tail (h : Layered called (t :: rest)) : Layered called rest := by
  cases h with
  | prompt c => exact .nil
  | command h _ | invoke h _ | finish h _ => exact h

/-- Behind a task no more firings are in progress than callbacks have been invoked once it is done. -/
theorem depth_tail (h : Layered called (t :: rest)) : depth rest ≤ called + t.callback?.toList.length := by
  cases h with
  | prompt c => exact Nat.zero_le _
  | command _ hd | invoke _ hd | finish _ hd => exact hd

theorem script (h : Layered called rest) (hd : depth rest ≤ called) (name : Name) (commands : List Command) :
    Layered called (commands.map (.run (some name)) ++ rest) := by
  have hdepth : ∀ commands : List Command, depth (commands.map (.run (some name)) ++ rest) = depth rest := by
    intro commands
    induction commands with
    | nil => rfl
    | cons c commands ih => exact (depth_cons rfl _).trans ih
  induction commands with
  | nil => exact h
  | cons c commands ih => exact .command ih (hdepth commands ▸ hd)

theorem firing (h : Layered called rest) (hd : depth rest ≤ called) (cbs : List Callback) (held : Option Nat) :
    Layered called (cbs.map .invoke ++ .finish held :: rest) := by
  have hdepth : ∀ cbs : List Callback, depth (cbs.map .invoke ++ .finish held :: rest) = depth rest + 1 := by
    intro cbs
    induction cbs with
    | nil => exact depth_finish held rest
    | cons cb cbs ih => exact (depth_cons rfl _).trans ih
  induction cbs with
  | nil => exact .finish h hd
  | cons cb cbs ih => exact .invoke ih (hdepth cbs ▸ Nat.succ_le_succ hd)

theorem step {R : Type → Type} [Registry R] (h : Layered called (t :: rest)) (w : World R) :
    Layered (called + t.callback?.toList.length) ((w.step t).2 ++ rest) := by
  have hrest := h.tail.mono (Nat.le_add_right called t.callback?.toList.length)
  cases w.step_leaves t with
  | nothing hleft =>
    rw [hleft]
    exact hrest
  | @script c name commands _ hleft =>
    rw [hleft]
    exact hrest.script h.depth_tail name commands
  | @firing n cbs held _ hleft =>
    rw [hleft, List.append_assoc]
    exact hrest.firing h.depth_tail cbs held

end Layered

theorem Moment.Reaches.layered {R : Type → Type} [Registry R] {done : List (World R × Task)} {m : Moment R}
    (hr : Moment.Reaches ({} : Moment R) done m) : Layered (done.filterMap fun e => e.2.callback?).length m.tasks := by
  induction hr with
  | refl => exact .nil
  | command _ c _ => exact .prompt c
  | @task done w t rest _ ih =>
    have hstep := ih.step w
    rw [List.filterMap_append, List.length_append]
    cases t <;> exact hstep

/-! ## The same for slots -/

/-- The task begins a firing: of a token that is alive, or of a child that it makes of a token that has fired. -/
inductive World.Begins {R : Type → Type} (w : World R) (task : Task) : Prop where
  | fires {n : Nat} (h : w.Fires task n)
  | child {p c : Nat} {t : Token R} (h : w.MakesChild task p c) (hp : w.tokens.get? p = some t) (ht : t.isFired = true)

theorem World.Begins.depth_eq {R : Type → Type} {w : World R} {task : Task} (h : w.Begins task) (rest : List Task) :
    depth (task :: rest) = depth rest := by
  cases h with
  | fires h => cases h <;> exact depth_cons rfl rest
  | child h _ _ =>
    cases h
    exact depth_cons rfl rest

/-- Whatever callbacks do while firings are in progress, each task is done to its end, so every firing returns. No
callback is invoked twice, and each was registered. When a firing begins, no more are in progress than there were
registrations, so firings never nest deeper than one more. -/
theorem firings_end {done : List (World Slots × Task)} {m : Moment Slots} (hr : Moment.Reaches {} done m) :
    (∀ task, ∃ order w', (m.world.step task).1.Serves (m.world.step task).2 order w') ∧
    ((done.filterMap fun e => e.2.callback?).map Callback.owner).Nodup ∧
    (done.filterMap fun e => e.2.callback?).Subperm ((deedsOf done).filterMap Deed.registered?) ∧
    (∀ task rest, m.tasks = task :: rest → m.world.Begins task →
      depth m.tasks + 1 ≤ ((deedsOf done).filterMap Deed.registered?).length + 1) ∧
    depth m.tasks ≤ ((deedsOf done).filterMap Deed.registered?).length + 1 := by
  obtain ⟨κ, done', v, hv, hm, hside, -, hgone⟩ := hr.sound
  have hcalled : done.filterMap (fun e => e.2.callback?) = done'.filterMap fun e => e.2.callback? := by
    have htasks := congrArg (List.filterMap Task.callback?) hside.tasks
    rw [List.filterMap_map, List.filterMap_map] at htasks
    exact htasks.symm
  have hsubperm : ((done.filterMap fun e => e.2.callback?) ++ m.tasks.filterMap Task.callback?).Subperm
      ((deedsOf done).filterMap Deed.registered?) := by
    rw [hcalled, hside.deedsOf, hm.tasks]
    exact hv.invoked_subperm
  have hinvoked : (done.filterMap fun e => e.2.callback?).Subperm ((deedsOf done).filterMap Deed.registered?) :=
    (List.sublist_append_left _ _).subperm.trans hsubperm
  refine ⟨fun task => ?_, ?_, hinvoked, fun task rest htasks hbegins => ?_, ?_⟩
  · obtain ⟨κ', hstep, -⟩ := hm.world.step task
    exact hstep.exists_serves _ (m.world.step_unprompted task)
  · rw [hcalled]
    exact (List.nodup_append.1 (List.map_append ▸ hgone.nodup)).1
  · -- The callback that begins a firing was registered and has not been counted among those invoked before.
    have hlayered := hr.layered
    have hlength := hsubperm.length_le
    rw [htasks] at hlayered hlength ⊢
    rw [hbegins.depth_eq]
    have hdue : task.callback?.toList.length ≤ ((task :: rest).filterMap Task.callback?).length := by
      rw [List.filterMap_cons]
      cases task.callback? <;> simp
    have hdepth := hlayered.depth_tail
    rw [List.length_append] at hlength
    omega
  · exact Nat.le_trans hr.layered.depth_le (Nat.succ_le_succ hinvoked.length_le)

/-- A callback connects another one to the token that is being fired, and then fires the token again. -/
theorem firings_end_again : ∃ done, ∃ m : Moment Slots, Moment.Reaches {} done m ∧
    m.tasks = [.run (some ['a']) (.fire ['t']), .finish (some 0)] ∧
    (∃ order w', (m.world.step (.run (some ['a']) (.fire ['t']))).1.Serves
      (m.world.step (.run (some ['a']) (.fire ['t']))).2 order w') ∧
    depth m.tasks + 1 ≤ ((deedsOf done).filterMap Deed.registered?).length + 1 ∧
    ((deedsOf done).filterMap Deed.registered?).length = 2 := by
  have htoken := (Moment.Reaches.refl (m := ({} : Moment Slots))).command (.token ['t'] none)
  have hconnect := htoken.task.command (.connect ['t'] ['a'] [.connect ['t'] ['b'] [], .fire ['t']])
  have hfire := (hconnect.task.command (.fire ['t'])).task.task.task
  obtain ⟨hends, -, -, hbegins, -⟩ := firings_end hfire
  exact ⟨_, _, hfire, rfl, hends _, hbegins _ _ rfl (.fires (.command rfl)), rfl⟩

end Gateway.Signal
