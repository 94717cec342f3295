import Gateway.Proofs.Signal.Origins
/-!
# A firing goes depth-first

A firing does with the callbacks that it takes what `World.DepthFirst` says: a child's own
callbacks come right after the child, before those that were connected to its parent later.
This holds as long as no callback does anything to tokens (`World.Quiet`), for then all the
tokens of the tree are still as they were when their turn comes (`DepthFirst.serves`).
-/
namespace Gateway.Signal

variable {R : Type → Type}

/-- A token that has been fired once more, with nothing connected to it. -/
def Token.fire [Registry R] (t : Token R) : Token R :=
  { t with count := t.count + 1, registry := Registry.clear t.registry }

/-- The task is a command given from outside. -/
def Task.IsPrompt : Task → Prop
  | .run none _ => True
  | _ => False

section Heads

variable [Registry R] {w : World R} {later : List (World R × Task)} {m : Moment R}

theorem Moment.Reaches.cases_head {t : Task} {rest : List Task} (hr : Moment.Reaches ⟨w, t :: rest⟩ later m) :
    (later = [] ∧ m = ⟨w, t :: rest⟩) ∨
      ∃ later', later = (w, t) :: later' ∧ Moment.Reaches ⟨(w.step t).1, (w.step t).2 ++ rest⟩ later' m := by
  induction hr with
  | refl => exact .inl ⟨rfl, rfl⟩
  | command _ c ih =>
    rcases ih with ⟨-, heq⟩ | ⟨later', rfl, hr'⟩
    · cases heq
    · exact .inr ⟨later', rfl, .command hr' c⟩
  | task _ ih =>
    rcases ih with ⟨rfl, heq⟩ | ⟨later', rfl, hr'⟩
    · cases heq
      exact .inr ⟨[], rfl, .refl⟩
    · exact .inr ⟨_, rfl, .task hr'⟩

/-- None of the tasks is a command given from outside. -/
def Unprompted (done : List (World R × Task)) : Prop := ∀ e ∈ done, ¬ e.2.IsPrompt

/-- When nothing is left to do, the next task is a command given from outside. -/
theorem Moment.Reaches.of_nil (hr : Moment.Reaches ⟨w, []⟩ later m) (hl : Unprompted later) :
    m.tasks = [] ∨ ∃ c, m.tasks = [.run none c] := by
  induction hr with
  | refl => exact .inl rfl
  | command _ c _ => exact .inr ⟨c, rfl⟩
  | @task later w' t rest _ ih =>
    rcases ih fun e he => hl e (List.mem_append_left _ he) with hnil | ⟨c, hc⟩
    · cases hnil
    · obtain ⟨rfl, -⟩ := List.cons.inj hc
      exact absurd trivial (hl (w', .run none c) (List.mem_append_right _ (List.mem_singleton_self _)))

end Heads

namespace World

variable [Registry R] {w w' w'' : World R}

/-- Callbacks, and all that get invoked for them if the tokens are those of `w` in the order in which that happens. -/
inductive DepthFirst (w : World R) : List Callback → List Callback → Prop where
  | nil : DepthFirst w [] []
  | plain {cb : Callback} {cbs order : List Callback} (hcb : ∀ c, cb ≠ .fireChild c) (h : DepthFirst w cbs order) :
    DepthFirst w (cb :: cbs) (cb :: order)
  /-- A child is fired, and what is connected to it is served before its parent's other callbacks. -/
  | child {c : Nat} {t : Token R} {cbs below order : List Callback} (hc : w.tokens.get? c = some t)
    (hb : DepthFirst w (Registry.toList t.registry) below) (h : DepthFirst w cbs order) :
    DepthFirst w (.fireChild c :: cbs) (.fireChild c :: (below ++ order))

/-- There is one depth-first order. -/
theorem DepthFirst.unique {cbs order order' : List Callback} (h : w.DepthFirst cbs order) (h' : w.DepthFirst cbs order') :
    order = order' := by
  induction h generalizing order' with
  | nil =>
    cases h'
    rfl
  | plain hcb _ ih =>
    cases h' with
    | plain _ h' => rw [ih h']
    | child _ _ _ => exact absurd rfl (hcb _)
  | child hc _ _ ihb ih =>
    cases h' with
    | plain hcb _ => exact absurd rfl (hcb _)
    | child hc' hb' h' =>
      obtain rfl := Option.some.inj (hc.symm.trans hc')
      rw [ihb hb', ih h']

/-! ## Tasks that get done -/

/-- The tasks get done, whatever there is to do after them, and the callbacks `order` are invoked on the way. -/
def Serves (w : World R) (tasks : List Task) (order : List Callback) (w' : World R) : Prop :=
  ∃ done, (∀ rest, Moment.Reaches ⟨w, tasks ++ rest⟩ done ⟨w', rest⟩) ∧ Unprompted done ∧
    (done.filterMap fun e => e.2.callback?) = order

theorem Serves.nil : w.Serves [] [] w := ⟨[], fun _ => .refl, nofun, rfl⟩

theorem Serves.append {tasks tasks' : List Task} {order order' : List Callback} (h : w.Serves tasks order w')
    (h' : w'.Serves tasks' order' w'') : w.Serves (tasks ++ tasks') (order ++ order') w'' := by
  obtain ⟨done, hr, hu, rfl⟩ := h
  obtain ⟨done', hr', hu', rfl⟩ := h'
  refine ⟨done ++ done', fun rest => ?_, fun e he => (List.mem_append.1 he).elim (hu e) (hu' e), List.filterMap_append⟩
  rw [List.append_assoc]
  exact (hr _).trans (hr' rest)

/-- A task is done, then all that it leaves to do, then what there was to do after it. -/
theorem Serves.cons {t : Task} (ht : ¬ t.IsPrompt) {tasks : List Task} {order : List Callback}
    (h : (w.step t).1.Serves ((w.step t).2 ++ tasks) order w') : w.Serves (t :: tasks) (t.callback?.toList ++ order) w' := by
  obtain ⟨done, hr, hu, rfl⟩ := h
  refine ⟨(w, t) :: done, fun rest => ?_, fun e he => ?_, ?_⟩
  · have hrest := hr rest
    rw [List.append_assoc] at hrest
    exact (Moment.Reaches.task .refl).trans hrest
  · rcases List.mem_cons.1 he with rfl | he
    · exact ht
    · exact hu e he
  · rw [List.filterMap_cons]
    cases t.callback? <;> rfl

/-- A task is done together with all that it leaves to do. -/
theorem Serves.step {t : Task} (ht : ¬ t.IsPrompt) {order : List Callback}
    (h : (w.step t).1.Serves (w.step t).2 order w') : w.Serves [t] (t.callback?.toList ++ order) w' :=
  .cons ht (by rwa [List.append_nil])

/-! ## Callbacks that leave tokens alone -/

/-- As long as no new command is given from outside, no command of a callback does anything to tokens. -/
def Quiet (w : World R) (tasks : List Task) : Prop :=
  ∀ later w' name c rest, Moment.Reaches ⟨w, tasks⟩ later ⟨w', .run (some name) c :: rest⟩ → Unprompted later →
    (w'.execute c).1.tokens = w'.tokens

theorem Quiet.after {tasks rest : List Task} {order : List Callback} (h : w.Quiet (tasks ++ rest))
    (hs : w.Serves tasks order w') : w'.Quiet rest := by
  obtain ⟨done, hr, hu, -⟩ := hs
  intro later w'' name c rest' hr' hl
  exact h _ w'' name c rest' ((hr rest).trans hr') fun e he => (List.mem_append.1 he).elim (hu e) (hl e)

theorem Quiet.step {t : Task} {rest : List Task} (ht : ¬ t.IsPrompt) (h : w.Quiet (t :: rest)) :
    (w.step t).1.Quiet ((w.step t).2 ++ rest) := by
  intro later w' name c rest' hr hl
  refine h _ w' name c rest' ((Moment.Reaches.task .refl).trans hr) fun e he => ?_
  rcases List.mem_cons.1 he with rfl | he
  · exact ht
  · exact hl e he

/-- Whether commands leave tokens alone can be seen step by step. -/
theorem Quiet.of_step {t : Task} {rest : List Task} (ht : ∀ name c, t = .run (some name) c → (w.execute c).1.tokens = w.tokens)
    (h : (w.step t).1.Quiet ((w.step t).2 ++ rest)) : w.Quiet (t :: rest) := by
  intro later w' name c rest' hr hl
  rcases hr.cases_head with ⟨-, heq⟩ | ⟨later', rfl, hr'⟩
  · cases heq
    exact ht name c rfl
  · exact h later' w' name c rest' hr' fun e he => hl e (List.mem_cons_of_mem _ he)

theorem quiet_nil (w : World R) : w.Quiet [] := by
  intro later w' name c rest hr hl
  rcases hr.of_nil hl with hnil | ⟨c', hc'⟩
  · cases hnil
  · cases hc'

omit [Registry R] in
theorem get?_hold (w : World R) (n m : Nat) : (w.hold n).tokens.get? m =
    if n = m then (w.tokens.get? m).map (fun t => { t with holders := t.holders + 1 }) else w.tokens.get? m :=
  Table.get?_modify _ _ _ _

/-- A firing counts, so a command that leaves tokens alone fires none. -/
theorem execute_of_quiet {c : Command} (h : (w.execute c).1.tokens = w.tokens) : (w.execute c).2.1 = [] := by
  -- Only a command to fire leaves anything to do, and the count of the token that it fires is greater then.
  rcases w.execute_tasks c with ⟨name, rfl⟩ | hnil
  · unfold execute at h ⊢
    dsimp only at h ⊢
    cases hn : w.token? name with
    | none => rfl
    | some n =>
      have ht := (token?_eq_some hn).2
      rw [hn] at h
      replace h : ((w.hold n.1).takeAll n.1).1.tokens = w.tokens := h
      have hget := (w.hold n.1).get?_takeAll n.1 n.1
      rw [h, if_pos rfl, get?_hold, if_pos rfl, ht, Option.map_some, Option.map_some] at hget
      have hcount := congrArg Token.count (Option.some.inj hget)
      exact absurd hcount (Nat.ne_of_lt (Nat.lt_succ_self _))
  · exact hnil

theorem Quiet.script {name : Name} {commands : List Command} {rest : List Task}
    (h : w.Quiet (commands.map (.run (some name)) ++ rest)) :
    ∃ w', w.Serves (commands.map (.run (some name))) [] w' ∧ w'.tokens = w.tokens := by
  induction commands generalizing w with
  | nil => exact ⟨w, .nil, rfl⟩
  | cons c commands ih =>
    have htokens := h [] w name c _ .refl nofun
    have hnil : (w.step (.run (some name) c)).2 = [] := execute_of_quiet htokens
    have hstep : w.Serves [.run (some name) c] [] (w.step (.run (some name) c)).1 :=
      .step id (hnil ▸ .nil)
    have hrest : w.Quiet ([.run (some name) c] ++ (commands.map (.run (some name)) ++ rest)) := h
    obtain ⟨w', hs, ht⟩ := ih (hrest.after hstep)
    refine ⟨w', hstep.append hs, ht.trans ?_⟩
    obtain ⟨log, heq⟩ := (w.execute c).1.noteResult_eq (some name) (w.execute c).2.2
    show ((w.execute c).1.noteResult (some name) (w.execute c).2.2).tokens = w.tokens
    rw [heq]
    exact htokens

theorem Quiet.plain {cb : Callback} (hcb : ∀ c, cb ≠ .fireChild c) {rest : List Task} (h : w.Quiet (.invoke cb :: rest)) :
    ∃ w', w.Serves [.invoke cb] [cb] w' ∧ w'.tokens = w.tokens := by
  have hquiet := h.step id
  cases cb with
  | script c name commands =>
    obtain ⟨w', hs, ht⟩ := hquiet.script
    exact ⟨w', .step id hs, ht⟩
  | fireChild c => exact absurd rfl (hcb c)
  | abortWait v ticket =>
    obtain ⟨condvars, futures, log, heq⟩ := w.abortWait_eq v ticket
    refine ⟨_, .step id .nil, ?_⟩
    show (w.abortWait v ticket).tokens = w.tokens
    rw [heq]
  | complete f =>
    obtain ⟨futures, log, heq⟩ := w.deliver_eq f .ok
    refine ⟨_, .step id .nil, ?_⟩
    show (w.deliver f .ok).tokens = w.tokens
    rw [heq]

/-! ## The cascade -/

/-- What firings that take callbacks in depth-first order do to tokens: each child is fired once. -/
def FiresChildren (w : World R) (order : List Callback) (w' : World R) : Prop :=
  ∀ c, (.fireChild c ∈ order → w'.tokens.get? c = (w.tokens.get? c).map Token.fire) ∧
    (.fireChild c ∉ order → w'.tokens.get? c = w.tokens.get? c)

theorem FiresChildren.append {order order' : List Callback} (h : w.FiresChildren order w') (h' : w'.FiresChildren order' w'')
    (hn : (order ++ order').Nodup) : w.FiresChildren (order ++ order') w'' := by
  intro c
  have hdisj : .fireChild c ∈ order → .fireChild c ∉ order' :=
    fun hc hc' => (List.nodup_append.1 hn).2.2 _ hc _ hc' rfl
  rw [List.mem_append]
  refine ⟨fun hc => ?_, fun hc => ?_⟩
  · rcases hc with hc | hc
    · rw [(h' c).2 (hdisj hc), (h c).1 hc]
    · rw [(h' c).1 hc, (h c).2 fun hc₁ => hdisj hc₁ hc]
  · rw [not_or] at hc
    rw [(h' c).2 hc.2, (h c).2 hc.1]

theorem firesChildren_takeAll (w : World R) (c : Nat) : w.FiresChildren [.fireChild c] (w.takeAll c).1 := by
  intro d
  rw [get?_takeAll, List.mem_singleton, Callback.fireChild.injEq]
  exact ⟨fun hd => if_pos hd.symm, fun hd => if_neg (Ne.symm hd)⟩

theorem step_fireChild {c : Nat} {t : Token R} (hc : w.tokens.get? c = some t) :
    w.step (.invoke (.fireChild c)) = ((w.takeAll c).1, (Registry.toList t.registry).map .invoke ++ [.finish none]) := by
  have hlist := w.takeAll_snd c
  rw [hc, Option.map_some, Option.getD_some] at hlist
  unfold step
  dsimp only
  rw [hc]
  dsimp only
  rw [hlist]

/-- Callbacks are served in depth-first order, if the children among them are as they were in the world `w₀`. -/
theorem DepthFirst.serves {w₀ : World R} {cbs order : List Callback} (hd : w₀.DepthFirst cbs order) (hn : order.Nodup)
    {rest : List Task} (hw : ∀ c, .fireChild c ∈ order → w.tokens.get? c = w₀.tokens.get? c)
    (hq : w.Quiet (cbs.map .invoke ++ rest)) : ∃ w', w.Serves (cbs.map .invoke) order w' ∧ w.FiresChildren order w' := by
  induction hd generalizing w rest with
  | nil => exact ⟨w, .nil, fun c => ⟨fun hc => (nomatch hc), fun _ => rfl⟩⟩
  | @plain cb cbs order hcb _ ih =>
    obtain ⟨w₁, hs₁, ht₁⟩ := hq.plain hcb
    have hw₁ : ∀ c, .fireChild c ∈ order → w₁.tokens.get? c = w₀.tokens.get? c := fun c hc =>
      ht₁ ▸ hw c (List.mem_cons_of_mem _ hc)
    have hrest : w.Quiet ([.invoke cb] ++ (cbs.map .invoke ++ rest)) := hq
    obtain ⟨w₂, hs₂, hf₂⟩ := ih (List.nodup_cons.1 hn).2 hw₁ (hrest.after hs₁)
    have hf₁ : w.FiresChildren [cb] w₁ := fun c =>
      ⟨fun hc => absurd (List.mem_singleton.1 hc).symm (hcb c), fun _ => by rw [ht₁]⟩
    exact ⟨w₂, hs₁.append hs₂, hf₁.append hf₂ hn⟩
  | @child c t cbs below order hc _ _ ihb ih =>
    obtain ⟨hnc, hn'⟩ := List.nodup_cons.1 hn
    have hstep := step_fireChild ((hw c List.mem_cons_self).trans hc)
    have hquiet := hq.step id
    rw [hstep, List.append_assoc] at hquiet
    -- The child is fired, then what was connected to it is served, then the rest.
    have hf₁ := w.firesChildren_takeAll c
    have hw₁ : ∀ d, .fireChild d ∈ below ++ order → (w.takeAll c).1.tokens.get? d = w₀.tokens.get? d := by
      intro d hd
      have hdc : .fireChild d ∉ [Callback.fireChild c] := fun hdc => hnc (List.mem_singleton.1 hdc ▸ hd)
      exact ((hf₁ d).2 hdc).trans (hw d (List.mem_cons_of_mem _ hd))
    obtain ⟨w₂, hs₂, hf₂⟩ := ihb (List.nodup_append.1 hn').1 (fun d hd => hw₁ d (List.mem_append_left _ hd)) hquiet
    have hfinish : w₂.Serves [.finish none] [] w₂ := .step id .nil
    have hw₂ : ∀ d, .fireChild d ∈ order → w₂.tokens.get? d = w₀.tokens.get? d := fun d hd =>
      ((hf₂ d).2 fun hd' => (List.nodup_append.1 hn').2.2 _ hd' _ hd rfl).trans (hw₁ d (List.mem_append_right _ hd))
    obtain ⟨w₃, hs₃, hf₃⟩ := ih (List.nodup_append.1 hn').2.1 hw₂ ((hquiet.after hs₂).after hfinish)
    refine ⟨w₃, ?_, hf₁.append (hf₂.append hf₃ hn') hn⟩
    have hchild : w.Serves [.invoke (.fireChild c)] (.fireChild c :: below) w₂ := by
      refine .step id ?_
      rw [hstep, ← List.append_nil below]
      exact hs₂.append hfinish
    exact hchild.append hs₃

/-- What a command that fires a token does: it holds the token as long as the firing takes. -/
theorem step_fire {within : Option Name} {name : Name} {n : Nat} {t : Token R} (hn : w.token? name = some (n, t)) :
    w.step (.run within (.fire name)) =
      (((w.hold n).takeAll n).1, (Registry.toList t.registry).map .invoke ++ [.finish (some n)]) := by
  have hlist : ((w.hold n).takeAll n).2 = Registry.toList t.registry := by
    rw [takeAll_snd, get?_hold, if_pos rfl, (token?_eq_some hn).2]
    rfl
  have hexec : w.execute (.fire name) = (((w.hold n).takeAll n).1,
      ((w.hold n).takeAll n).2.map .invoke ++ [.finish (some n)], .done) := by
    unfold execute
    dsimp only
    rw [hn]
  unfold step
  dsimp only
  rw [hexec, noteResult_done, hlist]

/-- A hold that is given up, which was not the last one. -/
theorem get?_release_held {n : Nat} {t : Token R} (hn : w.tokens.get? n = some { t with holders := t.holders + 1 })
    (ht : 0 < t.holders) (m : Nat) : (w.release n).tokens.get? m = if n = m then some t else w.tokens.get? m := by
  have hle : ¬ t.holders + 1 ≤ 1 := by omega
  unfold release
  rw [hn]
  dsimp only
  rw [if_neg hle, Table.get?_insert]
  rfl

/-- A token whose callbacks can be served in depth-first order is fired in that order. -/
theorem DepthFirst.serves_fire {within : Option Name} {name : Name} {n : Nat} {t : Token R} (hn : w.token? name = some (n, t))
    {order : List Callback} (hd : w.DepthFirst (Registry.toList t.registry) order) (hnodup : (.fireChild n :: order).Nodup)
    (hholders : 0 < t.holders) (hq : (w.step (.run within (.fire name))).1.Quiet (w.step (.run within (.fire name))).2) :
    ∃ w', (w.step (.run within (.fire name))).1.Serves (w.step (.run within (.fire name))).2 order w' ∧
      w.FiresChildren (.fireChild n :: order) w' := by
  obtain ⟨hnc, hn'⟩ := List.nodup_cons.1 hnodup
  have ht := (token?_eq_some hn).2
  rw [step_fire hn] at hq ⊢
  have hw₁ : ∀ m, ((w.hold n).takeAll n).1.tokens.get? m =
      if n = m then some { t.fire with holders := t.holders + 1 } else w.tokens.get? m := by
    intro m
    rw [get?_takeAll, get?_hold]
    split
    · rename_i hnm
      rw [← hnm, ht]
      rfl
    · rfl
  have hagree : ∀ c, .fireChild c ∈ order → ((w.hold n).takeAll n).1.tokens.get? c = w.tokens.get? c := by
    intro c hc
    have hne : n ≠ c := fun hne => hnc (hne ▸ hc)
    rw [hw₁, if_neg hne]
  obtain ⟨w₂, hs₂, hf₂⟩ := hd.serves hn' hagree hq
  -- The command holds the token until all is served, and someone else has held it before.
  have hheld : w₂.tokens.get? n = some { t.fire with holders := t.fire.holders + 1 } := by
    rw [(hf₂ n).2 hnc, hw₁, if_pos rfl]
    rfl
  have hw₃ := get?_release_held hheld hholders
  have hfinish : w₂.Serves [.finish (some n)] [] (w₂.release n) := .step id .nil
  refine ⟨w₂.release n, ?_, fun c => ?_⟩
  · have hserves := hs₂.append hfinish
    rwa [List.append_nil] at hserves
  · rw [hw₃, List.mem_cons, Callback.fireChild.injEq, not_or]
    by_cases hc : n = c
    · rw [if_pos hc, ← hc, ht]
      exact ⟨fun _ => rfl, fun h => absurd rfl h.1⟩
    · rw [if_neg hc]
      refine ⟨fun h => ?_, fun h => ?_⟩
      · rw [(hf₂ c).1 (h.resolve_left (Ne.symm hc)), hw₁, if_neg hc]
      · rw [(hf₂ c).2 h.2, hw₁, if_neg hc]

end World

end Gateway.Signal
