import Gateway.Proofs.Signal.Refinement
/-!
# Which tasks fire a token

A token is fired by a command or by its parent's callback (`World.Fires`). A token's count
goes up by one with each firing and by nothing else (`step_token`). What a task leaves to
be invoked is what is connected to the token it fires (`invoke_mem_step`), and what is
connected to a token that is not fired stays connected while its keeper is there
(`Moves.connected`).
-/
namespace Gateway.Signal

namespace World

/-- The task fires the token, which is alive. -/
inductive Fires {R : Type → Type} (w : World R) : Task → Nat → Prop where
  | command {within : Option Name} {name : Name} {n : Nat} {t : Token R} (h : w.token? name = some (n, t)) :
    Fires w (.run within (.fire name)) n
  | child {n : Nat} {t : Token R} (h : w.tokens.get? n = some t) : Fires w (.invoke (.fireChild n)) n

theorem Fires.token_some {R : Type → Type} {w : World R} {task : Task} {n : Nat} (h : w.Fires task n) :
    ∃ t, w.tokens.get? n = some t := by
  cases h with
  | command h => exact ⟨_, (token?_eq_some h).2⟩
  | child h => exact ⟨_, h⟩

end World

/-! ## What is left to be invoked -/

/-- Only a firing leaves something to do. -/
theorem World.execute_tasks {R : Type → Type} [Registry R] (w : World R) (c : Command) :
    (∃ name, c = .fire name) ∨ (w.execute c).2.1 = [] := by
  cases c with
  | fire name => exact .inl ⟨name, rfl⟩
  | connect token name script | cancelled token name =>
    refine .inr ?_
    unfold execute
    dsimp only
    cases w.token? token <;> rfl
  | notify name =>
    refine .inr ?_
    unfold execute
    dsimp only
    cases w.condvar? name <;> rfl
  | wait condvar name token =>
    refine .inr ?_
    unfold execute
    dsimp only
    cases w.condvar? condvar <;> rfl
  | poll name =>
    refine .inr ?_
    unfold execute
    dsimp only
    cases w.future? name <;> rfl
  | token name parent | condvar name | drop name | inspect name | unknown => exact .inr rfl

theorem invoke_mem_taken {cbs : List Callback} {held : Option Nat} {cb : Callback} :
    .invoke cb ∈ cbs.map Task.invoke ++ [.finish held] ↔ cb ∈ cbs := by
  rw [List.mem_append]
  refine ⟨fun h => h.elim (fun h => ?_) fun h => (nomatch List.mem_singleton.1 h), fun h => .inl (List.mem_map_of_mem h)⟩
  obtain ⟨cb', hcb, he⟩ := List.mem_map.1 h
  cases he
  exact hcb

variable {w : World Arrivals} {task : Task} {cb : Callback}

theorem World.entries_hold (n m : Nat) : (w.hold n).entries m = w.entries m := by
  unfold entries hold
  rw [Table.get?_modify]
  split
  · cases w.tokens.get? m <;> rfl
  · rfl

/-- A task leaves to be invoked what is connected to the token it fires. -/
theorem invoke_mem_step : .invoke cb ∈ (w.step task).2 ↔ ∃ n, w.Fires task n ∧ ∃ k, (k, cb) ∈ w.entries n := by
  have htaken : ∀ n, cb ∈ (w.takeAll n).2 ↔ ∃ k, (k, cb) ∈ w.entries n := by
    intro n
    rw [World.takeAll_snd_eq, List.mem_map]
    exact ⟨fun ⟨e, he, hcb⟩ => ⟨e.1, hcb ▸ he⟩, fun ⟨k, he⟩ => ⟨_, he, rfl⟩⟩
  cases task with
  | run within c =>
    rcases w.execute_tasks c with ⟨name, rfl⟩ | hnil
    · have hheld : ∀ n, ((w.hold n).takeAll n).2 = (w.takeAll n).2 := fun n => by
        rw [World.takeAll_snd_eq, World.takeAll_snd_eq, World.entries_hold]
      show .invoke cb ∈ (w.execute (.fire name)).2.1 ↔ _
      unfold World.execute
      dsimp only
      cases hn : w.token? name with
      | none =>
        refine ⟨fun h => (nomatch h), fun ⟨n, hf, _⟩ => ?_⟩
        cases hf with
        | command h => exact nomatch hn.symm.trans h
      | some e =>
        obtain ⟨n, t⟩ := e
        refine invoke_mem_taken.trans ?_
        rw [hheld, htaken]
        refine ⟨fun h => ⟨n, .command hn, h⟩, fun ⟨m, hf, h⟩ => ?_⟩
        cases hf with
        | command h' =>
          obtain ⟨rfl, -⟩ := Prod.mk.inj (Option.some.inj (hn.symm.trans h'))
          exact h
    · have hstep : (w.step (.run within c)).2 = [] := hnil
      rw [hstep]
      refine ⟨fun h => (nomatch h), fun ⟨n, hf, k, he⟩ => ?_⟩
      cases hf with
      | @command _ name _ t h =>
        unfold World.execute at hnil
        simp [h] at hnil
  | invoke cb' =>
    cases cb' with
    | script c name script =>
      refine ⟨fun h => ?_, fun ⟨n, hf, _⟩ => nomatch hf⟩
      obtain ⟨c, -, hc⟩ := List.mem_map.1 h
      cases hc
    | fireChild n =>
      unfold World.step
      dsimp only
      cases hn : w.tokens.get? n with
      | none =>
        refine ⟨fun h => (nomatch h), fun ⟨m, hf, _⟩ => ?_⟩
        cases hf with
        | child h => exact nomatch hn.symm.trans h
      | some t =>
        refine invoke_mem_taken.trans ?_
        rw [htaken]
        refine ⟨fun h => ⟨n, .child hn, h⟩, fun ⟨m, hf, h⟩ => ?_⟩
        cases hf
        exact h
    | abortWait v ticket => exact ⟨fun h => (nomatch h), fun ⟨n, hf, _⟩ => nomatch hf⟩
    | complete f => exact ⟨fun h => (nomatch h), fun ⟨n, hf, _⟩ => nomatch hf⟩
  | finish held => cases held <;> exact ⟨fun h => (nomatch h), fun ⟨n, hf, _⟩ => nomatch hf⟩

/-! ## Counts -/

/-- Whether a deed fires the token `n`, if that is alive. -/
def Deed.fires (n : Nat) : Deed → Bool
  | .fire m => m = n
  | .invoke (.fireChild m) => m = n
  | _ => false

theorem Rewires.token {a b : Standing Arrivals} {ds : List Deed} (hr : Rewires a ds b) {n : Nat}
    (hn : n < a.world.next) {t' : Token Arrivals} (ht' : b.world.tokens.get? n = some t') :
    ∃ t, a.world.tokens.get? n = some t ∧ t'.parent = t.parent ∧ t'.count = t.count + ds.countP (Deed.fires n) := by
  have hcont : ∀ {w w' : World Arrivals}, World.Continues w w' → n < w.next → w'.tokens.get? n = some t' →
      ∃ t, w.tokens.get? n = some t ∧ t'.parent = t.parent ∧ t'.count = t.count := by
    intro w w' hc hn ht'
    rcases (hc.token n t' ht').2 with hle | ⟨t, ht, -, hcount, hparent⟩
    · exact absurd hn (Nat.not_lt.2 hle)
    · exact ⟨t, ht, hparent, hcount⟩
  cases hr with
  | lose hl => exact hcont hl.toContinues hn ht'
  | gain hg _ => exact hcont hg.toContinues hn ht'
  | flash _ hl => exact hcont hl.toContinues hn ht'
  | @invoke _ _ _ _ _ cb hcb hl _ =>
    have hnot : Deed.fires n (.invoke cb) = false := by
      cases cb with
      | fireChild m => exact absurd rfl (hcb m)
      | script | abortWait | complete => rfl
    rw [List.countP_singleton, hnot]
    exact hcont hl.toContinues hn ht'
  | fire m =>
    obtain ⟨t, ht, -, hparent, hcount⟩ := World.of_get?_takeAll ht'
    refine ⟨t, ht, hparent, ?_⟩
    rw [List.countP_singleton, hcount, Deed.fires]
    simp only [decide_eq_true_eq]
  | fireChild m =>
    obtain ⟨t, ht, -, hparent, hcount⟩ := World.of_get?_takeAll ht'
    refine ⟨t, ht, hparent, ?_⟩
    rw [List.countP_singleton, hcount, Deed.fires]
    simp only [decide_eq_true_eq]

theorem Moves.token {a b : Standing Arrivals} {ds : List Deed} (hm : Moves a ds b) (hs : a.world.Sound) {n : Nat}
    (hn : n < a.world.next) : n < b.world.next ∧ ∀ t', b.world.tokens.get? n = some t' →
      ∃ t, a.world.tokens.get? n = some t ∧ t'.parent = t.parent ∧ t'.count = t.count + ds.countP (Deed.fires n) := by
  refine (hm.keeps hs (P := fun ds b => n < b.world.next ∧ ∀ t', b.world.tokens.get? n = some t' →
    ∃ t, a.world.tokens.get? n = some t ∧ t'.parent = t.parent ∧ t'.count = t.count + ds.countP (Deed.fires n))
    ⟨hn, fun t' ht' => ⟨t', ht', rfl, rfl⟩⟩ ?_).2
  rintro ds b ds' c ⟨hlt, hb⟩ - - hr
  refine ⟨Nat.lt_of_lt_of_le hlt hr.next_le, fun t' ht' => ?_⟩
  obtain ⟨t₁, ht₁, hparent₁, hcount₁⟩ := hr.token hlt ht'
  obtain ⟨t, ht, hparent, hcount⟩ := hb t₁ ht₁
  refine ⟨t, ht, hparent₁.trans hparent, ?_⟩
  rw [List.countP_append, hcount₁, hcount, Nat.add_assoc]

/-- A command registers a callback or fires a token, if it does either. -/
theorem mem_deeds_run {within : Option Name} {c : Command} {d : Deed} (hd : d ∈ w.deeds (.run within c)) :
    (∃ cb, d = .register cb) ∨ ∃ name n t, c = .fire name ∧ w.token? name = some (n, t) ∧ d = .fire n := by
  cases c with
  | fire name =>
    unfold World.deeds at hd
    dsimp only at hd
    cases hn : w.token? name with
    | none =>
      rw [hn] at hd
      cases hd
    | some e =>
      rw [hn] at hd
      exact .inr ⟨name, e.1, e.2, rfl, hn, List.mem_singleton.1 hd⟩
  | token name parent | connect token name script | wait condvar name token =>
    unfold World.deeds at hd
    dsimp only at hd
    split at hd
    · exact .inl ⟨_, List.mem_singleton.1 hd⟩
    · cases hd
  | poll name =>
    unfold World.deeds World.pollDeeds at hd
    dsimp only at hd
    split at hd
    · split at hd
      · split at hd
        · exact .inl ⟨_, List.mem_singleton.1 hd⟩
        · cases hd
      · cases hd
    · cases hd
  | cancelled token name | condvar name | notify name | drop name | inspect name | unknown => cases hd

/-- A task's deeds fire the token that the task fires. -/
theorem countP_deeds {n : Nat} {t : Token Arrivals} (hn : w.tokens.get? n = some t) :
    (w.Fires task n → (w.deeds task).countP (Deed.fires n) = 1) ∧
      (¬ w.Fires task n → ∀ d ∈ w.deeds task, d.fires n = false) := by
  refine ⟨fun hf => ?_, fun hf d hd => ?_⟩
  · cases hf with
    | command h =>
      unfold World.deeds
      simp [h, Deed.fires]
    | child h => simp [World.deeds, Deed.fires]
  · by_contra hfires
    rw [Bool.not_eq_false] at hfires
    refine hf ?_
    cases task with
    | run within c =>
      rcases mem_deeds_run hd with ⟨cb, rfl⟩ | ⟨name, m, t, rfl, h, rfl⟩
      · cases hfires
      · obtain rfl : m = n := of_decide_eq_true hfires
        exact .command h
    | invoke cb =>
      cases List.mem_singleton.1 hd
      cases cb with
      | fireChild m =>
        obtain rfl : m = n := of_decide_eq_true hfires
        exact .child hn
      | script | abortWait | complete => cases hfires
    | finish held => cases hd

/-- A task's firings are counted, and a token keeps its parent. -/
theorem step_token (hs : w.Sound) (task : Task) {n : Nat} (hn : n < w.next) : n < (w.step task).1.next ∧
    ∀ t', (w.step task).1.tokens.get? n = some t' → ∃ t, w.tokens.get? n = some t ∧ t'.parent = t.parent ∧
      (w.Fires task n → t'.count = t.count + 1) ∧ (¬ w.Fires task n → t'.count = t.count) := by
  obtain ⟨hlt, htoken⟩ := (step_moves w task []).token (a := Moment.standing ⟨w, [task]⟩) hs hn
  refine ⟨hlt, fun t' ht' => ?_⟩
  obtain ⟨t, ht, hparent, hcount⟩ := htoken t' ht'
  obtain ⟨hone, hnone⟩ := @countP_deeds w task n t ht
  refine ⟨t, ht, hparent, fun hf => by rw [hcount, hone hf], fun hf => ?_⟩
  rw [hcount, List.countP_eq_zero.2 fun d hd => Bool.not_eq_true _ ▸ hnone hf d hd]
  rfl

/-! ## Connections that stay -/

/-- What is connected to a token that is not fired stays connected while its keeper is there. -/
theorem Moves.connected {a b : Standing Arrivals} {ds : List Deed} (hm : Moves a ds b) (hs : a.world.Sound) (cb : Callback)
    {x : Keeper} {l : Link} (hlt : l.token < a.world.next) (hused : a.world.Used cb.owner)
    (he : (l.key.place, cb) ∈ a.world.entries l.token) (hf : ∀ d ∈ ds, d.fires l.token = false)
    (hx : b.world.kept? x = some (l, cb.owner)) {t : Token Arrivals} (ht : b.world.tokens.get? l.token = some t) :
    (l.key.place, cb) ∈ b.world.entries l.token := by
  let P := fun (ds : List Deed) (b : Standing Arrivals) => l.token < b.world.next ∧ b.world.Used cb.owner ∧
    ((∀ d ∈ ds, d.fires l.token = false) → b.world.kept? x = some (l, cb.owner) →
      ∀ t, b.world.tokens.get? l.token = some t → (l.key.place, cb) ∈ b.world.entries l.token)
  suffices hP : P ds b from hP.2.2 hf hx t ht
  refine (hm.keeps hs (P := P) ⟨hlt, hused, fun _ _ _ _ => he⟩ ?_).2
  rintro ds b ds' c ⟨hlt, hused, hP⟩ hb - hr
  refine ⟨Nat.lt_of_lt_of_le hlt hr.next_le, hr.used hused, fun hf hx t' ht' => ?_⟩
  have hxb := hr.of_kept? hused hx
  obtain ⟨t, ht, -⟩ := hr.token hlt ht'
  have heb := hP (fun d hd => hf d (List.mem_append_left _ hd)) hxb t ht
  replace hf := fun d hd => hf d (List.mem_append_right _ hd)
  have htaken : ∀ {w : World Arrivals} (n : Nat), n ≠ l.token → (l.key.place, cb) ∈ w.entries l.token →
      (l.key.place, cb) ∈ (w.takeAll n).1.entries l.token := by
    intro w n hn he
    rwa [World.entries_takeAll, if_neg hn]
  cases hr with
  | @lose _ _ _ _ _ y hl | @flash _ _ _ _ _ _ hl | @invoke _ _ _ _ _ _ _ hl _ =>
    refine hl.connected hb.linked hxb (fun hy => ?_) heb ht'
    rw [hl.kept, if_pos hy] at hx
    cases hx
  | gain hg _ => exact hg.connected heb ht'
  | fire n => exact htaken n (of_decide_eq_false (hf _ (List.mem_singleton_self _))) heb
  | fireChild n => exact htaken n (of_decide_eq_false (hf _ (List.mem_singleton_self _))) heb

/-! ## The same for slots -/

theorem World.Mirrors.fires {κ : KeyPairs} {w : World Slots} {v : World Arrivals} (h : w.Mirrors κ v) {task : Task} {n : Nat} :
    w.Fires task n ↔ v.Fires task n := by
  constructor
  · intro hf
    cases hf with
    | command hn =>
      obtain ⟨t', hn', -⟩ := h.token?_some hn
      exact .command hn'
    | child hn =>
      obtain ⟨t', hn', -⟩ := h.token_some hn
      exact .child hn'
  · intro hf
    cases hf with
    | @command _ name _ t hn =>
      rcases h.token? name with ⟨-, hnone⟩ | ⟨m, t₁, t', hm, hm', -⟩
      · exact nomatch hnone.symm.trans hn
      · obtain ⟨rfl, -⟩ := Prod.mk.inj (Option.some.inj (hm'.symm.trans hn))
        exact .command hm
    | child hn =>
      obtain ⟨t, ht, -⟩ := h.some_token hn
      exact .child ht

theorem SideBySide.fires {done : List (World Slots × Task)} {done' : List (World Arrivals × Task)}
    (h : SideBySide done done') (n : Nat) (P : Task → Prop) :
    (∀ e ∈ done, e.1.Fires e.2 n → P e.2) ↔ ∀ e ∈ done', e.1.Fires e.2 n → P e.2 :=
  h.forall_iff fun _ _ _ task hm => imp_congr (@World.Mirrors.fires _ _ _ hm task n) (Iff.refl (P task))

end Gateway.Signal
