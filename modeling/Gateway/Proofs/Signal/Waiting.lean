import Gateway.Proofs.Signal.Once
/-!
# Who is queued at a condition variable

A condition variable queues those of its waits that are alive and not decided, and queues
them in the order in which they began (`World.Lined`, `Lined.mem_waiters`). The numbers of
futures tell that order, as each new one gets the next number.

That a decided wait is not queued rests on it that the callback of a future for a firing
never decides a wait (`Standing.Completes`).
-/
namespace Gateway.Signal

/-! ## In order and undecided -/

section Lined

variable {R : Type → Type} {w w' : World R}

/-- Condition variables queue waits in the order of their numbers, and none that is decided. -/
structure World.Lined (w : World R) : Prop where
  sorted : ∀ v cv, w.condvars.get? v = some cv → (cv.waiting.map (·.2)).Pairwise (· < ·)
  undecided : ∀ v cv t f u, w.condvars.get? v = some cv → (t, f) ∈ cv.waiting → w.futures.get? f = some u → u.outcome = none

/-- The future is alive and waits for the condition variable, undecided. -/
def World.Pending (w : World R) (v f : Nat) : Prop :=
  ∃ u ticket l, w.futures.get? f = some u ∧ u.source = .wait v ticket l ∧ u.outcome = none

namespace World

theorem lined_empty : ({} : World R).Lined := ⟨fun _ _ h => (nomatch h), fun _ _ _ _ _ h => (nomatch h)⟩

/-- Queues may get shorter, if those who stay in them stay undecided. -/
theorem Lined.mono (h : w.Lined)
    (hc : ∀ v cv', w'.condvars.get? v = some cv' → ∃ cv, w.condvars.get? v = some cv ∧ cv'.waiting.Sublist cv.waiting)
    (hf : ∀ v cv' t f u', w'.condvars.get? v = some cv' → (t, f) ∈ cv'.waiting → w'.futures.get? f = some u' →
      ∃ u, w.futures.get? f = some u ∧ u'.outcome = u.outcome) : w'.Lined := by
  constructor
  · intro v cv' hcv'
    obtain ⟨cv, hcv, hsub⟩ := hc v cv' hcv'
    exact (h.sorted v cv hcv).sublist (hsub.map _)
  · intro v cv' t f u' hcv' hmem hu'
    obtain ⟨cv, hcv, hsub⟩ := hc v cv' hcv'
    obtain ⟨u, hu, ho⟩ := hf v cv' t f u' hcv' hmem hu'
    exact ho.trans (h.undecided v cv t f u hcv (hsub.subset hmem) hu)

/-- Condition variables stay as they are, and nobody in a queue is decided. -/
theorem Lined.futures (h : w.Lined) (hc : w'.condvars = w.condvars)
    (hf : ∀ v cv t f u', w.condvars.get? v = some cv → (t, f) ∈ cv.waiting → w'.futures.get? f = some u' →
      ∃ u, w.futures.get? f = some u ∧ u'.outcome = u.outcome) : w'.Lined :=
  h.mono (fun _ cv hcv => ⟨cv, hc ▸ hcv, List.Sublist.refl _⟩) fun v cv t f u hcv => hf v cv t f u (hc ▸ hcv)

theorem Lined.congr (h : w.Lined) (hf : w'.futures = w.futures) (hc : w'.condvars = w.condvars) : w'.Lined :=
  h.futures hc fun _ _ _ _ u _ _ hu => ⟨u, hf ▸ hu, rfl⟩

/-- Those who are decided leave their queues. -/
theorem Lined.decides (h : w.Lined) {p : Nat → Prop} [DecidablePred p] {o : Outcome} (hd : Decides p o w w')
    (hc : ∀ v cv', w'.condvars.get? v = some cv' → ∃ cv, w.condvars.get? v = some cv ∧ cv'.waiting.Sublist cv.waiting)
    (hp : ∀ v cv' t f, w'.condvars.get? v = some cv' → (t, f) ∈ cv'.waiting → ¬ p f) : w'.Lined := by
  refine h.mono hc fun v cv' t f u' hcv' hmem hu' => ?_
  rw [hd.future f, if_neg (hp v cv' t f hcv' hmem)] at hu'
  exact ⟨u', hu', rfl⟩

theorem Lined.deliver (h : w.Lined) {f : Nat}
    (hf : ∀ v cv t, w.condvars.get? v = some cv → (t, f) ∉ cv.waiting) (o : Outcome) : (w.deliver f o).Lined := by
  have hc : (w.deliver f o).condvars = w.condvars := by
    obtain ⟨futures, log, heq⟩ := w.deliver_eq f o
    rw [heq]
  refine h.decides (w.decides_deliver f o) (fun v cv hcv => ⟨cv, hc ▸ hcv, List.Sublist.refl _⟩) ?_
  rintro v cv t g hcv hmem rfl
  exact hf v cv t (hc ▸ hcv) hmem

theorem Lined.abortWait (h : w.Lined) (hq : w.Queued) (v ticket : Nat) : (w.abortWait v ticket).Lined := by
  refine h.decides (w.decides_abortWait v ticket) (fun v' cv' hcv' => ?_) fun v' cv' t f hcv' hmem hp => ?_
  · rw [condvar_abortWait] at hcv'
    split at hcv'
    · obtain ⟨cv, hcv, rfl⟩ := Option.map_eq_some_iff.1 hcv'
      exact ⟨cv, hcv, List.filter_sublist⟩
    · exact ⟨cv', hcv', List.Sublist.refl _⟩
  · -- Whoever has the ticket is not in any queue any more.
    exact hq.notMem_abortWait (hq.owner_waits hp) v' t cv' hcv' hmem

theorem Queued.notMem_waiters (hq : w.Queued) {v v' t f : Nat} {cv : Condvar Nat} (hv : v ≠ v')
    (hcv : w.condvars.get? v' = some cv) (hmem : (t, f) ∈ cv.waiting) : f ∉ w.waiters v :=
  fun hf => hv (hq.eq_of_mem_waiters (hq.waiting f v' t cv hcv hmem) hf)

theorem Lined.releaseAll (h : w.Lined) (hq : w.Queued) (v : Nat) (o : Outcome) : (w.releaseAll v o).Lined := by
  refine h.decides (w.decides_releaseAll v o) (fun v' cv' hcv' => ?_) fun v' cv' t f hcv' hmem => ?_ <;>
    rw [condvar_releaseAll] at hcv'
  · split at hcv'
    · obtain ⟨cv, hcv, rfl⟩ := Option.map_eq_some_iff.1 hcv'
      exact ⟨cv, hcv, List.nil_sublist _⟩
    · exact ⟨cv', hcv', List.Sublist.refl _⟩
  · split at hcv'
    · obtain ⟨cv, hcv, rfl⟩ := Option.map_eq_some_iff.1 hcv'
      cases hmem
    · rename_i hv
      exact hq.notMem_waiters hv hcv' hmem

theorem Lined.dropCondvar (h : w.Lined) (hq : w.Queued) (v : Nat) : (w.dropCondvar v).Lined := by
  refine h.decides (w.decides_dropCondvar v) (fun v' cv' hcv' => ?_) fun v' cv' t f hcv' hmem => ?_ <;>
    rw [condvar_dropCondvar] at hcv'
  · split at hcv'
    · cases hcv'
    · exact ⟨cv', hcv', List.Sublist.refl _⟩
  · split at hcv'
    · cases hcv'
    · rename_i hv
      exact hq.notMem_waiters hv hcv' hmem

/-- A future is changed, and not decided. -/
theorem Lined.insertFuture (h : w.Lined) {f : Nat} {u u' : Future} (hu : w.futures.get? f = some u)
    (hc : w'.condvars = w.condvars) (hf : w'.futures = w.futures.insert f u') (ho : u'.outcome = u.outcome) :
    w'.Lined := by
  refine h.futures hc fun v cv t g u₁ hcv hmem hu₁ => ?_
  rw [hf, Table.get?_insert] at hu₁
  split at hu₁
  · rename_i hfg
    cases hu₁
    exact ⟨u, hfg ▸ hu, ho⟩
  · exact ⟨u₁, hu₁, rfl⟩

theorem Lined.eraseFuture (h : w.Lined) {f : Nat} (hc : w'.condvars = w.condvars)
    (hf : w'.futures = w.futures.erase f) : w'.Lined := by
  refine h.futures hc fun v cv t g u₁ hcv hmem hu₁ => ?_
  rw [hf, Table.get?_erase] at hu₁
  split at hu₁
  · cases hu₁
  · exact ⟨u₁, hu₁, rfl⟩

/-- A new future is in no queue. -/
theorem Lined.addFuture (h : w.Lined) (hq : w.Queued) {u : Future} (hc : w'.condvars = w.condvars)
    (hf : w'.futures = w.futures.insert w.next u) : w'.Lined := by
  refine h.futures hc fun v cv t g u₁ hcv hmem hu₁ => ?_
  obtain ⟨u₂, l, hu₂, -⟩ := hq.waiting g v t cv hcv hmem
  rw [hf, Table.get?_insert, if_neg (Nat.ne_of_gt (hq.future_lt g u₂ hu₂))] at hu₁
  exact ⟨u₁, hu₁, rfl⟩

theorem Lined.addCondvar (h : w.Lined) (hc : w'.condvars = w.condvars.insert w.next {})
    (hf : w'.futures = w.futures) : w'.Lined := by
  have hcond : ∀ v cv, w'.condvars.get? v = some cv → cv = {} ∨ w.condvars.get? v = some cv := by
    intro v cv hcv
    rw [hc, Table.get?_insert] at hcv
    split at hcv
    · cases hcv
      exact .inl rfl
    · exact .inr hcv
  constructor
  · intro v cv hcv
    rcases hcond v cv hcv with rfl | hcv
    · exact .nil
    · exact h.sorted v cv hcv
  · intro v cv t f u hcv hmem hu
    rcases hcond v cv hcv with rfl | hcv
    · cases hmem
    · exact h.undecided v cv t f u hcv hmem (hf ▸ hu)

/-- A new wait comes last, and it has the greatest number. -/
theorem Lined.addWait (h : w.Lined) (hq : w.Queued) {v : Nat} {cv : Condvar Nat} (hv : w.condvars.get? v = some cv)
    {u : Future} (ho : u.outcome = none) (hc : w'.condvars = w.condvars.insert v (cv.register w.next).1)
    (hf : w'.futures = w.futures.insert w.next u) : w'.Lined := by
  -- Everyone who is queued has a smaller number than the new wait.
  have hlt : ∀ v cv t f, w.condvars.get? v = some cv → (t, f) ∈ cv.waiting → f < w.next := by
    intro v cv t f hcv hmem
    obtain ⟨u, l, hu, -⟩ := hq.waiting f v t cv hcv hmem
    exact hq.future_lt f u hu
  have hcond : ∀ v' cv', w'.condvars.get? v' = some cv' →
      (v' = v ∧ cv'.waiting = cv.waiting ++ [(cv.nextTicket, w.next)]) ∨ w.condvars.get? v' = some cv' := by
    intro v' cv' hcv'
    rw [hc, Table.get?_insert] at hcv'
    split at hcv'
    · rename_i hvv
      cases hcv'
      exact .inl ⟨hvv.symm, rfl⟩
    · exact .inr hcv'
  have hold : ∀ v' cv' t f u', w.condvars.get? v' = some cv' → (t, f) ∈ cv'.waiting →
      w'.futures.get? f = some u' → u'.outcome = none := by
    intro v' cv' t f u' hcv' hmem hu'
    rw [hf, Table.get?_insert, if_neg (Nat.ne_of_gt (hlt v' cv' t f hcv' hmem))] at hu'
    exact h.undecided v' cv' t f u' hcv' hmem hu'
  constructor
  · intro v' cv' hcv'
    rcases hcond v' cv' hcv' with ⟨rfl, hwait⟩ | hcv'
    · rw [hwait, List.map_append]
      refine List.pairwise_append.2 ⟨h.sorted v' cv hv, List.pairwise_singleton _ _, fun g hg g' hg' => ?_⟩
      obtain ⟨e, he, rfl⟩ := List.mem_map.1 hg
      rw [List.mem_singleton.1 hg']
      exact hlt v' cv e.1 e.2 hv he
    · exact h.sorted v' cv' hcv'
  · intro v' cv' t f u' hcv' hmem hu'
    rcases hcond v' cv' hcv' with ⟨rfl, hwait⟩ | hcv'
    · rw [hwait] at hmem
      rcases List.mem_append.1 hmem with hmem | hmem
      · exact hold v' cv t f u' hv hmem hu'
      · obtain ⟨-, rfl⟩ := Prod.mk.inj (List.mem_singleton.1 hmem)
        rw [hf, Table.get?_insert, if_pos rfl] at hu'
        cases hu'
        exact ho
    · exact hold v' cv' t f u' hcv' hmem hu'

/-- Who is let go when everyone who waits is. -/
theorem Lined.mem_waiters (h : w.Lined) (hq : w.Queued) {v f : Nat} : f ∈ w.waiters v ↔ w.Pending v f := by
  rw [w.mem_waiters]
  constructor
  · rintro ⟨cv, t, hcv, hmem⟩
    obtain ⟨u, l, hu, hs⟩ := hq.waiting f v t cv hcv hmem
    exact ⟨u, t, l, hu, hs, h.undecided v cv t f u hcv hmem hu⟩
  · rintro ⟨u, t, l, hu, hs, ho⟩
    obtain ⟨cv, hcv, hmem⟩ := hq.undecided f u v t l hu hs ho
    exact ⟨cv, t, hcv, hmem⟩

end World

variable [Registry R]

theorem Move.lined {a b : Standing R} {ds : List Deed} (hm : Move a ds b) (hq : a.world.Queued) (h : a.world.Lined)
    (hds : ∀ f, .invoke (.complete f) ∈ ds → ∀ v cv t, a.world.condvars.get? v = some cv → (t, f) ∉ cv.waiting) :
    b.world.Lined := by
  cases hm with
  | note | rename | nameToken | unnameToken | hold | call | makeToken | makeChild | connect =>
    exact World.Lined.congr h rfl rfl
  | @release w _ _ n =>
    obtain ⟨tokens, heq⟩ := w.release_eq n
    show (w.release n).Lined
    rw [heq]
    exact World.Lined.congr h rfl rfl
  | @fire w _ _ n | @fireChild w _ _ n =>
    obtain ⟨tokens, heq⟩ := w.takeAll_eq n
    show (w.takeAll n).1.Lined
    rw [heq]
    exact World.Lined.congr h rfl rfl
  | @dropConnection w _ _ c =>
    obtain ⟨tokens, connections, heq⟩ := w.dropConnection_eq c
    show (w.dropConnection c).Lined
    rw [heq]
    exact World.Lined.congr h rfl rfl
  | abort v ticket => exact World.Lined.abortWait h hq v ticket
  | complete f => exact World.Lined.deliver h (hds f (List.mem_singleton_self _)) .ok
  | makeCondvar => exact World.Lined.addCondvar h rfl rfl
  | dropCondvar v => exact World.Lined.dropCondvar h hq v
  | notify v => exact World.Lined.releaseAll h hq v .ok
  | wait hv => exact World.Lined.addWait h hq hv rfl rfl rfl
  | @waitFor w _ _ v cv n t hv hn =>
    have hadd : (w.addWaitTo v cv n t).Lined := World.Lined.addWait h hq hv rfl rfl rfl
    show (w.addWaitFor v cv n t).Lined
    unfold World.addWaitFor
    dsimp only
    split
    · exact hadd.abortWait (World.Queued.addWait hq hv rfl rfl rfl) v cv.nextTicket
    · exact hadd
  | @dropWait w _ _ f u v ticket l hf hs =>
    show (w.dropFuture f).Lined
    rw [World.dropFuture, hf]
    simp only [hs]
    refine (World.Lined.abortWait h hq v ticket).eraseFuture (f := f) ?_ ?_ <;> cases l <;> rfl
  | cancelled n => exact World.Lined.addFuture h hq rfl rfl
  | endWait hf | watch hf | watchFiring hf | findFired hf | endFiring hf =>
    exact World.Lined.insertFuture h hf rfl rfl rfl
  | dropEnded hf => exact World.Lined.eraseFuture h rfl rfl
  | @dropFiring w _ _ f u n l hf hs =>
    refine World.Lined.eraseFuture h (f := f) ?_ ?_ <;> cases l <;> rfl

end Lined

/-! ## Whom callbacks complete -/

/-- What is due to complete a future does so for one that is for a firing. -/
def Standing.Completes (a : Standing Arrivals) : Prop :=
  ∀ f, .complete f ∈ a.due → f < a.world.next ∧ ∀ u, a.world.futures.get? f = some u → ∃ n l, u.source = .firing n l

theorem Moves.lined {a b : Standing Arrivals} {ds : List Deed} (hm : Moves a ds b) (hs : a.world.Sound)
    (h : a.world.Lined) (hc : a.Completes) : b.world.Lined ∧ b.Completes := by
  refine (hm.keeps hs (P := fun _ b => b.world.Lined ∧ b.Completes) ⟨h, hc⟩ ?_).2
  rintro ds b ds' c ⟨hlined, hcomp⟩ hb hm hr
  constructor
  · refine hm.lined hb.queued hlined fun f hf v cv t hcv hmem => ?_
    have hdue : .complete f ∈ b.due := by
      cases hr with
      | invoke =>
        cases List.mem_singleton.1 hf
        exact List.mem_cons_self
      | lose | gain | flash | fire | fireChild => simp at hf
    obtain ⟨u, l, hu, hsrc⟩ := hb.queued.waiting f v t cv hcv hmem
    obtain ⟨n, l', hfiring⟩ := (hcomp f hdue).2 u hu
    rw [hsrc] at hfiring
    cases hfiring
  · intro f hf
    have hbefore : f < b.world.next ∧ ∀ u, b.world.futures.get? f = some u → ∃ n l, u.source = .firing n l := by
      by_cases hdue : .complete f ∈ b.due
      · exact hcomp f hdue
      · -- What is newly due was connected, and the future it is for keeps the link.
        obtain ⟨n, htaken⟩ : ∃ n, .complete f ∈ (b.world.takeAll n).2 := by
          cases hr with
          | lose | gain | flash => exact absurd hf hdue
          | invoke => exact absurd (List.mem_cons_of_mem _ hf) hdue
          | fire n => exact ⟨n, (List.mem_append.1 hf).resolve_right hdue⟩
          | fireChild n => exact ⟨n, (List.mem_append.1 hf).resolve_right fun hf => hdue (List.mem_cons_of_mem _ hf)⟩
        rw [World.takeAll_snd_eq] at htaken
        obtain ⟨e, he, hcb⟩ := List.mem_map.1 htaken
        obtain ⟨x, l, hx, -⟩ := hb.linked.kept n e he
        rw [hcb] at hx
        refine ⟨(hb.linked.used x l _ hx).1, fun u hu => ?_⟩
        obtain ⟨-, u', m, hu', hsrc, -⟩ := World.keptBy_of_kept? hx
        obtain rfl := Option.some.inj (hu'.symm.trans hu)
        exact ⟨m, some l, hsrc⟩
    refine ⟨Nat.lt_of_lt_of_le hbefore.1 hr.next_le, fun u' hu' => ?_⟩
    rcases hm.future hu' with ⟨hnew, -⟩ | ⟨u, hu, -, -, hsrc⟩
    · exact absurd hbefore.1 (Nat.not_lt.2 (Nat.le_of_eq hnew.symm))
    · obtain ⟨n, l, hfiring⟩ := hbefore.2 u hu
      rcases hsrc with hsrc | ⟨m, l', t, -, hsrc, -⟩
      · exact ⟨n, l, hsrc.trans hfiring⟩
      · exact ⟨m, some l', hsrc⟩

theorem Moment.Reaches.lined {done : List (World Arrivals × Task)} {m : Moment Arrivals}
    (hr : Moment.Reaches ({} : Moment Arrivals) done m) : m.world.Lined ∧ m.standing.Completes :=
  hr.moves.lined World.sound_empty World.lined_empty fun _ hf => (nomatch hf)

end Gateway.Signal
