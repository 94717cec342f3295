import Gateway.Proofs.Signal.Lookup
import Gateway.Proofs.Signal.Move
/-!
# Who waits with which ticket

A wait that is not decided is still queued at its condition variable, under a ticket that
no other wait has there (`World.Queued`). So the abortion of a wait decides it
(`Queued.abortWait_decides`), and nobody else.
-/
namespace Gateway.Signal

variable {R : Type → Type}

/-- The future `f` is a wait with a ticket of the condition variable `v`. -/
def World.Waits (w : World R) (f v ticket : Nat) : Prop :=
  ∃ u l, w.futures.get? f = some u ∧ u.source = .wait v ticket l

/-- The queues of the condition variables are of waits, each under the ticket that it has, and
no two waits at a variable have the same ticket. A wait that is not decided is in its queue. -/
structure World.Queued (w : World R) : Prop where
  future_lt : ∀ f u, w.futures.get? f = some u → f < w.next
  condvar_lt : ∀ v cv, w.condvars.get? v = some cv → v < w.next
  waits_lt : ∀ f v ticket, w.Waits f v ticket → v < w.next
  ticket_lt : ∀ f v ticket cv, w.Waits f v ticket → w.condvars.get? v = some cv → ticket < cv.nextTicket
  sole : ∀ f g v ticket, w.Waits f v ticket → w.Waits g v ticket → f = g
  waiting : ∀ f v ticket cv, w.condvars.get? v = some cv → (ticket, f) ∈ cv.waiting → w.Waits f v ticket
  undecided : ∀ f u v ticket l, w.futures.get? f = some u → u.source = .wait v ticket l → u.outcome = none →
    ∃ cv, w.condvars.get? v = some cv ∧ (ticket, f) ∈ cv.waiting

namespace World

theorem queued_empty : ({} : World R).Queued :=
  ⟨fun _ _ h => (nomatch h), fun _ _ h => (nomatch h), fun _ _ _ ⟨_, _, h, _⟩ => (nomatch h), fun _ _ _ _ _ h => (nomatch h),
    fun _ _ _ _ ⟨_, _, h, _⟩ => (nomatch h), fun _ _ _ _ h => (nomatch h), fun _ _ _ _ _ h => (nomatch h)⟩

variable {w w' : World R}

/-- Waits may be decided and dropped, if they leave their queues at the same time. -/
theorem Queued.mono (h : w.Queued) (hn : w.next ≤ w'.next)
    (hlt : ∀ f u, w'.futures.get? f = some u → f < w'.next)
    (hf : ∀ f u' v t l, w'.futures.get? f = some u' → u'.source = .wait v t l →
      ∃ u, w.futures.get? f = some u ∧ u.source = .wait v t l ∧ (u'.outcome = none → u.outcome = none))
    (hc : ∀ v cv', w'.condvars.get? v = some cv' → ∃ cv, w.condvars.get? v = some cv ∧
      cv.nextTicket = cv'.nextTicket ∧ ∀ t f, (t, f) ∈ cv'.waiting → (t, f) ∈ cv.waiting ∧ w'.Waits f v t)
    (hk : ∀ f u' v t l cv, w'.futures.get? f = some u' → u'.source = .wait v t l → u'.outcome = none →
      w.condvars.get? v = some cv → (t, f) ∈ cv.waiting → ∃ cv', w'.condvars.get? v = some cv' ∧ (t, f) ∈ cv'.waiting) :
    w'.Queued := by
  have hw : ∀ f v t, w'.Waits f v t → w.Waits f v t := by
    rintro f v t ⟨u', l, hu', hs'⟩
    obtain ⟨u, hu, hs, -⟩ := hf f u' v t l hu' hs'
    exact ⟨u, l, hu, hs⟩
  refine ⟨hlt, ?_, fun f v t hwt => Nat.lt_of_lt_of_le (h.waits_lt f v t (hw f v t hwt)) hn, ?_, ?_, ?_, ?_⟩
  · intro v cv' hcv'
    obtain ⟨cv, hcv, -⟩ := hc v cv' hcv'
    exact Nat.lt_of_lt_of_le (h.condvar_lt v cv hcv) hn
  · intro f v t cv' hwt hcv'
    obtain ⟨cv, hcv, hnext, -⟩ := hc v cv' hcv'
    exact hnext ▸ h.ticket_lt f v t cv (hw f v t hwt) hcv
  · exact fun f g v t hf hg => h.sole f g v t (hw f v t hf) (hw g v t hg)
  · intro f v t cv' hcv' hmem
    obtain ⟨cv, -, -, hcv⟩ := hc v cv' hcv'
    exact (hcv t f hmem).2
  · intro f u' v t l hu' hs' ho'
    obtain ⟨u, hu, hs, ho⟩ := hf f u' v t l hu' hs'
    obtain ⟨cv, hcv, hmem⟩ := h.undecided f u v t l hu hs (ho ho')
    exact hk f u' v t l cv hu' hs' ho' hcv hmem

/-- Only futures, condition variables and the number of the next object matter. -/
theorem Queued.congr (h : w.Queued) (hf : w'.futures = w.futures) (hc : w'.condvars = w.condvars)
    (hn : w.next ≤ w'.next) : w'.Queued := by
  refine h.mono hn (fun f u hu => Nat.lt_of_lt_of_le (h.future_lt f u (hf ▸ hu)) hn)
    (fun f u v t l hu hs => ⟨u, hf ▸ hu, hs, id⟩) (fun v cv hcv => ⟨cv, hc ▸ hcv, rfl, fun t f hmem => ⟨hmem, ?_⟩⟩)
    fun f u v t l cv _ _ _ hcv hmem => ⟨cv, hc ▸ hcv, hmem⟩
  obtain ⟨u, l, hu, hs⟩ := h.waiting f v t cv (hc ▸ hcv) hmem
  exact ⟨u, l, hf ▸ hu, hs⟩

/-! ## Tickets and their owners -/

theorem Waits.unique {f v ticket v' ticket' : Nat} (h : w.Waits f v ticket) (h' : w.Waits f v' ticket') :
    v = v' ∧ ticket = ticket' := by
  obtain ⟨u, l, hu, hs⟩ := h
  obtain ⟨u', l', hu', hs'⟩ := h'
  obtain rfl := Option.some.inj (hu.symm.trans hu')
  rw [hs] at hs'
  cases hs'
  exact ⟨rfl, rfl⟩

/-- Whoever has a ticket of a condition variable is the wait that got it. -/
theorem Queued.owner_waits (h : w.Queued) {v ticket f : Nat} (ho : (w.condvars.get? v).bind (·.owner? ticket) = some f) :
    w.Waits f v ticket := by
  obtain ⟨cv, hcv, howner⟩ := Option.bind_eq_some_iff.1 ho
  exact h.waiting f v ticket cv hcv (Condvar.mem_of_owner? howner)

/-- Those who wait for a condition variable have a ticket of it. -/
theorem Queued.eq_of_mem_waiters (hq : w.Queued) {f v v' ticket : Nat} (hw : w.Waits f v ticket) (hf : f ∈ w.waiters v') :
    v' = v := by
  obtain ⟨cv, t, hcv, hmem⟩ := w.mem_waiters.1 hf
  exact ((hq.waiting f v' t cv hcv hmem).unique hw).1

/-- Nobody else has the ticket of one who is queued. -/
theorem Queued.owner?_of_mem (h : w.Queued) {v ticket f : Nat} {cv : Condvar Nat} (hcv : w.condvars.get? v = some cv)
    (hmem : (ticket, f) ∈ cv.waiting) : (w.condvars.get? v).bind (·.owner? ticket) = some f := by
  rw [hcv, Option.bind_some]
  cases ho : cv.owner? ticket with
  | none => exact absurd hmem (Condvar.notMem_of_owner? ho f)
  | some g =>
    rw [h.sole g f v ticket (h.waiting g v ticket cv hcv (Condvar.mem_of_owner? ho)) (h.waiting f v ticket cv hcv hmem)]

/-! ## Outcomes -/

/-- Those who are decided may leave their queues, and only they. -/
theorem Queued.decided (h : w.Queued) {o : Outcome} {p : Nat → Prop} [DecidablePred p] (hd : Decides p o w w')
    (hk : ∀ v cv t f, w.condvars.get? v = some cv → (t, f) ∈ cv.waiting → ¬ p f →
      ∃ cv', w'.condvars.get? v = some cv' ∧ (t, f) ∈ cv'.waiting) : w'.Queued := by
  refine h.mono (Nat.le_of_eq hd.next.symm) ?_ ?_ ?_ ?_
  · intro g u' hu'
    obtain ⟨u, hu, -⟩ := hd.of_get? hu'
    exact hd.next ▸ h.future_lt g u hu
  · intro g u' v t l hu' hs'
    obtain ⟨u, hu, hs, -, ho⟩ := hd.of_get? hu'
    exact ⟨u, hu, hs ▸ hs', fun hnone => (ho hnone).1⟩
  · intro v cv' hcv'
    obtain ⟨cv, hcv, hnext, hsub⟩ := hd.condvar v cv' hcv'
    refine ⟨cv, hcv, hnext, fun t f hmem => ⟨hsub _ hmem, ?_⟩⟩
    obtain ⟨u, l, hu, hs⟩ := h.waiting f v t cv hcv (hsub _ hmem)
    obtain ⟨u', hu', hs', -⟩ := hd.get? hu
    exact ⟨u', l, hu', hs'.trans hs⟩
  · intro f u' v t l cv hu' hs' ho' hcv hmem
    obtain ⟨u, -, -, -, ho⟩ := hd.of_get? hu'
    exact hk v cv t f hcv hmem (ho ho').2

theorem Queued.deliver (h : w.Queued) (f : Nat) (o : Outcome) : (w.deliver f o).Queued := by
  refine h.decided (w.decides_deliver f o) fun v cv t f' hcv hmem _ => ⟨cv, ?_, hmem⟩
  obtain ⟨futures, log, heq⟩ := w.deliver_eq f o
  rw [heq]
  exact hcv

theorem Queued.abortWait (h : w.Queued) (v ticket : Nat) : (w.abortWait v ticket).Queued := by
  refine h.decided (w.decides_abortWait v ticket) fun v' cv t f hcv hmem hp => ?_
  rw [condvar_abortWait]
  split
  · rename_i hv
    subst hv
    refine ⟨_, by rw [hcv, Option.map_some], Condvar.mem_withdraw.2 ⟨hmem, fun ht => hp ?_⟩⟩
    -- The ticket is that of `f` alone, so `f` is who was decided.
    subst ht
    exact h.owner?_of_mem hcv hmem
  · exact ⟨cv, hcv, hmem⟩

theorem Queued.releaseAll (h : w.Queued) (v : Nat) (o : Outcome) : (w.releaseAll v o).Queued := by
  refine h.decided (w.decides_releaseAll v o) fun v' cv t f hcv hmem hp => ?_
  rw [condvar_releaseAll]
  split
  · rename_i hv
    exact absurd (w.mem_waiters.2 ⟨cv, t, hv ▸ hcv, hmem⟩) hp
  · exact ⟨cv, hcv, hmem⟩

theorem Queued.dropCondvar (h : w.Queued) (v : Nat) : (w.dropCondvar v).Queued := by
  refine h.decided (w.decides_dropCondvar v) fun v' cv t f hcv hmem hp => ?_
  rw [condvar_dropCondvar]
  split
  · rename_i hv
    exact absurd (w.mem_waiters.2 ⟨cv, t, hv ▸ hcv, hmem⟩) hp
  · exact ⟨cv, hcv, hmem⟩

/-- The abortion of a wait decides it, unless it was decided before. -/
theorem Queued.abortWait_decides (h : w.Queued) {f v ticket : Nat} (hw : w.Waits f v ticket) {u' : Future}
    (hu' : (w.abortWait v ticket).futures.get? f = some u') : u'.outcome.isSome := by
  obtain ⟨u₀, l, hu₀, hs⟩ := hw
  obtain ⟨u, hu, -, -, ho⟩ := (w.decides_abortWait v ticket).of_get? hu'
  obtain rfl : u = u₀ := Option.some.inj (hu.symm.trans hu₀)
  cases hout : u'.outcome with
  | some o => rfl
  | none =>
    obtain ⟨hnone, hp⟩ := ho hout
    obtain ⟨cv, hcv, hmem⟩ := h.undecided f u v ticket l hu hs hnone
    exact absurd (h.owner?_of_mem hcv hmem) hp

/-! ## Futures that come and go -/

/-- Condition variables stay as they are, and so does who is queued at them. -/
theorem Queued.futures (h : w.Queued) (hc : w'.condvars = w.condvars) (hn : w.next ≤ w'.next)
    (hlt : ∀ f u, w'.futures.get? f = some u → f < w'.next)
    (hf : ∀ f u' v t l, w'.futures.get? f = some u' → u'.source = .wait v t l →
      ∃ u, w.futures.get? f = some u ∧ u.source = .wait v t l ∧ (u'.outcome = none → u.outcome = none))
    (hk : ∀ f v t cv, w.condvars.get? v = some cv → (t, f) ∈ cv.waiting → w'.Waits f v t) : w'.Queued :=
  h.mono hn hlt hf (fun v cv hcv => ⟨cv, hc ▸ hcv, rfl, fun t f hmem => ⟨hmem, hk f v t cv (hc ▸ hcv) hmem⟩⟩)
    fun _ _ _ _ _ cv _ _ _ hcv hmem => ⟨cv, hc ▸ hcv, hmem⟩

/-- A future is changed in what does not matter to waits. -/
theorem Queued.insertFuture (h : w.Queued) {f : Nat} {u u' : Future} (hu : w.futures.get? f = some u)
    (hc : w'.condvars = w.condvars) (hf : w'.futures = w.futures.insert f u') (hn : w'.next = w.next)
    (hs : ∀ v t l, u'.source = .wait v t l ↔ u.source = .wait v t l) (ho : u'.outcome = u.outcome) :
    w'.Queued := by
  have hget : ∀ g, w'.futures.get? g = if f = g then some u' else w.futures.get? g := fun g => by
    rw [hf, Table.get?_insert]
  refine h.futures hc (Nat.le_of_eq hn.symm) ?_ ?_ ?_
  · intro g u₁ hg
    rw [hget] at hg
    split at hg
    · rename_i hfg
      exact hn ▸ hfg ▸ h.future_lt f u hu
    · exact hn ▸ h.future_lt g u₁ hg
  · intro g u₁ v t l hg hsrc
    rw [hget] at hg
    split at hg
    · rename_i hfg
      cases hg
      exact ⟨u, hfg ▸ hu, (hs v t l).1 hsrc, fun hnone => ho ▸ hnone⟩
    · exact ⟨u₁, hg, hsrc, id⟩
  · intro g v t cv hcv hmem
    obtain ⟨u₁, l, hu₁, hs₁⟩ := h.waiting g v t cv hcv hmem
    by_cases hfg : f = g
    · obtain rfl : u = u₁ := Option.some.inj (hu.symm.trans (hfg ▸ hu₁))
      exact ⟨u', l, by rw [hget, if_pos hfg], (hs v t l).2 hs₁⟩
    · exact ⟨u₁, l, by rw [hget, if_neg hfg, hu₁], hs₁⟩

/-- A future that is not queued goes. -/
theorem Queued.eraseFuture (h : w.Queued) {f : Nat}
    (hf : ∀ v t cv, w.condvars.get? v = some cv → (t, f) ∉ cv.waiting) (hc : w'.condvars = w.condvars)
    (hfut : w'.futures = w.futures.erase f) (hn : w'.next = w.next) : w'.Queued := by
  have hget : ∀ g, w'.futures.get? g = if f = g then none else w.futures.get? g := fun g => by
    rw [hfut, Table.get?_erase]
  have hold : ∀ g u, w'.futures.get? g = some u → w.futures.get? g = some u := by
    intro g u hg
    rw [hget] at hg
    split at hg
    · cases hg
    · exact hg
  refine h.futures hc (Nat.le_of_eq hn.symm) (fun g u hg => hn ▸ h.future_lt g u (hold g u hg))
    (fun g u v t l hg hs => ⟨u, hold g u hg, hs, id⟩) fun g v t cv hcv hmem => ?_
  obtain ⟨u, l, hu, hs⟩ := h.waiting g v t cv hcv hmem
  have hfg : f ≠ g := fun hfg => hf v t cv hcv (hfg ▸ hmem)
  exact ⟨u, l, by rw [hget, if_neg hfg, hu], hs⟩

theorem Queued.notMem_of_firing (h : w.Queued) {f n : Nat} {u : Future} {l : Option Link}
    (hu : w.futures.get? f = some u) (hs : u.source = .firing n l) (v t : Nat) (cv : Condvar Nat)
    (hcv : w.condvars.get? v = some cv) : (t, f) ∉ cv.waiting := by
  intro hmem
  obtain ⟨u', l', hu', hs'⟩ := h.waiting f v t cv hcv hmem
  obtain rfl : u = u' := Option.some.inj (hu.symm.trans hu')
  rw [hs] at hs'
  cases hs'

/-- A future that was withdrawn is queued nowhere. -/
theorem Queued.notMem_abortWait (h : w.Queued) {f v ticket : Nat} (hw : w.Waits f v ticket) (v' t : Nat)
    (cv : Condvar Nat) (hcv : (w.abortWait v ticket).condvars.get? v' = some cv) : (t, f) ∉ cv.waiting := by
  intro hmem
  obtain ⟨u₀, l₀, hu₀, hs₀⟩ := hw
  obtain ⟨u, l, hu, hs⟩ := (h.abortWait v ticket).waiting f v' t cv hcv hmem
  obtain ⟨u', hu', hs', -⟩ := (w.decides_abortWait v ticket).get? hu₀
  obtain rfl : u = u' := Option.some.inj (hu.symm.trans hu')
  obtain ⟨rfl, rfl, rfl⟩ : v' = v ∧ t = ticket ∧ l = l₀ := by simpa [hs, hs₀] using hs'
  rw [condvar_abortWait, if_pos rfl] at hcv
  obtain ⟨cv₀, -, rfl⟩ := Option.map_eq_some_iff.1 hcv
  exact (Condvar.mem_withdraw.1 hmem).2 rfl

/-- A new future that is not a wait. -/
theorem Queued.addFiring (h : w.Queued) {n : Nat} {l : Option Link} (hc : w'.condvars = w.condvars)
    (hf : w'.futures = w.futures.insert w.next { source := .firing n l }) (hn : w'.next = w.next + 1) :
    w'.Queued := by
  have hget : ∀ g, w'.futures.get? g = if w.next = g then some { source := .firing n l } else w.futures.get? g :=
    fun g => by rw [hf, Table.get?_insert]
  refine h.futures hc (hn ▸ Nat.le_succ _) ?_ ?_ ?_
  · intro g u hg
    rw [hget] at hg
    split at hg
    · omega
    · exact hn ▸ Nat.lt_succ_of_lt (h.future_lt g u hg)
  · intro g u v t l hg hs
    rw [hget] at hg
    split at hg
    · cases hg
      cases hs
    · exact ⟨u, hg, hs, id⟩
  · intro g v t cv hcv hmem
    obtain ⟨u, l, hu, hs⟩ := h.waiting g v t cv hcv hmem
    refine ⟨u, l, ?_, hs⟩
    rw [hget, if_neg (Nat.ne_of_gt (h.future_lt g u hu)), hu]

/-- A new wait has a ticket of its own. -/
theorem Queued.addWait (h : w.Queued) {v : Nat} {cv : Condvar Nat} (hv : w.condvars.get? v = some cv)
    {l : Option Link} (hc : w'.condvars = w.condvars.insert v (cv.register w.next).1)
    (hf : w'.futures = w.futures.insert w.next { source := .wait v cv.nextTicket l })
    (hn : w'.next = w.next + 1) : w'.Queued := by
  have hget : ∀ g, w'.futures.get? g =
      if w.next = g then some { source := .wait v cv.nextTicket l } else w.futures.get? g := fun g => by
    rw [hf, Table.get?_insert]
  have hcond : ∀ v', w'.condvars.get? v' = if v = v' then some (cv.register w.next).1 else w.condvars.get? v' :=
    fun v' => by rw [hc, Table.get?_insert]
  have hnew : ∀ g v' t, w'.Waits g v' t ↔ (g = w.next ∧ v' = v ∧ t = cv.nextTicket) ∨ w.Waits g v' t := by
    intro g v' t
    unfold Waits
    rw [hget]
    constructor
    · rintro ⟨u, l', hu, hs⟩
      split at hu
      · cases hu
        cases hs
        exact .inl ⟨by omega, rfl, rfl⟩
      · exact .inr ⟨u, l', hu, hs⟩
    · rintro (⟨rfl, rfl, rfl⟩ | ⟨u, l', hu, hs⟩)
      · exact ⟨_, l, if_pos rfl, rfl⟩
      · exact ⟨u, l', by rw [if_neg (Nat.ne_of_gt (h.future_lt g u hu)), hu], hs⟩
  have hfresh : ∀ g, ¬ w.Waits g v cv.nextTicket := fun g hg => Nat.lt_irrefl _ (h.ticket_lt g v _ cv hg hv)
  constructor
  case future_lt =>
    intro g u hg
    rw [hget] at hg
    split at hg
    · omega
    · exact hn ▸ Nat.lt_succ_of_lt (h.future_lt g u hg)
  case condvar_lt =>
    intro v' cv' hcv'
    rw [hcond] at hcv'
    split at hcv'
    · rename_i hvv
      exact hn ▸ hvv ▸ Nat.lt_succ_of_lt (h.condvar_lt v cv hv)
    · exact hn ▸ Nat.lt_succ_of_lt (h.condvar_lt v' cv' hcv')
  case waits_lt =>
    intro g v' t hwt
    rcases (hnew g v' t).1 hwt with ⟨-, rfl, -⟩ | hwt
    · exact hn ▸ Nat.lt_succ_of_lt (h.condvar_lt v' cv hv)
    · exact hn ▸ Nat.lt_succ_of_lt (h.waits_lt g v' t hwt)
  case ticket_lt =>
    intro g v' t cv' hwt hcv'
    rw [hcond] at hcv'
    split at hcv'
    · rename_i hvv
      subst hvv
      cases hcv'
      rcases (hnew g v t).1 hwt with ⟨-, -, rfl⟩ | hwt
      · exact Nat.lt_succ_self _
      · exact Nat.lt_succ_of_lt (h.ticket_lt g v t cv hwt hv)
    · rename_i hvv
      exact h.ticket_lt g v' t cv' (((hnew g v' t).1 hwt).resolve_left fun he => hvv he.2.1.symm) hcv'
  case sole =>
    intro f g v' t hft hgt
    rcases (hnew f v' t).1 hft with ⟨hf, hv', ht⟩ | hf <;> rcases (hnew g v' t).1 hgt with ⟨hg, hv'', ht'⟩ | hg
    · exact hf.trans hg.symm
    · exact absurd (hv' ▸ ht ▸ hg) (hfresh g)
    · exact absurd (hv'' ▸ ht' ▸ hf) (hfresh f)
    · exact h.sole f g v' t hf hg
  case waiting =>
    intro g v' t cv' hcv' hmem
    rw [hcond] at hcv'
    refine (hnew g v' t).2 ?_
    split at hcv'
    · rename_i hvv
      subst hvv
      cases hcv'
      rcases List.mem_append.1 hmem with hmem | hmem
      · exact .inr (h.waiting g v t cv hv hmem)
      · obtain ⟨rfl, rfl⟩ := Prod.mk.inj (List.mem_singleton.1 hmem)
        exact .inl ⟨rfl, rfl, rfl⟩
    · exact .inr (h.waiting g v' t cv' hcv' hmem)
  case undecided =>
    intro g u v' t l' hg hs ho
    rw [hget] at hg
    rw [hcond]
    split at hg
    · rename_i hgn
      cases hg
      cases hs
      refine ⟨_, if_pos rfl, List.mem_append_right _ ?_⟩
      rw [hgn]
      exact List.mem_singleton_self _
    · obtain ⟨cv', hcv', hmem⟩ := h.undecided g u v' t l' hg hs ho
      split
      · rename_i hvv
        subst hvv
        obtain rfl : cv = cv' := Option.some.inj (hv.symm.trans hcv')
        exact ⟨_, rfl, List.mem_append_left _ hmem⟩
      · exact ⟨cv', hcv', hmem⟩

/-- Nobody waits for a new condition variable yet. -/
theorem Queued.addCondvar (h : w.Queued) (hc : w'.condvars = w.condvars.insert w.next {})
    (hf : w'.futures = w.futures) (hn : w'.next = w.next + 1) : w'.Queued := by
  have hcond : ∀ v, w'.condvars.get? v = if w.next = v then some {} else w.condvars.get? v := fun v => by
    rw [hc, Table.get?_insert]
  have hw : ∀ f v t, w'.Waits f v t ↔ w.Waits f v t := fun f v t => by rw [Waits, Waits, hf]
  refine ⟨fun f u hu => hn ▸ Nat.lt_succ_of_lt (h.future_lt f u (hf ▸ hu)), ?_,
    fun f v t hwt => hn ▸ Nat.lt_succ_of_lt (h.waits_lt f v t ((hw f v t).1 hwt)), ?_,
    fun f g v t hft hgt => h.sole f g v t ((hw f v t).1 hft) ((hw g v t).1 hgt), ?_, ?_⟩
  · intro v cv hcv
    rw [hcond] at hcv
    split at hcv
    · omega
    · exact hn ▸ Nat.lt_succ_of_lt (h.condvar_lt v cv hcv)
  · intro f v t cv hwt hcv
    have hold := (hw f v t).1 hwt
    rw [hcond, if_neg (Nat.ne_of_gt (h.waits_lt f v t hold))] at hcv
    exact h.ticket_lt f v t cv hold hcv
  · intro f v t cv hcv hmem
    rw [hcond] at hcv
    split at hcv
    · cases hcv
      cases hmem
    · exact (hw f v t).2 (h.waiting f v t cv hcv hmem)
  · intro f u v t l hu hs ho
    obtain ⟨cv, hcv, hmem⟩ := h.undecided f u v t l (hf ▸ hu) hs ho
    exact ⟨cv, by rw [hcond, if_neg (Nat.ne_of_gt (h.condvar_lt v cv hcv)), hcv], hmem⟩

end World

/-! ## Moves -/

variable [Registry R]

theorem Move.queued {a b : Standing R} {ds : List Deed} (hm : Move a ds b) (h : a.world.Queued) : b.world.Queued := by
  cases hm with
  | note | rename | nameToken | unnameToken | hold | call => exact h.congr rfl rfl (Nat.le_refl _)
  | makeToken | makeChild | connect => exact h.congr rfl rfl (Nat.le_succ _)
  | @release w _ _ n =>
    obtain ⟨tokens, heq⟩ := w.release_eq n
    show (w.release n).Queued
    rw [heq]
    exact h.congr rfl rfl (Nat.le_refl _)
  | @fire w _ _ n | @fireChild w _ _ n =>
    obtain ⟨tokens, heq⟩ := w.takeAll_eq n
    show (w.takeAll n).1.Queued
    rw [heq]
    exact h.congr rfl rfl (Nat.le_refl _)
  | @dropConnection w _ _ c =>
    obtain ⟨tokens, connections, heq⟩ := w.dropConnection_eq c
    show (w.dropConnection c).Queued
    rw [heq]
    exact h.congr rfl rfl (Nat.le_refl _)
  | abort v ticket => exact h.abortWait v ticket
  | complete f => exact h.deliver f .ok
  | makeCondvar => exact h.addCondvar rfl rfl rfl
  | dropCondvar v => exact h.dropCondvar v
  | notify v => exact h.releaseAll v .ok
  | wait hv => exact h.addWait hv rfl rfl rfl
  | @waitFor w _ _ v cv n t hv hn =>
    have hadd : (w.addWaitTo v cv n t).Queued := h.addWait hv rfl rfl rfl
    show (w.addWaitFor v cv n t).Queued
    unfold World.addWaitFor
    dsimp only
    split
    · exact hadd.abortWait v cv.nextTicket
    · exact hadd
  | endWait hf hs ho => exact h.insertFuture hf rfl rfl rfl (fun _ _ _ => Iff.rfl) rfl
  | @dropWait w _ _ f u v ticket l hf hs =>
    show (w.dropFuture f).Queued
    rw [World.dropFuture, hf]
    simp only [hs]
    refine World.Queued.eraseFuture (h.abortWait v ticket) (h.notMem_abortWait ⟨u, l, hf, hs⟩) ?_ ?_ ?_ <;>
      cases l <;> rfl
  | cancelled n => exact h.addFiring rfl rfl rfl
  | watch hf name => exact h.insertFuture hf rfl rfl rfl (fun _ _ _ => Iff.rfl) rfl
  | watchFiring hf hs => exact h.insertFuture hf rfl rfl rfl (fun _ _ _ => by simp [hs]) rfl
  | findFired hf hs => exact h.insertFuture hf rfl rfl rfl (fun _ _ _ => Iff.rfl) rfl
  | endFiring hf hs => exact h.insertFuture hf rfl rfl rfl (fun _ _ _ => Iff.rfl) rfl
  | dropEnded hf hs => exact h.eraseFuture (h.notMem_of_firing hf hs) rfl rfl rfl
  | @dropFiring w _ _ f u n l hf hs =>
    refine h.eraseFuture (h.notMem_of_firing hf hs) ?_ ?_ ?_ <;> cases l <;> rfl

theorem Moves.queued {a b : Standing R} {ds : List Deed} (hm : Moves a ds b) (h : a.world.Queued) : b.world.Queued := by
  induction hm with
  | refl => exact h
  | move _ hm ih => exact hm.queued ih

/-! ## Futures go on -/

/-- A later form of a future: decided, or ended, or connected to its token, which has not fired then. -/
def World.GoesOn (w : World R) (u u' : Future) : Prop :=
  (u.outcome.isSome = true → u'.outcome.isSome = true) ∧ (u.completed = true → u'.completed = true) ∧
  (u'.source = u.source ∨ ∃ n l t, u.source = .firing n none ∧ u'.source = .firing n (some l) ∧ l.token = n ∧
    w.tokens.get? n = some t ∧ t.isFired = false)

/-- Not connected to a token for whose firing it is, and waiting with a new ticket if it is a wait. -/
def World.New (w : World R) (u : Future) : Prop :=
  (∀ n l, u.source ≠ .firing n (some l)) ∧
  ∀ v ticket l, u.source = .wait v ticket l → ∃ cv, w.condvars.get? v = some cv ∧ ticket = cv.nextTicket

theorem World.new_wait {R : Type → Type} {w : World R} {v : Nat} {cv : Condvar Nat} (hv : w.condvars.get? v = some cv) (l : Option Link) :
    w.New { source := .wait v cv.nextTicket l } := by
  refine ⟨fun _ _ => nofun, fun v' ticket l' hs => ?_⟩
  cases hs
  exact ⟨cv, hv, rfl⟩

theorem World.new_cancelled {R : Type → Type} {w : World R} (n : Nat) : w.New { source := .firing n none } := by
  constructor
  · intro m l hs
    cases hs
  · intro v ticket l hs
    cases hs

theorem World.GoesOn.refl {R : Type → Type} {w : World R} (u : Future) : w.GoesOn u u := ⟨id, id, .inl rfl⟩

section GoesOn

variable {R : Type → Type} {w : World R} {f g : Nat} {u u₁ u' : Future} {futures : Table Nat Future}

theorem World.Decides.goesOn {w w' : World R} {p : Nat → Prop} [DecidablePred p] {o : Outcome}
    (hd : Decides p o w w') (hu' : w'.futures.get? f = some u') :
    ∃ u, w.futures.get? f = some u ∧ (u.outcome.isSome = true → u'.outcome.isSome = true) ∧
      (u.completed = true → u'.completed = true) ∧ u'.source = u.source := by
  obtain ⟨u, hu, hs, hc, ho⟩ := hd.of_get? hu'
  refine ⟨u, hu, fun hsome => ?_, fun h => hc.trans h, hs⟩
  cases h' : u'.outcome with
  | some o => rfl
  | none =>
    rw [(ho h').1] at hsome
    exact hsome

theorem Future.goesOn_insert (hf : futures.get? f = some u) (hu' : (futures.insert f u₁).get? g = some u')
    (hu : w.GoesOn u u₁) : ∃ u, futures.get? g = some u ∧ w.GoesOn u u' := by
  rw [Table.get?_insert] at hu'
  split at hu'
  · rename_i hfg
    cases hu'
    exact ⟨u, hfg ▸ hf, hu⟩
  · exact ⟨u', hu', .refl u'⟩

theorem Future.goesOn_erase (hu' : (futures.erase f).get? g = some u') :
    ∃ u, futures.get? g = some u ∧ w.GoesOn u u' := by
  rw [Table.get?_erase] at hu'
  split at hu'
  · cases hu'
  · exact ⟨u', hu', .refl u'⟩

theorem Future.new_or_goesOn {p : Future → Prop} (hu' : (futures.insert g u₁).get? f = some u') (h₁ : p u₁) :
    (f = g ∧ p u') ∨ ∃ u, futures.get? f = some u ∧ w.GoesOn u u' := by
  rw [Table.get?_insert] at hu'
  split at hu'
  · rename_i hf
    cases hu'
    exact .inl ⟨hf.symm, h₁⟩
  · exact .inr ⟨u', hu', .refl u'⟩

/-- Futures go on or are new. -/
theorem Move.future [Registry R] {a b : Standing R} {ds : List Deed} (hm : Move a ds b) (hu' : b.world.futures.get? f = some u') :
    (f = a.world.next ∧ a.world.New u') ∨ ∃ u, a.world.futures.get? f = some u ∧ a.world.GoesOn u u' := by
  cases hm with
  | note | rename | nameToken | unnameToken | hold | makeToken | makeChild | call | connect | makeCondvar =>
    exact .inr ⟨u', hu', .refl u'⟩
  | @release w _ _ n =>
    obtain ⟨tokens, heq⟩ := w.release_eq n
    rw [heq] at hu'
    exact .inr ⟨u', hu', .refl u'⟩
  | @fire w _ _ n | @fireChild w _ _ n =>
    obtain ⟨tokens, heq⟩ := w.takeAll_eq n
    rw [heq] at hu'
    exact .inr ⟨u', hu', .refl u'⟩
  | @dropConnection w _ _ c =>
    obtain ⟨tokens, connections, heq⟩ := w.dropConnection_eq c
    rw [heq] at hu'
    exact .inr ⟨u', hu', .refl u'⟩
  | @abort w _ _ v ticket =>
    obtain ⟨u, hu, ho, hc, hs⟩ := (w.decides_abortWait v ticket).goesOn hu'
    exact .inr ⟨u, hu, ho, hc, .inl hs⟩
  | @complete w _ _ f =>
    obtain ⟨u, hu, ho, hc, hs⟩ := (w.decides_deliver f .ok).goesOn hu'
    exact .inr ⟨u, hu, ho, hc, .inl hs⟩
  | @dropCondvar w _ _ v =>
    obtain ⟨u, hu, ho, hc, hs⟩ := (w.decides_dropCondvar v).goesOn hu'
    exact .inr ⟨u, hu, ho, hc, .inl hs⟩
  | @notify w _ _ v =>
    obtain ⟨u, hu, ho, hc, hs⟩ := (w.decides_releaseAll v .ok).goesOn hu'
    exact .inr ⟨u, hu, ho, hc, .inl hs⟩
  | wait hv => exact Future.new_or_goesOn hu' (World.new_wait hv none)
  | @waitFor w _ _ v cv n t hv hn =>
    have hadd : ∀ {u'}, (w.addWaitTo v cv n t).futures.get? f = some u' →
        (f = w.next ∧ w.New u') ∨ ∃ u, w.futures.get? f = some u ∧ w.GoesOn u u' :=
      fun hu' => Future.new_or_goesOn hu' (World.new_wait hv _)
    replace hu' : (World.addWaitFor w v cv n t).futures.get? f = some u' := hu'
    unfold World.addWaitFor at hu'
    dsimp only at hu'
    split at hu'
    · obtain ⟨u₁, hu₁, hout, hc, hs⟩ := ((w.addWaitTo v cv n t).decides_abortWait v cv.nextTicket).goesOn hu'
      rcases hadd hu₁ with ⟨hf, hne⟩ | ⟨u, hu, hout', hc', hs'⟩
      · exact .inl ⟨hf, by rw [World.New, hs]; exact hne⟩
      · exact .inr ⟨u, hu, fun ho => hout (hout' ho), fun h => hc (hc' h), hs ▸ hs'⟩
    · exact hadd hu'
  | endWait hf => exact .inr (Future.goesOn_insert hf hu' ⟨id, fun _ => rfl, .inl rfl⟩)
  | @dropWait w _ _ f u v ticket l hf hs =>
    replace hu' : (w.dropFuture f).futures.get? _ = some u' := hu'
    rw [World.dropFuture, hf] at hu'
    simp only [hs] at hu'
    obtain ⟨u₁, hu₁, hgo⟩ : ∃ u, (w.abortWait v ticket).futures.get? _ = some u ∧ w.GoesOn u u' := by
      cases l <;> exact Future.goesOn_erase hu'
    obtain ⟨u, hu, hout, hc, hs'⟩ := (w.decides_abortWait v ticket).goesOn hu₁
    exact .inr ⟨u, hu, fun ho => hgo.1 (hout ho), fun h => hgo.2.1 (hc h), hs' ▸ hgo.2.2⟩
  | cancelled n => exact Future.new_or_goesOn hu' (World.new_cancelled _)
  | watch hf name => exact .inr (Future.goesOn_insert hf hu' ⟨id, id, .inl rfl⟩)
  | watchFiring hf hs _ hn ht => exact .inr (Future.goesOn_insert hf hu' ⟨id, id, .inr ⟨_, _, _, hs, rfl, rfl, hn, ht⟩⟩)
  | findFired hf hs => exact .inr (Future.goesOn_insert hf hu' ⟨id, fun _ => rfl, .inl rfl⟩)
  | endFiring hf hs => exact .inr (Future.goesOn_insert hf hu' ⟨id, fun _ => rfl, .inl rfl⟩)
  | dropEnded hf hs => exact .inr (Future.goesOn_erase hu')
  | @dropFiring w _ _ f u n l hf hs =>
    cases l <;> exact .inr (Future.goesOn_erase hu')

end GoesOn

end Gateway.Signal
