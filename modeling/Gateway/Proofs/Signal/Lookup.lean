import Gateway.Signal.Run
import Gateway.Proofs.Table
/-!
# What can be looked up afterwards

For each function on worlds that looks something up itself, what it changes in the
tables. All that is proved of runs uses these statements and not the functions.
-/
namespace Gateway.Signal

/-- A future with an outcome, its first one if it had any. -/
def Future.decide (u : Future) (o : Outcome) : Future :=
  if u.outcome.isSome then u else { u with outcome := some o, watcher := none }

namespace Future

variable (u : Future) (o : Outcome)

@[simp] theorem decide_source : (u.decide o).source = u.source := by
  unfold decide
  split <;> rfl

@[simp] theorem decide_completed : (u.decide o).completed = u.completed := by
  unfold decide
  split <;> rfl

@[simp] theorem isSome_decide_outcome : (u.decide o).outcome.isSome = true := by
  unfold decide
  split
  · assumption
  · rfl

@[simp] theorem decide_decide : (u.decide o).decide o = u.decide o := by
  rw [decide, if_pos (isSome_decide_outcome u o)]

end Future

namespace Condvar

variable {α : Type} {v : Condvar α} {ticket : Nat} {a : α}

theorem mem_of_owner? (h : v.owner? ticket = some a) : (ticket, a) ∈ v.waiting := by
  obtain ⟨e, he, rfl⟩ := Option.map_eq_some_iff.1 h
  have hticket := List.find?_some he
  rw [decide_eq_true_eq] at hticket
  exact hticket ▸ List.mem_of_find?_eq_some he

theorem notMem_of_owner? (h : v.owner? ticket = none) (a : α) : (ticket, a) ∉ v.waiting := by
  intro ha
  simpa using List.find?_eq_none.1 (Option.map_eq_none_iff.1 h) _ ha

theorem withdraw_eq_self (h : v.owner? ticket = none) : v.withdraw ticket = v := by
  have hall : v.waiting.filter (fun e => e.1 ≠ ticket) = v.waiting :=
    List.filter_eq_self.2 fun e he => decide_eq_true fun heq => notMem_of_owner? h e.2 (heq ▸ he)
  rw [withdraw, hall]

theorem mem_withdraw {t : Nat} : (t, a) ∈ (v.withdraw ticket).waiting ↔ (t, a) ∈ v.waiting ∧ t ≠ ticket := by
  simp [withdraw]

end Condvar

namespace World

variable {R : Type → Type} (w : World R)

/-! ## Outcomes -/

/-- Those who wait for a condition variable. -/
def waiters (v : Nat) : List Nat := ((w.condvars.get? v).map (·.release.1)).getD []

theorem mem_waiters {v f : Nat} :
    f ∈ w.waiters v ↔ ∃ cv ticket, w.condvars.get? v = some cv ∧ (ticket, f) ∈ cv.waiting := by
  unfold waiters
  cases w.condvars.get? v <;> simp [Condvar.release]

section Outcomes

variable (f g v ticket : Nat) (o : Outcome)

/-- Nothing but futures and the log is changed. -/
theorem deliver_eq : ∃ futures log, w.deliver f o = { w with futures := futures, log := log } := by
  unfold deliver
  cases w.futures.get? f with
  | none => exact ⟨_, _, rfl⟩
  | some u =>
    dsimp only
    split
    · exact ⟨_, _, rfl⟩
    · cases u.watcher <;> exact ⟨_, _, rfl⟩

theorem get?_deliver : (w.deliver f o).futures.get? g =
    if f = g then (w.futures.get? g).map (·.decide o) else w.futures.get? g := by
  unfold deliver
  cases hf : w.futures.get? f with
  | none => exact Table.get?_of_fixed (fun u hu => nomatch hf.symm.trans hu) g
  | some u =>
    dsimp only
    by_cases ho : u.outcome.isSome = true
    · rw [if_pos ho]
      refine Table.get?_of_fixed (fun u' hu => ?_) g
      obtain rfl : u = u' := Option.some.inj (hf.symm.trans hu)
      exact if_pos ho
    · rw [if_neg ho, ← Table.get?_insert_map hf (·.decide o) g, Future.decide, if_neg ho]
      cases u.watcher <;> rfl

theorem deliverAll_eq (owners : List Nat) : ∃ futures log,
    owners.foldl (fun w f => w.deliver f o) w = { w with futures := futures, log := log } := by
  induction owners generalizing w with
  | nil => exact ⟨_, _, rfl⟩
  | cons f owners ih =>
    obtain ⟨futures, log, hf⟩ := ih (w.deliver f o)
    obtain ⟨futures', log', hf'⟩ := w.deliver_eq f o
    rw [List.foldl_cons, hf, hf']
    exact ⟨_, _, rfl⟩

theorem get?_deliverAll (owners : List Nat) : (owners.foldl (fun w f => w.deliver f o) w).futures.get? g =
    if g ∈ owners then (w.futures.get? g).map (·.decide o) else w.futures.get? g := by
  induction owners generalizing w with
  | nil => rfl
  | cons f owners ih =>
    rw [List.foldl_cons, ih, get?_deliver]
    by_cases hf : f = g
    · subst hf
      rw [if_pos rfl, if_pos List.mem_cons_self]
      split
      · rw [Option.map_map]
        exact congrArg (Option.map · _) (funext fun u => u.decide_decide o)
      · rfl
    · simp only [if_neg hf, List.mem_cons, Ne.symm hf, false_or]

/-- Nothing but condition variables, futures and the log is changed. -/
theorem abortWait_eq : ∃ condvars futures log,
    w.abortWait v ticket = { w with condvars := condvars, futures := futures, log := log } := by
  unfold abortWait
  cases w.condvars.get? v with
  | none => exact ⟨_, _, _, rfl⟩
  | some cv =>
    dsimp only
    cases cv.owner? ticket with
    | none => exact ⟨_, _, _, rfl⟩
    | some f =>
      obtain ⟨futures, log, hf⟩ := deliver_eq { w with condvars := w.condvars.insert v (cv.withdraw ticket) } f .aborted
      exact ⟨_, _, _, hf⟩

theorem condvar_abortWait : (w.abortWait v ticket).condvars.get? g =
    if v = g then (w.condvars.get? g).map (·.withdraw ticket) else w.condvars.get? g := by
  unfold abortWait
  cases hv : w.condvars.get? v with
  | none => exact Table.get?_of_fixed (fun cv hcv => nomatch hv.symm.trans hcv) g
  | some cv =>
    dsimp only
    cases ho : cv.owner? ticket with
    | none =>
      refine Table.get?_of_fixed (fun cv' hcv => ?_) g
      obtain rfl : cv = cv' := Option.some.inj (hv.symm.trans hcv)
      exact Condvar.withdraw_eq_self ho
    | some f =>
      obtain ⟨futures, log, hf⟩ := deliver_eq { w with condvars := w.condvars.insert v (cv.withdraw ticket) } f .aborted
      dsimp only
      rw [hf, ← Table.get?_insert_map hv (·.withdraw ticket) g]

theorem future_abortWait : (w.abortWait v ticket).futures.get? g =
    if (w.condvars.get? v).bind (·.owner? ticket) = some g then (w.futures.get? g).map (·.decide .aborted)
    else w.futures.get? g := by
  unfold abortWait
  cases hv : w.condvars.get? v with
  | none => rfl
  | some cv =>
    rw [Option.bind_some]
    dsimp only
    cases ho : cv.owner? ticket with
    | none => rfl
    | some f =>
      simp only [get?_deliver, Option.some.injEq]

theorem releaseAll_eq : ∃ condvars futures log,
    w.releaseAll v o = { w with condvars := condvars, futures := futures, log := log } := by
  unfold releaseAll
  cases w.condvars.get? v with
  | none => exact ⟨_, _, _, rfl⟩
  | some cv =>
    obtain ⟨futures, log, hf⟩ := deliverAll_eq { w with condvars := w.condvars.insert v cv.release.2 } o cv.release.1
    exact ⟨_, _, _, hf⟩

theorem condvar_releaseAll : (w.releaseAll v o).condvars.get? g =
    if v = g then (w.condvars.get? g).map (·.release.2) else w.condvars.get? g := by
  unfold releaseAll
  cases hv : w.condvars.get? v with
  | none => exact Table.get?_of_fixed (fun cv hcv => nomatch hv.symm.trans hcv) g
  | some cv =>
    obtain ⟨futures, log, hf⟩ := deliverAll_eq { w with condvars := w.condvars.insert v cv.release.2 } o cv.release.1
    dsimp only
    rw [hf, ← Table.get?_insert_map hv (·.release.2) g]

theorem future_releaseAll : (w.releaseAll v o).futures.get? g =
    if g ∈ w.waiters v then (w.futures.get? g).map (·.decide o) else w.futures.get? g := by
  unfold releaseAll waiters
  cases hv : w.condvars.get? v with
  | none => exact (if_neg List.not_mem_nil).symm
  | some cv => exact get?_deliverAll _ g o cv.release.1

end Outcomes

/-- Only the log is changed. -/
theorem noteResult_eq (within : Option Name) (result : Result) :
    ∃ log, w.noteResult within result = { w with log := log } := by
  unfold noteResult
  cases within with
  | none => exact ⟨_, rfl⟩
  | some name =>
    dsimp only
    split
    · exact ⟨_, rfl⟩
    · exact ⟨_, rfl⟩

/-! ## Deciding futures -/

/-- The futures `p` are decided by `o`, and nothing else happens but that queues get shorter. -/
structure Decides (p : Nat → Prop) [DecidablePred p] (o : Outcome) (w w' : World R) : Prop where
  tokens : w'.tokens = w.tokens
  connections : w'.connections = w.connections
  tokenNames : w'.tokenNames = w.tokenNames
  next : w'.next = w.next
  future : ∀ g, w'.futures.get? g = if p g then (w.futures.get? g).map (·.decide o) else w.futures.get? g
  condvar : ∀ v cv', w'.condvars.get? v = some cv' → ∃ cv, w.condvars.get? v = some cv ∧
    cv.nextTicket = cv'.nextTicket ∧ ∀ e ∈ cv'.waiting, e ∈ cv.waiting

section Decides

theorem decides_deliver (f : Nat) (o : Outcome) : Decides (f = ·) o w (w.deliver f o) := by
  obtain ⟨futures, log, heq⟩ := w.deliver_eq f o
  have hget := fun g => w.get?_deliver f g o
  rw [heq] at hget ⊢
  exact ⟨rfl, rfl, rfl, rfl, hget, fun v cv hcv => ⟨cv, hcv, rfl, fun _ he => he⟩⟩

theorem decides_abortWait (v ticket : Nat) :
    Decides (fun g => (w.condvars.get? v).bind (·.owner? ticket) = some g) .aborted w (w.abortWait v ticket) := by
  obtain ⟨condvars, futures, log, heq⟩ := w.abortWait_eq v ticket
  have hget := fun g => w.future_abortWait g v ticket
  have hcond := fun g => w.condvar_abortWait g v ticket
  rw [heq] at hget hcond ⊢
  refine ⟨rfl, rfl, rfl, rfl, hget, fun v' cv' hcv' => ?_⟩
  rw [hcond] at hcv'
  split at hcv'
  · obtain ⟨cv, hcv, rfl⟩ := Option.map_eq_some_iff.1 hcv'
    exact ⟨cv, hcv, rfl, fun e he => List.mem_of_mem_filter he⟩
  · exact ⟨cv', hcv', rfl, fun _ he => he⟩

theorem decides_releaseAll (v : Nat) (o : Outcome) : Decides (· ∈ w.waiters v) o w (w.releaseAll v o) := by
  obtain ⟨condvars, futures, log, heq⟩ := w.releaseAll_eq v o
  have hget := fun g => w.future_releaseAll g v o
  have hcond := fun g => w.condvar_releaseAll g v o
  rw [heq] at hget hcond ⊢
  refine ⟨rfl, rfl, rfl, rfl, hget, fun v' cv' hcv' => ?_⟩
  rw [hcond] at hcv'
  split at hcv'
  · obtain ⟨cv, hcv, rfl⟩ := Option.map_eq_some_iff.1 hcv'
    exact ⟨cv, hcv, rfl, fun e he => absurd he List.not_mem_nil⟩
  · exact ⟨cv', hcv', rfl, fun _ he => he⟩

theorem condvar_dropCondvar (v g : Nat) :
    (w.dropCondvar v).condvars.get? g = if v = g then none else w.condvars.get? g := by
  show ((w.releaseAll v .aborted).condvars.erase v).get? g = _
  rw [Table.get?_erase, condvar_releaseAll]
  split <;> rfl

/-- Those who wait for a condition variable that is dropped are decided first. -/
theorem decides_dropCondvar (v : Nat) : Decides (· ∈ w.waiters v) .aborted w (w.dropCondvar v) := by
  refine { w.decides_releaseAll v .aborted with condvar := fun v' cv hcv => ?_ }
  rw [condvar_dropCondvar] at hcv
  split at hcv
  · cases hcv
  · exact ⟨cv, hcv, rfl, fun _ he => he⟩

variable {w} {w' : World R} {p : Nat → Prop} [DecidablePred p] {o : Outcome}

theorem Decides.of_get? (h : Decides p o w w') {g : Nat} {u' : Future} (hg : w'.futures.get? g = some u') :
    ∃ u, w.futures.get? g = some u ∧ u'.source = u.source ∧ u'.completed = u.completed ∧
      (u'.outcome = none → u.outcome = none ∧ ¬ p g) := by
  rw [h.future g] at hg
  split at hg
  · obtain ⟨u, hu, rfl⟩ := Option.map_eq_some_iff.1 hg
    refine ⟨u, hu, u.decide_source o, u.decide_completed o, fun ho => ?_⟩
    have hsome := u.isSome_decide_outcome o
    rw [ho] at hsome
    cases hsome
  · rename_i hp
    exact ⟨u', hg, rfl, rfl, fun ho => ⟨ho, hp⟩⟩

theorem Decides.get? (h : Decides p o w w') {g : Nat} {u : Future} (hg : w.futures.get? g = some u) :
    ∃ u', w'.futures.get? g = some u' ∧ u'.source = u.source ∧ u'.completed = u.completed := by
  rw [h.future g, hg]
  split
  · exact ⟨_, rfl, u.decide_source o, u.decide_completed o⟩
  · exact ⟨u, rfl, rfl, rfl⟩

end Decides

/-! ## Tokens -/

section Tokens

variable [Registry R]

theorem release_eq (n : Nat) : ∃ tokens, w.release n = { w with tokens := tokens } := by
  unfold release
  cases w.tokens.get? n with
  | none => exact ⟨_, rfl⟩
  | some t =>
    dsimp only
    split
    · cases t.parent <;> exact ⟨_, rfl⟩
    · exact ⟨_, rfl⟩

theorem get?_takeAll (n m : Nat) : (w.takeAll n).1.tokens.get? m = if n = m then (w.tokens.get? m).map fun t =>
    { t with count := t.count + 1, registry := Registry.clear t.registry } else w.tokens.get? m := by
  unfold takeAll
  cases hn : w.tokens.get? n with
  | none => exact Table.get?_of_fixed (fun t ht => nomatch hn.symm.trans ht) m
  | some t => exact Table.get?_insert_map hn (fun t => { t with count := t.count + 1, registry := Registry.clear t.registry }) m

theorem takeAll_snd (n : Nat) :
    (w.takeAll n).2 = ((w.tokens.get? n).map fun t => Registry.toList t.registry).getD [] := by
  unfold takeAll
  cases w.tokens.get? n <;> rfl

theorem takeAll_eq (n : Nat) : ∃ tokens, (w.takeAll n).1 = { w with tokens := tokens } := by
  unfold takeAll
  cases w.tokens.get? n <;> exact ⟨_, rfl⟩

theorem dropConnection_eq (c : Nat) :
    ∃ tokens connections, w.dropConnection c = { w with tokens := tokens, connections := connections } := by
  unfold dropConnection
  cases w.connections.get? c <;> exact ⟨_, _, rfl⟩

end Tokens

end World

end Gateway.Signal
