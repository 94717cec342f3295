import Gateway.Proofs.Signal.Origins
import Gateway.Proofs.Signal.Waiting
/-!
# What decides waits

A task has a verdict on a wait (`World.verdict`) if it notifies its condition variable,
if it is the invocation of the callback that was connected for it, or if the condition
variable is dropped by it. Each task decides the waits that it has a verdict on, unless
they were decided before, and no others (`step_proceeds`).

Most of the work is to show that no other command does anything to a wait that goes on
(`World.Spares`).
-/
namespace Gateway.Signal

theorem Future.decide_outcome (u : Future) (o : Outcome) : (u.decide o).outcome = u.outcome.or (some o) := by
  unfold decide
  cases h : u.outcome with
  | none => rfl
  | some o' => simp [h]

/-- The wait `u` goes on as `u'`: what is decided in between is `o`, and it ends only when it is decided. -/
structure Future.Proceeds (u : Future) (o : Option Outcome) (u' : Future) : Prop where
  source : u'.source = u.source
  outcome : u'.outcome = u.outcome.or o
  ended : u'.completed = true → u.completed = true ∨ u'.outcome.isSome = true

namespace Future.Proceeds

variable {u u' u'' : Future} {o o' : Option Outcome}

theorem of_eq (hs : u'.source = u.source) (ho : u'.outcome = u.outcome)
    (hc : u'.completed = true → u.completed = true ∨ u.outcome.isSome = true) : u.Proceeds none u' :=
  ⟨hs, by rw [ho, Option.or_none], ho ▸ hc⟩

theorem refl : u.Proceeds none u := of_eq rfl rfl .inl

theorem decide (u : Future) (o : Outcome) : u.Proceeds (some o) (u.decide o) :=
  ⟨u.decide_source o, u.decide_outcome o, fun _ => .inr (u.isSome_decide_outcome o)⟩

theorem trans (h : u.Proceeds o u') (h' : u'.Proceeds o' u'') : u.Proceeds (o.or o') u'' := by
  refine ⟨h'.source.trans h.source, by rw [h'.outcome, h.outcome, Option.or_assoc], fun hc => ?_⟩
  rcases h'.ended hc with hc | ho
  · refine (h.ended hc).imp_right fun ho => ?_
    rw [h'.outcome, Option.isSome_or, ho, Bool.true_or]
  · exact .inr ho

end Future.Proceeds

variable {R : Type → Type}

namespace World

/-- From one world to the next, waits go on, and `o` is what is decided for those with a ticket of a condition variable. -/
structure Proceeds (w : World R) (o : (v ticket : Nat) → Option Outcome) (w' : World R) : Prop where
  next_le : w.next ≤ w'.next
  alive : ∀ f u', f < w.next → w'.futures.get? f = some u' → ∃ u, w.futures.get? f = some u
  wait : ∀ f u u' v ticket l, w.futures.get? f = some u → u.source = .wait v ticket l → w'.futures.get? f = some u' →
    u.Proceeds (o v ticket) u'

variable {w w' w'' : World R} {o o' : (v ticket : Nat) → Option Outcome}

theorem Proceeds.trans (hq : w.Queued) (h : w.Proceeds o w') (h' : w'.Proceeds o' w'') :
    w.Proceeds (fun v ticket => (o v ticket).or (o' v ticket)) w'' := by
  refine ⟨Nat.le_trans h.next_le h'.next_le, fun f u'' hlt hu'' => ?_, fun f u u'' v ticket l hu hs hu'' => ?_⟩
  · obtain ⟨u', hu'⟩ := h'.alive f u'' (Nat.lt_of_lt_of_le hlt h.next_le) hu''
    exact h.alive f u' hlt hu'
  · obtain ⟨u', hu'⟩ := h'.alive f u'' (Nat.lt_of_lt_of_le (hq.future_lt f u hu) h.next_le) hu''
    have hu₁ := h.wait f u u' v ticket l hu hs hu'
    exact hu₁.trans (h'.wait f u' u'' v ticket l hu' (hu₁.source.trans hs) hu'')

/-- The futures that are decided are the waits with certain tickets, as far as they were not decided before. -/
theorem Proceeds.decides {p : Nat → Prop} [DecidablePred p] {out : Outcome} (hd : Decides p out w w')
    (c : (v ticket : Nat) → Prop) [∀ v ticket, Decidable (c v ticket)]
    (hp : ∀ f v ticket, w.Waits f v ticket → p f → c v ticket)
    (hc : ∀ f u v ticket l, w.futures.get? f = some u → u.source = .wait v ticket l → u.outcome = none → c v ticket → p f) :
    w.Proceeds (fun v ticket => if c v ticket then some out else none) w' := by
  refine ⟨Nat.le_of_eq hd.next.symm, fun f u' _ hu' => ?_, fun f u u' v ticket l hu hs hu' => ?_⟩
  · obtain ⟨u, hu, -⟩ := hd.of_get? hu'
    exact ⟨u, hu⟩
  · rw [hd.future f, hu] at hu'
    split at hu'
    · rename_i hf
      cases hu'
      rw [if_pos (hp f v ticket ⟨u, l, hu, hs⟩ hf)]
      exact .decide u out
    · rename_i hf
      cases hu'
      refine ⟨rfl, ?_, .inl⟩
      cases ho : u.outcome with
      | some o => rfl
      | none =>
        rw [if_neg fun hcv => hf (hc f u v ticket l hu hs ho hcv)]
        rfl

theorem Queued.mem_waiters (hq : w.Queued) {f v ticket : Nat} {u : Future} {l : Option Link} (hu : w.futures.get? f = some u)
    (hs : u.source = .wait v ticket l) (ho : u.outcome = none) : f ∈ w.waiters v := by
  obtain ⟨cv, hcv, hmem⟩ := hq.undecided f u v ticket l hu hs ho
  exact w.mem_waiters.2 ⟨cv, ticket, hcv, hmem⟩

/-! ## Waits are spared -/

/-- What those who wait for a condition variable get if it is there before and not after. -/
def dropped? (w w' : World R) (v : Nat) : Option Outcome :=
  if (w.condvars.get? v).isSome ∧ w'.condvars.get? v = none then some .aborted else none

theorem dropped?_eq_none {v : Nat} (h : (w.condvars.get? v).isSome → (w'.condvars.get? v).isSome) :
    w.dropped? w' v = none := by
  refine if_neg fun ⟨hsome, hnone⟩ => ?_
  rw [hnone] at h
  cases h hsome

/-- Waits go on as they are, except that those for a condition variable that is dropped are aborted. -/
structure Spares (w w' : World R) : Prop extends w.Proceeds (fun v _ => w.dropped? w' v) w' where
  gone : ∀ v, v < w.next → w.condvars.get? v = none → w'.condvars.get? v = none

/-- Condition variables stay, and no wait is decided. -/
theorem Spares.steady (hq : w.Queued) (hn : w.next ≤ w'.next)
    (hc : ∀ v, v < w.next → (w'.condvars.get? v).isSome = (w.condvars.get? v).isSome)
    (hf : ∀ f u', f < w.next → w'.futures.get? f = some u' → ∃ u, w.futures.get? f = some u ∧
      ((∃ v ticket l, u.source = .wait v ticket l) → u.Proceeds none u')) : w.Spares w' := by
  refine ⟨⟨hn, fun f u' hlt hu' => ?_, fun f u u' v ticket l hu hs hu' => ?_⟩, fun v hv hnone => ?_⟩
  · obtain ⟨u, hu, -⟩ := hf f u' hlt hu'
    exact ⟨u, hu⟩
  · obtain ⟨u₀, hu₀, hsame⟩ := hf f u' (hq.future_lt f u hu) hu'
    obtain rfl := Option.some.inj (hu₀.symm.trans hu)
    rw [dropped?_eq_none fun h => (hc v (hq.waits_lt f v ticket ⟨_, l, hu, hs⟩)).trans h]
    exact hsame ⟨v, ticket, l, hs⟩
  · have hsome := hc v hv
    rw [hnone] at hsome
    simpa using hsome

theorem Spares.congr (hq : w.Queued) (hn : w.next ≤ w'.next) (hf : w'.futures = w.futures)
    (hc : w'.condvars = w.condvars) : w.Spares w' :=
  .steady hq hn (fun _ _ => by rw [hc]) fun _ u _ hu => ⟨u, hf ▸ hu, fun _ => .refl⟩

theorem Spares.refl (hq : w.Queued) : w.Spares w := .congr hq (Nat.le_refl _) rfl rfl

theorem Spares.trans (hq : w.Queued) (h : w.Spares w') (h' : w'.Spares w'') : w.Spares w'' := by
  have hboth := h.toProceeds.trans hq h'.toProceeds
  refine ⟨{ hboth with wait := fun f u u'' v ticket l hu hs hu'' => ?_ },
    fun v hv hnone => h'.gone v (Nat.lt_of_lt_of_le hv h.next_le) (h.gone v hv hnone)⟩
  suffices hd : w.dropped? w'' v = (w.dropped? w' v).or (w'.dropped? w'' v) from
    hd ▸ hboth.wait f u u'' v ticket l hu hs hu''
  -- A condition variable is dropped in the first half, or in the second, or not at all.
  have hlt := hq.waits_lt f v ticket ⟨u, l, hu, hs⟩
  have hgone := h.gone v hlt
  have hgone' := h'.gone v (Nat.lt_of_lt_of_le hlt h.next_le)
  unfold dropped?
  cases hv : w.condvars.get? v with
  | none => simp [hgone hv]
  | some cv =>
    cases hv' : w'.condvars.get? v with
    | none => simp [hgone' hv']
    | some cv' => simp

/-! ## Single operations -/

/-- Who waits for a condition variable that is dropped is aborted, unless decided before. -/
theorem Spares.dropCondvar (hq : w.Queued) (v : Nat) : w.Spares (w.dropCondvar v) := by
  have hd := Proceeds.decides (w.decides_dropCondvar v)
    (fun v' _ => (w.condvars.get? v').isSome ∧ (w.dropCondvar v).condvars.get? v' = none)
    (fun f v' ticket hw hf => ?_) fun f u v' ticket l hu hs ho hc => ?_
  · refine ⟨hd, fun v' _ hnone => ?_⟩
    rw [condvar_dropCondvar]
    split
    · rfl
    · exact hnone
  · obtain rfl := hq.eq_of_mem_waiters hw hf
    obtain ⟨cv, t, hcv, -⟩ := w.mem_waiters.1 hf
    exact ⟨by rw [hcv]; rfl, by rw [condvar_dropCondvar, if_pos rfl]⟩
  · obtain ⟨hsome, hnone⟩ := hc
    rw [condvar_dropCondvar] at hnone
    split at hnone
    · rename_i hv
      exact hv ▸ hq.mem_waiters hu hs ho
    · rw [hnone] at hsome
      cases hsome

theorem Spares.insertFuture (hq : w.Queued) {f : Nat} {u u' : Future} (hu : w.futures.get? f = some u)
    (hn : w'.next = w.next) (hc : w'.condvars = w.condvars) (hf : w'.futures = w.futures.insert f u')
    (hp : (∃ v ticket l, u.source = .wait v ticket l) → u.Proceeds none u') : w.Spares w' := by
  refine .steady hq (Nat.le_of_eq hn.symm) (fun v _ => by rw [hc]) fun g u₁ _ hg => ?_
  rw [hf, Table.get?_insert] at hg
  split at hg
  · rename_i hfg
    cases hg
    exact ⟨u, hfg ▸ hu, hp⟩
  · exact ⟨u₁, hg, fun _ => .refl⟩

theorem Spares.eraseFuture (hq : w.Queued) {f : Nat} (hn : w'.next = w.next) (hc : w'.condvars = w.condvars)
    (hf : w'.futures = w.futures.erase f) : w.Spares w' := by
  refine .steady hq (Nat.le_of_eq hn.symm) (fun v _ => by rw [hc]) fun g u₁ _ hg => ?_
  rw [hf, Table.get?_erase] at hg
  split at hg
  · cases hg
  · exact ⟨u₁, hg, fun _ => .refl⟩

/-- A new future does nothing to the waits there are. -/
theorem Spares.addFuture (hq : w.Queued) (hn : w.next ≤ w'.next) {u : Future}
    (hc : ∀ v, v < w.next → (w'.condvars.get? v).isSome = (w.condvars.get? v).isSome)
    (hf : w'.futures = w.futures.insert w.next u) : w.Spares w' := by
  refine .steady hq hn hc fun g u₁ hlt hg => ⟨u₁, ?_, fun _ => .refl⟩
  rwa [hf, Table.get?_insert, if_neg (Nat.ne_of_gt hlt)] at hg

theorem isSome_condvar_abortWait (v ticket v' : Nat) :
    ((w.abortWait v ticket).condvars.get? v').isSome = (w.condvars.get? v').isSome := by
  rw [condvar_abortWait]
  split
  · exact Option.isSome_map
  · rfl

variable [Registry R]

/-- A token that is given up in the end does not matter. -/
theorem Spares.and_release (h : w.Spares w') (n : Nat) : w.Spares (w'.release n) := by
  obtain ⟨tokens, heq⟩ := w'.release_eq n
  rw [heq]
  exact ⟨⟨h.next_le, h.alive, h.wait⟩, h.gone⟩

theorem isSome_condvar_dropFuture (w : World R) (f v : Nat) :
    ((w.dropFuture f).condvars.get? v).isSome = (w.condvars.get? v).isSome := by
  unfold World.dropFuture
  cases w.futures.get? f with
  | none => rfl
  | some u =>
    cases hs : u.source with
    | firing n l =>
      simp only [hs]
      split
      · rfl
      · obtain ⟨tokens, heq⟩ := World.release_eq (World.unlink? { w with futures := w.futures.erase f } l) n
        rw [heq]
        cases l <;> rfl
    | wait v' ticket l =>
      simp only [hs]
      refine Eq.trans ?_ (isSome_condvar_abortWait v' ticket v)
      cases l <;> rfl

theorem Spares.dropFuture (hq : w.Queued) (f : Nat) : w.Spares (w.dropFuture f) := by
  have hcond := w.isSome_condvar_dropFuture f
  unfold World.dropFuture at hcond ⊢
  cases hf : w.futures.get? f with
  | none => exact .refl hq
  | some u =>
    cases hs : u.source with
    | firing n l =>
      simp only [hs]
      split
      · exact .eraseFuture hq rfl rfl rfl
      · refine Spares.and_release ?_ n
        refine .eraseFuture hq (f := f) ?_ ?_ ?_ <;> cases l <;> rfl
    | wait v ticket l =>
      simp only [hf, hs] at hcond ⊢
      have hd := w.decides_abortWait v ticket
      have hfut : ∀ g, (World.unlink? { w.abortWait v ticket with
          futures := (w.abortWait v ticket).futures.erase f } l).futures.get? g =
          if f = g then none else (w.abortWait v ticket).futures.get? g := by
        intro g
        rw [← Table.get?_erase]
        cases l <;> rfl
      refine .steady hq ?_ (fun v' _ => hcond v') fun g u₁ _ hg => ?_
      · cases l <;> exact Nat.le_of_eq hd.next.symm
      · rw [hfut] at hg
        split at hg
        · cases hg
        · rename_i hfg
          -- The ticket is that of the future that is dropped.
          rw [hd.future g, if_neg fun ho => hfg (hq.sole f g v ticket ⟨u, l, hf, hs⟩ (hq.owner_waits ho))] at hg
          exact ⟨u₁, hg, fun _ => .refl⟩

theorem Spares.release (hq : w.Queued) (n : Nat) : w.Spares (w.release n) := (Spares.refl hq).and_release n

theorem Spares.dropConnection (hq : w.Queued) (c : Nat) : w.Spares (w.dropConnection c) := by
  obtain ⟨tokens, connections, heq⟩ := w.dropConnection_eq c
  rw [heq]
  exact .congr hq (Nat.le_refl _) rfl rfl

/-! ## Naming -/

omit [Registry R] in
/-- Something else happens first that does not matter to waits. -/
theorem Spares.after (hq : w.Queued) (h : w'.Queued → w'.Spares w'') (hn : w.next ≤ w'.next)
    (hf : w'.futures = w.futures) (hc : w'.condvars = w.condvars) : w.Spares w'' :=
  (Spares.congr hq hn hf hc).trans hq (h (hq.congr hf hc hn))

theorem Spares.nameToken (hq : w.Queued) (name : Name) (n : Nat) : w.Spares (w.nameToken name n) := by
  unfold World.nameToken
  dsimp only
  cases w.tokenNames.get? name with
  | none => exact .congr hq (Nat.le_refl _) rfl rfl
  | some m => exact .after hq (fun hq => .release hq m) (Nat.le_refl _) rfl rfl

theorem Spares.nameConnection (hq : w.Queued) (name : Name) (c : Nat) : w.Spares (w.nameConnection name c) := by
  unfold World.nameConnection
  dsimp only
  cases w.connectionNames.get? name with
  | none => exact .congr hq (Nat.le_refl _) rfl rfl
  | some d => exact .after hq (fun hq => .dropConnection hq d) (Nat.le_refl _) rfl rfl

omit [Registry R] in
theorem Spares.nameCondvar (hq : w.Queued) (name : Name) (v : Nat) : w.Spares (w.nameCondvar name v) := by
  unfold World.nameCondvar
  dsimp only
  cases w.condvarNames.get? name with
  | none => exact .congr hq (Nat.le_refl _) rfl rfl
  | some u => exact .after hq (fun hq => .dropCondvar hq u) (Nat.le_refl _) rfl rfl

theorem Spares.nameFuture (hq : w.Queued) (name : Name) (f : Nat) : w.Spares (w.nameFuture name f) := by
  unfold World.nameFuture
  dsimp only
  cases w.futureNames.get? name with
  | none => exact .congr hq (Nat.le_refl _) rfl rfl
  | some g => exact .after hq (fun hq => .dropFuture hq g) (Nat.le_refl _) rfl rfl

/-! ## Commands -/

omit [Registry R] in
theorem isSome_condvars_insert {v : Nat} {cv cv' : Condvar Nat} (hv : w.condvars.get? v = some cv) (v' : Nat) :
    ((w.condvars.insert v cv').get? v').isSome = (w.condvars.get? v').isSome := by
  rw [Table.get?_insert]
  split
  · rename_i hvv
    rw [← hvv, hv]
    rfl
  · rfl

theorem Spares.makeToken (hq : w.Queued) (name : Name) (parent : Option Name) : w.Spares (w.makeToken name parent) := by
  unfold World.makeToken
  dsimp only
  split
  · exact .after hq (fun hq => .nameToken hq name w.next) (Nat.le_succ _) rfl rfl
  · exact .after hq (fun hq => .nameToken hq name w.next) (Nat.le_succ _) rfl rfl

/-- Of the waits only the new one may be aborted at once. -/
theorem Spares.addWaitFor (hq : w.Queued) {v : Nat} {cv : Condvar Nat} (hv : w.condvars.get? v = some cv) (n : Nat)
    (t : Token R) : w.Spares (w.addWaitFor v cv n t) := by
  have hadd : (w.addWaitTo v cv n t).Queued := hq.addWait hv rfl rfl rfl
  unfold World.addWaitFor
  dsimp only
  split
  · have hd := (w.addWaitTo v cv n t).decides_abortWait v cv.nextTicket
    have hnew : (w.addWaitTo v cv n t).Waits w.next v cv.nextTicket :=
      ⟨_, _, (Table.get?_insert _ _ _ _).trans (if_pos rfl), rfl⟩
    refine .steady hq (Nat.le_trans (Nat.le_succ _) (Nat.le_of_eq hd.next.symm)) (fun v' _ => ?_) fun g u' hlt hu' => ?_
    · rw [isSome_condvar_abortWait]
      exact isSome_condvars_insert hv v'
    · rw [hd.future g, if_neg fun ho => Nat.ne_of_lt hlt (hadd.sole g w.next v _ (hadd.owner_waits ho) hnew)] at hu'
      refine ⟨u', ?_, fun _ => .refl⟩
      exact ((Table.get?_insert _ _ _ _).trans (if_neg (Nat.ne_of_gt hlt))).symm.trans hu'
  · exact .addFuture hq (Nat.le_succ _) (fun v' _ => isSome_condvars_insert hv v') rfl

theorem Spares.makeWait (hq : w.Queued) {v : Nat} {cv : Condvar Nat} (hv : w.condvars.get? v = some cv) (name : Name)
    (token : Option Name) : w.Spares (w.makeWait v cv name (token.bind w.token?)) := by
  unfold World.makeWait
  cases hn : token.bind w.token? with
  | none =>
    have hadd : w.Spares (w.addWait v cv) := .addFuture hq (Nat.le_succ _) (fun v' _ => isSome_condvars_insert hv v') rfl
    exact hadd.trans hq (.nameFuture (hq.addWait hv rfl rfl rfl) name w.next)
  | some n =>
    have hwait := Move.waitFor (w := w) (d := []) (h := []) hv (bind_token?_eq_some hn)
    exact (Spares.addWaitFor hq hv n.1 n.2).trans hq (.nameFuture (hwait.queued hq) name w.next)

theorem Spares.pollFuture (hq : w.Queued) (name : Name) {f : Nat} {u : Future} (hf : w.futures.get? f = some u) :
    w.Spares (w.pollFuture name f u).1 := by
  obtain ⟨source, outcome, watcher, completed⟩ := u
  unfold World.pollFuture
  cases completed with
  | true => exact .refl hq
  | false =>
    cases source with
    | wait v ticket l =>
      -- A wait is watched from now on, or ends because it has been decided.
      rcases outcome with _ | _ | _
      · exact .insertFuture hq hf rfl rfl rfl fun _ => .of_eq rfl rfl .inl
      · exact .insertFuture hq hf rfl rfl rfl fun _ => .of_eq rfl rfl fun _ => .inr rfl
      · exact .insertFuture hq hf rfl rfl rfl fun _ => .of_eq rfl rfl fun _ => .inr rfl
    | firing n l =>
      have hnot : ¬ ∃ v ticket l', Source.firing n l = .wait v ticket l' := fun ⟨_, _, _, h⟩ => (nomatch h)
      rcases l with _ | l
      · dsimp only
        cases w.tokens.get? n with
        | none => exact .refl hq
        | some t =>
          dsimp only
          cases t.isFired with
          | true =>
            refine Spares.and_release ?_ n
            exact .insertFuture hq hf rfl rfl rfl fun h => absurd h hnot
          | false => exact .insertFuture hq hf rfl rfl rfl fun h => absurd h hnot
      · rcases outcome with _ | o
        · exact .insertFuture hq hf rfl rfl rfl fun h => absurd h hnot
        · refine Spares.and_release ?_ n
          exact .insertFuture hq hf rfl rfl rfl fun h => absurd h hnot

theorem Spares.unnameToken (hq : w.Queued) (name : Name) : w.Spares (match w.tokenNames.get? name with
    | some n => { w with tokenNames := w.tokenNames.erase name }.release n
    | none => w) := by
  cases w.tokenNames.get? name with
  | none => exact .refl hq
  | some n => exact .after hq (fun hq => .release hq n) (Nat.le_refl _) rfl rfl

theorem Spares.unnameConnection (hq : w.Queued) (name : Name) (c : Option Nat) : w.Spares (match c with
    | some c => { w with connectionNames := w.connectionNames.erase name }.dropConnection c
    | none => w) := by
  cases c with
  | none => exact .refl hq
  | some c => exact .after hq (fun hq => .dropConnection hq c) (Nat.le_refl _) rfl rfl

omit [Registry R] in
theorem Spares.unnameCondvar (hq : w.Queued) (name : Name) (v : Option Nat) : w.Spares (match v with
    | some v => { w with condvarNames := w.condvarNames.erase name }.dropCondvar v
    | none => w) := by
  cases v with
  | none => exact .refl hq
  | some v => exact .after hq (fun hq => .dropCondvar hq v) (Nat.le_refl _) rfl rfl

theorem Spares.unnameFuture (hq : w.Queued) (name : Name) (f : Option Nat) : w.Spares (match f with
    | some f => { w with futureNames := w.futureNames.erase name }.dropFuture f
    | none => w) := by
  cases f with
  | none => exact .refl hq
  | some f => exact .after hq (fun hq => .dropFuture hq f) (Nat.le_refl _) rfl rfl

theorem Spares.dropNamed (hq : w.Queued) (name : Name) : w.Spares (w.dropNamed name).1 := by
  have htoken := moves_unnameToken w [] [] name
  have hconnection := htoken.trans (moves_unnameConnection _ [] [] name (w.connectionNames.get? name))
  have hcondvar := hconnection.trans (moves_unnameCondvar _ [] [] name (w.condvarNames.get? name))
  exact (((Spares.unnameToken hq name).trans hq (.unnameConnection (htoken.queued hq) name _)).trans hq
    (.unnameCondvar (hconnection.queued hq) name _)).trans hq (.unnameFuture (hcondvar.queued hq) name _)

/-- Every command but a notification spares the waits. -/
theorem Spares.execute (hq : w.Queued) (c : Command) (hc : ∀ name, c ≠ .notify name) : w.Spares (w.execute c).1 := by
  unfold World.execute
  cases c with
  | token name parent => exact .makeToken hq name parent
  | fire name =>
    dsimp only
    cases w.token? name with
    | none => exact .refl hq
    | some n =>
      obtain ⟨tokens, heq⟩ := (w.hold n.1).takeAll_eq n.1
      dsimp only
      rw [heq]
      exact .congr hq (Nat.le_refl _) rfl rfl
  | connect token name script =>
    dsimp only
    cases w.token? token with
    | none => exact .refl hq
    | some n => exact .after hq (fun hq => .nameConnection hq name w.next) (Nat.le_succ _) rfl rfl
  | cancelled token name =>
    dsimp only
    cases w.token? token with
    | none => exact .refl hq
    | some n =>
      let w' : World R := { w.hold n.1 with
        next := w.next + 1, futures := w.futures.insert w.next { source := .firing n.1 none } }
      have hadd : w.Spares w' := .addFuture hq (Nat.le_succ _) (fun _ _ => rfl) rfl
      have hq' : w'.Queued := hq.addFiring rfl rfl rfl
      exact hadd.trans hq (.nameFuture hq' name w.next)
  | condvar name =>
    let w' : World R := { w with next := w.next + 1, condvars := w.condvars.insert w.next {} }
    have hadd : w.Spares w' := by
      refine .steady hq (Nat.le_succ _) (fun v hv => ?_) fun f u _ hu => ⟨u, hu, fun _ => .refl⟩
      exact congrArg Option.isSome ((Table.get?_insert _ _ _ _).trans (if_neg (Nat.ne_of_gt hv)))
    have hq' : w'.Queued := hq.addCondvar rfl rfl rfl
    exact hadd.trans hq (.nameCondvar hq' name w.next)
  | notify name => exact absurd rfl (hc name)
  | wait condvar name token =>
    dsimp only
    cases hv : w.condvar? condvar with
    | none => exact .refl hq
    | some v => exact .makeWait hq (condvar?_eq_some hv) name token
  | poll name =>
    dsimp only
    cases hf : w.future? name with
    | none => exact .refl hq
    | some f => exact .pollFuture hq name (future?_eq_some hf)
  | drop name => exact .dropNamed hq name
  | inspect name | unknown => exact .refl hq

/-! ## Verdicts -/

/-- What a task says about the outcome of those who have a certain ticket of the condition variable `v`. -/
def verdict (w : World R) (v ticket : Nat) : Task → Option Outcome
  | .run _ (.notify name) => if (w.condvar? name).map (·.1) = some v then some .ok else none
  | .invoke (.abortWait v' ticket') => if v' = v ∧ ticket' = ticket then some .aborted else none
  | task => w.dropped? (w.step task).1 v

theorem verdict_run {v ticket : Nat} {within : Option Name} {c : Command} (hc : ∀ name, c ≠ .notify name) :
    w.verdict v ticket (.run within c) = w.dropped? (w.step (.run within c)).1 v := by
  cases c with
  | notify name => exact absurd rfl (hc name)
  | _ => rfl

omit [Registry R] in
theorem Spares.noteResult (h : w.Spares w') (within : Option Name) (result : Result) :
    w.Spares (w'.noteResult within result) := by
  obtain ⟨log, heq⟩ := w'.noteResult_eq within result
  rw [heq]
  exact ⟨⟨h.next_le, h.alive, h.wait⟩, h.gone⟩

omit [Registry R] in
/-- A notification releases those who wait for its condition variable. -/
theorem Proceeds.releaseAll (hq : w.Queued) (v : Nat) (out : Outcome) :
    w.Proceeds (fun v' _ => if v = v' then some out else none) (w.releaseAll v out) := by
  refine .decides (w.decides_releaseAll v out) (fun v' _ => v = v') (fun f v' ticket hw hf => hq.eq_of_mem_waiters hw hf) ?_
  rintro f u v' ticket l hu hs ho rfl
  exact hq.mem_waiters hu hs ho

omit [Registry R] in
theorem Proceeds.abortWait (hq : w.Queued) (v ticket : Nat) :
    w.Proceeds (fun v' ticket' => if v = v' ∧ ticket = ticket' then some .aborted else none) (w.abortWait v ticket) := by
  refine .decides (w.decides_abortWait v ticket) (fun v' ticket' => v = v' ∧ ticket = ticket') ?_ ?_
  · exact fun f v' ticket' hw hf => (hq.owner_waits hf).unique hw
  · rintro f u v' ticket' l hu hs ho ⟨rfl, rfl⟩
    obtain ⟨cv, hcv, hmem⟩ := hq.undecided f u v ticket l hu hs ho
    exact hq.owner?_of_mem hcv hmem

omit [Registry R] in
theorem Spares.deliver (hq : w.Queued) {f : Nat}
    (hf : ∀ u, w.futures.get? f = some u → ∃ n l, u.source = .firing n l) (out : Outcome) : w.Spares (w.deliver f out) := by
  have hd := w.decides_deliver f out
  refine .steady hq (Nat.le_of_eq hd.next.symm) (fun v _ => ?_) fun g u' _ hu' => ?_
  · obtain ⟨futures, log, heq⟩ := w.deliver_eq f out
    rw [heq]
  · obtain ⟨u, hu, -⟩ := hd.of_get? hu'
    rw [hd.future g] at hu'
    split at hu'
    · rename_i hfg
      refine ⟨u, hu, fun hwait => ?_⟩
      obtain ⟨v, ticket, l, hs⟩ := hwait
      obtain ⟨n, l', hs'⟩ := hf u (hfg ▸ hu)
      rw [hs] at hs'
      cases hs'
    · exact ⟨u', hu', fun _ => .refl⟩

theorem step_notify {within : Option Name} {name : Name} {v : Nat × Condvar Nat} (hv : w.condvar? name = some v) :
    w.step (.run within (.notify name)) = (w.releaseAll v.1 .ok, []) := by
  unfold World.step World.execute
  dsimp only
  rw [hv]
  exact Prod.ext (noteResult_done _ within) rfl

/-- A task decides those waits for which it has a verdict. -/
theorem step_proceeds (hq : w.Queued) (task : Task)
    (hc : ∀ f, task = .invoke (.complete f) → ∀ u, w.futures.get? f = some u → ∃ n l, u.source = .firing n l) :
    w.Proceeds (fun v ticket => w.verdict v ticket task) (w.step task).1 := by
  cases task with
  | run within c =>
    by_cases hnotify : ∃ name, c = .notify name
    · obtain ⟨name, rfl⟩ := hnotify
      unfold verdict
      dsimp only
      cases hv : w.condvar? name with
      | none =>
        have hstep : (w.step (.run within (.notify name))).1 = w.noteResult within (.noSuch .condvar) := by
          unfold World.step World.execute
          dsimp only
          rw [hv]
        rw [hstep]
        have hspares := (Spares.refl hq).noteResult within (.noSuch .condvar)
        refine { hspares.toProceeds with wait := fun f u u' v ticket l hu hs hu' => ?_ }
        have hu := hspares.wait f u u' v ticket l hu hs hu'
        rw [dropped?_eq_none] at hu
        · exact hu
        · obtain ⟨log, heq⟩ := w.noteResult_eq within (.noSuch .condvar)
          rw [heq]
          exact id
      | some v =>
        rw [step_notify hv, Option.map_some]
        simpa only [Option.some.injEq] using Proceeds.releaseAll hq v.1 .ok
    · have hc : ∀ name, c ≠ .notify name := fun name hname => hnotify ⟨name, hname⟩
      simp only [verdict_run hc]
      exact ((Spares.execute hq c hc).noteResult within _).toProceeds
  | invoke cb =>
    cases cb with
    | script c name script =>
      have hspares : w.Spares (w.step (.invoke (.script c name script))).1 := .congr hq (Nat.le_refl _) rfl rfl
      exact hspares.toProceeds
    | fireChild n =>
      refine Spares.toProceeds ?_
      unfold World.step
      dsimp only
      split
      · exact .refl hq
      · obtain ⟨tokens, heq⟩ := w.takeAll_eq n
        rw [heq]
        exact .congr hq (Nat.le_refl _) rfl rfl
    | abortWait v ticket => exact .abortWait hq v ticket
    | complete f => exact (Spares.deliver hq (hc f rfl) .ok).toProceeds
  | finish held =>
    cases held with
    | none => exact (Spares.refl hq).toProceeds
    | some n => exact (Spares.release hq n).toProceeds

end World

end Gateway.Signal
