import Gateway.Proofs.Signal.Verdict
/-!
# The outcomes of waits

A wait is decided by the first task after its beginning that has a verdict on it, unless it
is aborted at once because its token has fired (`wait_decided_once`). A notification gives
its verdict on those who are in the queue, and wakes them in the order in which they began.
-/
namespace Gateway.Signal

/-! ## From the beginning on -/

namespace World

variable {R : Type → Type} {w w' : World R}

/-- The task begins the wait `f` with a ticket of the condition variable `v`. If a token is given that may abort it,
`given` is its number, and whether it has fired. -/
inductive BeginsWait (w : World R) : Task → (v ticket : Nat) → (given : Option (Nat × Bool)) → (f : Nat) → Prop where
  | intro {within : Option Name} {condvar name : Name} {token : Option Name} {v : Nat} {cv : Condvar Nat}
    (hv : w.condvar? condvar = some (v, cv)) :
    BeginsWait w (.run within (.wait condvar name token)) v cv.nextTicket
      ((token.bind w.token?).map fun e => (e.1, e.2.isFired)) w.next

/-- A wait that is given a token that has fired is aborted at once. -/
def atOnce : (given : Option (Nat × Bool)) → Option Outcome
  | some (_, true) => some .aborted
  | _ => none

/-- The future `f`, as long as it lives, is a wait with the outcome `o`. -/
structure Attends (w : World R) (f v ticket : Nat) (token : Option Nat) (o : Option Outcome) : Prop where
  lt : f < w.next
  source : ∀ u, w.futures.get? f = some u → ∃ l, u.source = .wait v ticket l ∧ l.map (·.token) = token
  outcome : ∀ u, w.futures.get? f = some u → u.outcome = o
  ended : ∀ u, w.futures.get? f = some u → u.completed = true → o.isSome = true

section Attends

variable {f v ticket : Nat} {token : Option Nat} {out : Option Outcome}

theorem Attends.proceeds (h : w.Attends f v ticket token out) {d : (v ticket : Nat) → Option Outcome} (hp : w.Proceeds d w') :
    w'.Attends f v ticket token (out.or (d v ticket)) := by
  have hu : ∀ u', w'.futures.get? f = some u' → ∃ u, w.futures.get? f = some u ∧ u.Proceeds (d v ticket) u' := by
    intro u' hu'
    obtain ⟨u, hu⟩ := hp.alive f u' h.lt hu'
    obtain ⟨l, hs, -⟩ := h.source u hu
    exact ⟨u, hu, hp.wait f u u' v ticket l hu hs hu'⟩
  refine ⟨Nat.lt_of_lt_of_le h.lt hp.next_le, fun u' hu' => ?_, fun u' hu' => ?_, fun u' hu' hc => ?_⟩ <;>
    obtain ⟨u, hu, hgo⟩ := hu u' hu'
  · obtain ⟨l, hs, hl⟩ := h.source u hu
    exact ⟨l, hgo.source.trans hs, hl⟩
  · rw [hgo.outcome, h.outcome u hu]
  · rcases hgo.ended hc with hc | ho
    · rw [Option.isSome_or, h.ended u hu hc, Bool.true_or]
    · rwa [hgo.outcome, h.outcome u hu] at ho

theorem attends_new {l : Option Link} (hn : w.next < w'.next)
    (hf : w'.futures = w.futures.insert w.next { source := .wait v ticket l }) :
    w'.Attends w.next v ticket (l.map (·.token)) none := by
  have hget : ∀ u, w'.futures.get? w.next = some u → u = { source := .wait v ticket l } := by
    intro u hu
    rw [hf, Table.get?_insert, if_pos rfl] at hu
    exact (Option.some.inj hu).symm
  refine ⟨hn, fun u hu => ?_, fun u hu => ?_, fun u hu hc => ?_⟩ <;> obtain rfl := hget u hu
  · exact ⟨l, rfl, rfl⟩
  · rfl
  · cases hc

variable [Registry R]

/-- Something else is dropped that had the name. -/
theorem Attends.nameFuture (h : w.Attends f v ticket token out) (hq : w.Queued) (name : Name) (g : Nat) :
    (w.nameFuture name g).Attends f v ticket token out := by
  have hp := h.proceeds (Spares.nameFuture hq name g).toProceeds
  have hcond : (w.condvars.get? v).isSome → ((w.nameFuture name g).condvars.get? v).isSome := by
    unfold World.nameFuture
    dsimp only
    cases w.futureNames.get? name with
    | none => exact id
    | some f' =>
      dsimp only
      rw [isSome_condvar_dropFuture]
      exact id
  rwa [dropped?_eq_none hcond, Option.or_none] at hp

theorem step_wait {within : Option Name} {condvar name : Name} {token : Option Name} {v : Nat} {cv : Condvar Nat}
    (hv : w.condvar? condvar = some (v, cv)) :
    w.step (.run within (.wait condvar name token)) = (w.makeWait v cv name (token.bind w.token?), []) := by
  unfold World.step World.execute
  dsimp only
  rw [hv]
  exact Prod.ext (noteResult_done _ within) rfl

theorem attends_step (hq : w.Queued) {task : Task} {given : Option (Nat × Bool)} (hb : w.BeginsWait task v ticket given f) :
    (w.step task).1.Attends f v ticket (given.map (·.1)) (atOnce given) := by
  obtain @⟨within, condvar, name, token, v, cv, hv⟩ := hb
  have hcv := condvar?_eq_some hv
  rw [step_wait hv, World.makeWait]
  cases hn : token.bind w.token? with
  | none =>
    have hadd : (w.addWait v cv).Attends w.next v cv.nextTicket none none := attends_new (l := none) (Nat.lt_succ_self _) rfl
    exact hadd.nameFuture (hq.addWait hcv rfl rfl rfl) name w.next
  | some n =>
    have hadd : (w.addWaitTo v cv n.1 n.2).Queued := hq.addWait hcv rfl rfl rfl
    have hnew : (w.addWaitTo v cv n.1 n.2).Attends w.next v cv.nextTicket (some n.1) none :=
      attends_new (l := some ⟨n.1, (Registry.insert n.2.registry (.abortWait v cv.nextTicket)).2⟩) (Nat.lt_succ_self _) rfl
    have hfor : (w.addWaitFor v cv n.1 n.2).Attends w.next v cv.nextTicket (some n.1) (atOnce (some (n.1, n.2.isFired))) := by
      unfold World.addWaitFor
      cases n.2.isFired with
      | false => exact hnew
      | true =>
        have habort := hnew.proceeds (Proceeds.abortWait hadd v cv.nextTicket)
        rwa [if_pos ⟨rfl, rfl⟩] at habort
    have hwait := Move.waitFor (w := w) (d := []) (h := []) hcv (bind_token?_eq_some hn)
    exact hfor.nameFuture (hwait.queued hq) name w.next

end Attends

end World

/-- The wait has the outcome that the first verdict since its beginning gave, if it was not aborted at once. -/
theorem Moment.Reaches.attends {done later : List (World Arrivals × Task)} {w : World Arrivals} {task : Task} {rest : List Task}
    (hr : Moment.Reaches {} done ⟨w, task :: rest⟩) {v ticket f : Nat} {given : Option (Nat × Bool)}
    (hb : w.BeginsWait task v ticket given f) {m : Moment Arrivals}
    (hr' : Moment.Reaches ⟨(w.step task).1, (w.step task).2 ++ rest⟩ later m) :
    m.world.Attends f v ticket (given.map (·.1)) ((World.atOnce given).or (later.findSome? fun e => e.1.verdict v ticket e.2)) := by
  induction hr' with
  | refl =>
    rw [List.findSome?_nil, Option.or_none]
    exact World.attends_step hr.once.1.queued hb
  | command _ c ih => exact ih
  | @task later w' task' rest' hr' ih =>
    have hrun := hr.task.trans hr'
    have hp := World.step_proceeds hrun.once.1.queued task' fun f hf =>
      (hrun.lined.2 f (mem_callbacks.2 (hf ▸ List.mem_cons_self))).2
    -- `Option.or` keeps the verdict that came first.
    rw [List.findSome?_append, ← Option.or_assoc, List.findSome?_cons, List.findSome?_nil]
    have ha := ih.proceeds hp
    cases hv : w'.verdict v ticket task' with
    | none => rwa [hv] at ha
    | some o => rwa [hv] at ha

/-! ## Whose firing aborts -/

/-- Nothing is connected any more for an owner of whom there was a registration. -/
theorem Moves.mem_owners {a b : Standing Arrivals} {ds : List Deed} (hm : Moves a ds b) (hs : a.world.Sound) {o : Owner}
    (ho : a.world.Used o) {n : Nat} (hn : o ∈ (b.world.entries n).map fun e => e.2.owner) :
    o ∈ (a.world.entries n).map fun e => e.2.owner := by
  refine (hm.keeps hs (P := fun _ b => b.world.Used o ∧ (o ∈ (b.world.entries n).map (fun e => e.2.owner) →
    o ∈ (a.world.entries n).map fun e => e.2.owner)) ⟨ho, id⟩ ?_).2.2 hn
  rintro ds b ds' c ⟨hused, hmem⟩ hb _ hr
  refine ⟨hr.used hused, fun hn => hmem ?_⟩
  obtain ⟨e, he, rfl⟩ := List.mem_map.1 hn
  refine List.mem_map.2 ⟨e, ?_, rfl⟩
  cases hr with
  | lose hl | flash _ hl | invoke _ hl _ => exact hl.mem_entries he
  | gain hg _ =>
    -- Whoever gains a callback has never had one before.
    obtain ⟨t', ht', -⟩ := World.get?_of_mem_entries he
    rw [hg.entries n t' ht'] at he
    refine (List.mem_append.1 he).resolve_right fun he => ?_
    split at he
    · obtain rfl := List.mem_singleton.1 he
      exact hg.fresh hused
    · cases he
  | fire m | fireChild m =>
    rw [World.entries_takeAll] at he
    split at he
    · cases he
    · exact he

theorem World.not_used_next {R : Type → Type} {w : World R} {v : Nat} {cv : Condvar Nat} (hcv : w.condvars.get? v = some cv) :
    ¬ w.Used (.wait v cv.nextTicket) := fun hused => Nat.lt_irrefl _ (hused.2 cv hcv)

section Aborted

variable {done later : List (World Arrivals × Task)} {w : World Arrivals} {task : Task} {rest : List Task} {v ticket f : Nat}
  {given : Option (Nat × Bool)}

/-- When it begins, a wait is connected to the token that it is given and to no other. -/
theorem World.Sound.begun (hs : w.Sound) (hb : w.BeginsWait task v ticket given f) (rest : List Task) :
    ∃ a : Standing Arrivals, a.world.Sound ∧ a.world.Used (.wait v ticket) ∧
      (∀ n, .wait v ticket ∈ (a.world.entries n).map (fun e => e.2.owner) → given.map (·.1) = some n) ∧
      Moves a [] (Moment.standing ⟨(w.step task).1, (w.step task).2 ++ rest⟩) := by
  obtain @⟨within, condvar, name, token, v, cv, hv⟩ := hb
  have hcv := World.condvar?_eq_some hv
  have hfresh : ∀ n, .wait v cv.nextTicket ∉ (w.entries n).map fun e => e.2.owner := by
    intro n hn
    obtain ⟨e, he, ho⟩ := List.mem_map.1 hn
    exact hs.linked.notMem (World.not_used_next hcv) he ho
  -- What counts is the world between the move that begins the wait and the one that names it.
  let due := rest.filterMap Task.callback?
  let held := rest.filterMap Task.held?
  rw [World.step_wait hv, World.makeWait]
  cases hn : token.bind w.token? with
  | none =>
    have hwait := Moves.one (Move.wait (w := w) (d := due) (h := held) hcv)
    refine ⟨_, hwait.sound hs, ⟨Nat.lt_succ_of_lt (hs.queued.condvar_lt v cv hcv), fun cv' hcv' => ?_⟩,
      fun n hn => absurd hn (hfresh n), moves_nameFuture (w.addWait v cv) due held name w.next⟩
    obtain rfl : (cv.register w.next).1 = cv' :=
      Option.some.inj (((Table.get?_insert _ _ _ _).trans (if_pos rfl)).symm.trans hcv')
    exact Nat.lt_succ_self _
  | some n =>
    have ht := World.bind_token?_eq_some hn
    have hg := gains_waitFor hs.linked hs.queued hcv ht
    have hwait := Moves.one (Move.waitFor (w := w) (d := due) (h := held) hcv ht)
    refine ⟨_, hwait.sound hs, hg.owner, fun m hm => ?_, moves_nameFuture (w.addWaitFor v cv n.1 n.2) due held name w.next⟩
    obtain ⟨e, he, ho⟩ := List.mem_map.1 hm
    obtain ⟨t', ht', -⟩ := World.get?_of_mem_entries he
    rw [hg.entries m t' ht'] at he
    rcases List.mem_append.1 he with he | he
    · exact absurd (List.mem_map.2 ⟨e, he, ho⟩) (hfresh m)
    · split at he
      · rename_i hnm
        exact congrArg some hnm
      · cases he

/-- The callback of a wait is invoked only when a firing of its token has taken it. -/
theorem Moment.Reaches.abort_fired (hr : Moment.Reaches {} done ⟨w, task :: rest⟩) (hb : w.BeginsWait task v ticket given f)
    {m : Moment Arrivals} (hr' : Moment.Reaches ⟨(w.step task).1, (w.step task).2 ++ rest⟩ later m)
    (hi : .invoke (.abortWait v ticket) ∈ later.map (·.2) ∨ .invoke (.abortWait v ticket) ∈ m.tasks) :
    ∃ n, given.map (·.1) = some n ∧ ∃ e ∈ later, e.1.Fires e.2 n := by
  obtain ⟨hs, hgone⟩ := hr.once
  obtain ⟨a, ha, hused, hconn, hmoves⟩ := hs.begun hb rest
  induction hr' with
  | refl =>
    obtain @⟨within, condvar, name, token, v, cv, hv⟩ := hb
    rw [World.step_wait hv] at hi
    -- What was due before was registered before.
    have hdue : .abortWait v cv.nextTicket ∈ rest.filterMap Task.callback? :=
      mem_callbacks.2 (hi.resolve_left List.not_mem_nil)
    exact absurd (hgone.used _ (List.mem_append_right _ hdue)) (World.not_used_next (World.condvar?_eq_some hv))
  | command _ c ih => exact ih (.inl (hi.resolve_right (by simp)))
  | @task later w' task' rest' hr' ih =>
    have hbefore : (.invoke (.abortWait v ticket) ∈ later.map (·.2) ∨ .invoke (.abortWait v ticket) ∈ task' :: rest') →
        ∃ n, given.map (·.1) = some n ∧ ∃ e ∈ later ++ [(w', task')], e.1.Fires e.2 n := by
      intro hi
      obtain ⟨n, hn, e, he, hf⟩ := ih hi
      exact ⟨n, hn, e, List.mem_append_left _ he, hf⟩
    rw [List.map_append, List.mem_append, List.mem_append] at hi
    rcases hi with (hi | hi) | (hi | hi)
    · exact hbefore (.inl hi)
    · exact hbefore (.inr (List.mem_singleton.1 hi ▸ List.mem_cons_self))
    · obtain ⟨n, hf, k, he⟩ := invoke_mem_step.1 hi
      have howner := (hmoves.trans hr'.moves).mem_owners ha hused (List.mem_map.2 ⟨_, he, rfl⟩)
      exact ⟨n, hconn n howner, _, List.mem_append_right _ (List.mem_singleton_self _), hf⟩
    · exact hbefore (.inr (List.mem_cons_of_mem _ hi))

end Aborted

/-! ## What a notification does -/

namespace World

variable {R : Type → Type} {w : World R}

theorem log_deliver {f : Nat} {u : Future} (hu : w.futures.get? f = some u) (ho : u.outcome = none) (o : Outcome) :
    (w.deliver f o).log = (u.watcher.map Event.woken).toList ++ w.log := by
  unfold deliver
  rw [hu]
  dsimp only
  rw [ho]
  cases u.watcher <;> rfl

/-- Those who are decided are woken one after another. -/
theorem log_deliverAll (o : Outcome) (owners : List Nat) (hnodup : owners.Nodup)
    (ho : ∀ f ∈ owners, ∃ u, w.futures.get? f = some u ∧ u.outcome = none) :
    (owners.foldl (fun w f => w.deliver f o) w).log =
      (owners.filterMap fun f => (w.futures.get? f).bind (·.watcher)).reverse.map .woken ++ w.log := by
  induction owners generalizing w with
  | nil => rfl
  | cons f owners ih =>
    obtain ⟨hf, hnodup⟩ := List.nodup_cons.1 hnodup
    have hget : ∀ g ∈ owners, (w.deliver f o).futures.get? g = w.futures.get? g := by
      intro g hg
      have hfg : f ≠ g := fun hfg => hf (hfg ▸ hg)
      rw [get?_deliver, if_neg hfg]
    obtain ⟨u, hu, hout⟩ := ho f List.mem_cons_self
    have hrest : (owners.filterMap fun g => ((w.deliver f o).futures.get? g).bind (·.watcher)) =
        owners.filterMap fun g => (w.futures.get? g).bind (·.watcher) :=
      List.filterMap_congr fun g hg => by rw [hget g hg]
    rw [List.foldl_cons, ih hnodup fun g hg => hget g hg ▸ ho g (List.mem_cons_of_mem _ hg), hrest,
      log_deliver hu hout, List.filterMap_cons, hu, Option.bind_some]
    cases u.watcher <;> simp

theorem log_releaseAll (hq : w.Queued) (hl : w.Lined) (v : Nat) (o : Outcome) : (w.releaseAll v o).log =
    ((w.waiters v).filterMap fun f => (w.futures.get? f).bind (·.watcher)).reverse.map .woken ++ w.log := by
  have hpending : ∀ f ∈ w.waiters v, ∃ u, w.futures.get? f = some u ∧ u.outcome = none := by
    intro f hf
    obtain ⟨u, _, _, hu, -, ho⟩ := (hl.mem_waiters hq).1 hf
    exact ⟨u, hu, ho⟩
  unfold releaseAll
  unfold waiters at hpending ⊢
  cases hv : w.condvars.get? v with
  | none => rfl
  | some cv =>
    rw [hv] at hpending
    exact log_deliverAll o _ ((hl.sorted v cv hv).imp Nat.ne_of_lt) hpending

end World

/-! ## The same for slots -/

section Slots

variable {κ : KeyPairs} {w : World Slots} {w' : World Arrivals}

theorem World.Mirrors.verdict (h : w.Mirrors κ w') (v ticket : Nat) (task : Task) :
    w.verdict v ticket task = w'.verdict v ticket task := by
  obtain ⟨κ', hstep, -⟩ := h.step task
  have hdropped : w.dropped? (w.step task).1 v = w'.dropped? (w'.step task).1 v := by
    rw [World.dropped?, World.dropped?, h.condvars, hstep.condvars]
  cases task with
  | run within c =>
    cases c with
    | notify name =>
      unfold World.verdict
      dsimp only
      rw [h.condvar?]
    | _ => exact hdropped
  | invoke cb =>
    cases cb with
    | abortWait v' ticket' => rfl
    | _ => exact hdropped
  | finish held => exact hdropped

theorem SideBySide.findSome?_verdict {done : List (World Slots × Task)} {done' : List (World Arrivals × Task)}
    (h : SideBySide done done') (v ticket : Nat) :
    (done.findSome? fun e => e.1.verdict v ticket e.2) = done'.findSome? fun e => e.1.verdict v ticket e.2 := by
  have hmap := h.map fun _ _ _ task hm => hm.verdict v ticket task
  simpa only [List.findSome?_map, Function.id_comp] using congrArg (List.findSome? id) hmap

theorem World.Mirrors.beginsWait (h : w.Mirrors κ w') {task : Task} {v ticket f : Nat} {given : Option (Nat × Bool)}
    (hb : w.BeginsWait task v ticket given f) : w'.BeginsWait task v ticket given f := by
  obtain @⟨within, condvar, name, token, v, cv, hv⟩ := hb
  have hgiven : (token.bind w.token?).map (fun e => (e.1, e.2.isFired)) =
      (token.bind w'.token?).map fun e => (e.1, e.2.isFired) := by
    rcases h.bind_token? token with ⟨hn, hn'⟩ | ⟨n, t, t', hn, hn', -, ht⟩
    · rw [hn, hn']
      rfl
    · rw [hn, hn', Option.map_some, Option.map_some, ht.isFired]
  rw [hgiven, h.next]
  exact .intro ((h.condvar? condvar).trans hv)

theorem World.Mirrors.attends (h : w.Mirrors κ w') {f v ticket : Nat} {token : Option Nat} {o : Option Outcome}
    (ha : w'.Attends f v ticket token o) : w.Attends f v ticket token o := by
  refine ⟨h.next ▸ ha.lt, fun u hu => ?_, fun u hu => ?_, fun u hu hc => ?_⟩ <;> obtain ⟨u', hu', hm⟩ := h.future_some hu
  · obtain ⟨l', hs', hl'⟩ := ha.source u' hu'
    obtain ⟨source, _, _, _⟩ := u
    obtain ⟨source', _, _, _⟩ := u'
    have hsource : source.Mirrors κ source' := hm.source
    obtain rfl : source' = .wait v ticket l' := hs'
    cases hsource with
    | wait v ticket hl =>
      refine ⟨_, rfl, hl' ▸ ?_⟩
      cases hl with
      | none => rfl
      | some hl => exact congrArg some hl.1
  · exact hm.outcome.trans (ha.outcome u' hu')
  · exact ha.ended u' hu' (hm.completed ▸ hc)

theorem World.Mirrors.lined (h : w.Mirrors κ w') (hl : w'.Lined) : w.Lined := by
  refine ⟨fun v cv hcv => hl.sorted v cv (h.condvars ▸ hcv), fun v cv t f u hcv hmem hu => ?_⟩
  obtain ⟨u', hu', hm⟩ := h.future_some hu
  exact hm.outcome.trans (hl.undecided v cv t f u' (h.condvars ▸ hcv) hmem hu')

end Slots

/-- What a poll gives back that finds an outcome, or none. -/
def Result.ofOutcome : Option Outcome → Result
  | none => .pending
  | some .ok => .ok
  | some .aborted => .aborted

theorem World.result_poll {R : Type → Type} [Registry R] {w : World R} {name : Name} {f : Nat} {u : Future}
    (hf : w.future? name = some (f, u)) {v ticket : Nat} {l : Option Link} (hs : u.source = .wait v ticket l) :
    (w.execute (.poll name)).2.2 = if u.completed then .completed else .ofOutcome u.outcome := by
  unfold execute
  dsimp only
  rw [hf]
  obtain ⟨source, outcome, watcher, completed⟩ := u
  obtain rfl : source = .wait v ticket l := hs
  cases completed with
  | true => rfl
  | false => rcases outcome with _ | _ | _ <;> rfl

/-- What has become of the wait `f` when the tasks `later` have been done since it began. -/
structure Moment.FollowsWait (m : Moment Slots) (later : List (World Slots × Task)) (v ticket : Nat)
    (given : Option (Nat × Bool)) (f : Nat) : Prop where
  /-- The first verdict has decided it, unless it was aborted at once. -/
  outcome : ∀ u, m.world.futures.get? f = some u →
    u.outcome = (World.atOnce given).or (later.findSome? fun e => e.1.verdict v ticket e.2)
  /-- A poll gives the outcome, if there is one, and it is not polled any more when it has given it. -/
  poll : ∀ u name, m.world.future? name = some (f, u) →
    (m.world.execute (.poll name)).2.2 = if u.completed then .completed else .ofOutcome u.outcome
  ended : ∀ u, m.world.futures.get? f = some u → u.completed = true → u.outcome.isSome = true
  /-- Whatever happens then, an outcome stays. -/
  stays : ∀ u, m.world.futures.get? f = some u → u.outcome.isSome = true → ∀ later' m' u', m.Reaches later' m' →
    m'.world.futures.get? f = some u' → u'.outcome = u.outcome
  /-- Its callback is invoked only when the token that it was given has been fired since. -/
  aborted : .invoke (.abortWait v ticket) ∈ later.map (·.2) →
    ∃ n, given.map (·.1) = some n ∧ ∃ e ∈ later, e.1.Fires e.2 n
  /-- Waits have numbers in the order in which they begin. -/
  order : ∀ e ∈ later, ∀ v' ticket' given' g, e.1.BeginsWait e.2 v' ticket' given' g → f < g

theorem Moment.Reaches.followsWait {done later : List (World Slots × Task)} {w : World Slots} {task : Task}
    {rest : List Task} (hr : Moment.Reaches {} done ⟨w, task :: rest⟩) {v ticket f : Nat} {given : Option (Nat × Bool)}
    (hb : w.BeginsWait task v ticket given f) {m : Moment Slots}
    (hr' : Moment.Reaches ⟨(w.step task).1, (w.step task).2 ++ rest⟩ later m) : m.FollowsWait later v ticket given f := by
  obtain ⟨κ, done', ⟨w', _⟩, hv, ⟨hw, rfl⟩, -⟩ := hr.sound
  obtain ⟨κ₁, hm₁⟩ := Moment.mirrors_step hw task rest
  have hattends : ∀ later m, Moment.Reaches ⟨(w.step task).1, (w.step task).2 ++ rest⟩ later m → m.world.Attends f v ticket
      (given.map (·.1)) ((World.atOnce given).or (later.findSome? fun e => e.1.verdict v ticket e.2)) := by
    intro later m hr'
    obtain ⟨κ', later', m', hv', hm, hlater⟩ := hr'.mirrored hm₁
    rw [hlater.findSome?_verdict]
    exact hm.world.attends (hv.attends (hw.beginsWait hb) hv')
  have hnow := hattends later m hr'
  constructor
  case outcome => exact hnow.outcome
  case poll =>
    intro u name hu
    obtain ⟨l, hs, -⟩ := hnow.source u (World.future?_eq_some hu)
    exact World.result_poll hu hs
  case ended => exact fun u hu hc => hnow.outcome u hu ▸ hnow.ended u hu hc
  case stays =>
    intro u hu ho later' m' u' hr'' hu'
    rw [(hattends _ m' (hr'.trans hr'')).outcome u' hu', List.findSome?_append, ← Option.or_assoc, ← hnow.outcome u hu,
      Option.or_of_isSome ho]
  case aborted =>
    intro hi
    obtain ⟨κ', later', m', hv', hm, hlater⟩ := hr'.mirrored hm₁
    obtain ⟨n, hn, hf⟩ := hv.abort_fired (hw.beginsWait hb) hv' (.inl (hlater.tasks ▸ hi))
    exact ⟨n, hn, (hlater.exists_iff fun _ _ _ task hm => @World.Mirrors.fires _ _ _ hm task n).2 hf⟩
  case order =>
    rintro ⟨w₁, task₁⟩ he v' ticket' given' g hg
    obtain ⟨before, rest', _, hbefore, -⟩ := hr'.at_task he
    cases hg with
    | intro => exact (hattends before _ hbefore).lt

/-- A wait is decided once, by the first of what can decide it. A notification lets those go who wait, are alive and are
not decided, and wakes them in the order in which they began. -/
theorem wait_decided_once {done : List (World Slots × Task)} {w : World Slots} {task : Task} {rest : List Task}
    (hr : Moment.Reaches {} done ⟨w, task :: rest⟩) :
    (∀ v ticket given f, w.BeginsWait task v ticket given f → ∀ later m,
      Moment.Reaches ⟨(w.step task).1, (w.step task).2 ++ rest⟩ later m → m.FollowsWait later v ticket given f) ∧
    ∀ within name v cv, task = .run within (.notify name) → w.condvar? name = some (v, cv) →
      ∃ released : List Nat, released.Pairwise (· < ·) ∧ (∀ f, f ∈ released ↔ w.Pending v f) ∧
        (∀ f, (w.step task).1.futures.get? f =
          if f ∈ released then (w.futures.get? f).map (·.decide .ok) else w.futures.get? f) ∧
        (w.step task).1.log = (released.filterMap fun f => (w.futures.get? f).bind (·.watcher)).reverse.map .woken ++ w.log := by
  refine ⟨fun v ticket given f hb later m hr' => hr.followsWait hb hr', ?_⟩
  rintro within name v cv rfl hv
  obtain ⟨κ, done', m', hr', hm, -⟩ := hr.sound
  have hq : w.Queued := hr.moves.queued World.queued_empty
  have hl : w.Lined := hm.world.lined hr'.lined.1
  rw [World.step_notify hv]
  refine ⟨w.waiters v, ?_, fun f => hl.mem_waiters hq, fun f => w.future_releaseAll f v .ok, World.log_releaseAll hq hl v .ok⟩
  rw [World.waiters, World.condvar?_eq_some hv]
  exact hl.sorted v cv (World.condvar?_eq_some hv)

/-- A wait that its token's firing aborts before a notification comes, which then releases another one. -/
theorem wait_decided_once_aborted : ∃ done later, ∃ w : World Slots, ∃ task, ∃ m : Moment Slots, ∃ u,
    Moment.Reaches {} done ⟨w, [task]⟩ ∧ w.BeginsWait task 1 0 (some (0, false)) 2 ∧
    Moment.Reaches ⟨(w.step task).1, (w.step task).2 ++ []⟩ later m ∧ m.FollowsWait later 1 0 (some (0, false)) 2 ∧
    m.world.futures.get? 2 = some u ∧ u.outcome = some .aborted ∧ m.tasks = [.run none (.notify ['v'])] ∧
    ∃ released : List Nat, (∀ f, f ∈ released ↔ m.world.Pending 1 f) ∧ 3 ∈ released ∧ 2 ∉ released := by
  obtain ⟨done, hmade⟩ := Moment.reaches_performAll [.token ['t'] none, .condvar ['v']]
  have hwait := hmade.command (.wait ['v'] ['a'] (some ['t']))
  have hother := (Moment.Reaches.refl (m := Moment.mk (World.step (R := Slots)
    (World.performAll {} [.token ['t'] none, .condvar ['v']]) (.run none (.wait ['v'] ['a'] (some ['t'])))).1 [])).command
      (.wait ['v'] ['b'] none)
  have hfire := (hother.task.command (.fire ['t'])).task.task.task
  have hnotify := hfire.command (.notify ['v'])
  have hbegins : (World.performAll {} [.token ['t'] none, .condvar ['v']] : World Slots).BeginsWait
      (.run none (.wait ['v'] ['a'] (some ['t']))) 1 0 (some (0, false)) 2 := @World.BeginsWait.intro _ _ none _ _ _ 1 {} rfl
  have hfollows := (wait_decided_once hwait).1 1 0 (some (0, false)) 2 hbegins _ _ hnotify
  obtain ⟨released, -, hreleased, -⟩ := (wait_decided_once (hwait.task.trans hnotify)).2 none ['v'] 1 _ rfl rfl
  refine ⟨done, _, _, _, _, _, hwait, hbegins, hnotify, hfollows, rfl, hfollows.outcome _ rfl, rfl, released, hreleased, ?_, ?_⟩
  · exact (hreleased 3).2 ⟨_, _, _, rfl, rfl, rfl⟩
  · intro h
    obtain ⟨u, ticket, l, hu, -, ho⟩ := (hreleased 2).1 h
    have houtcome := hfollows.outcome u hu
    rw [ho] at houtcome
    cases houtcome

end Gateway.Signal
