import Gateway.Proofs.Signal.Moment
/-!
# What a task does, move by move

Every task of a run comes down to a few moves (`step_moves`), each of which does one
thing to the world: a callback is registered together with its owner, a firing takes
all callbacks of a token, a future is decided. What holds of a world at all moments is
proved move by move, so nothing else looks at the commands again.

Between the moves of a task a token may be kept by something other than its names and
futures. `Standing` counts these holds, and the callbacks that firings have taken and
not invoked yet.
-/
namespace Gateway.Signal

/-! ## Standings -/

/-- The callback that a task invokes. -/
def Task.callback? : Task → Option Callback
  | .invoke cb => some cb
  | _ => none

/-- The token that a task gives up. -/
def Task.held? : Task → Option Nat
  | .finish held => held
  | _ => none

/-- A world in the middle of a task, with what is not in it: callbacks that are still to be
invoked, and holds that are still to be given up. -/
structure Standing (R : Type → Type) where
  world : World R
  /-- The callbacks that firings have taken and not invoked yet. -/
  due : List Callback
  /-- The tokens that are to be given up, once for each hold. -/
  held : List Nat

/-- What the tasks of a moment are still to invoke and to give up. -/
def Moment.standing {R : Type → Type} (m : Moment R) : Standing R :=
  ⟨m.world, m.tasks.filterMap Task.callback?, m.tasks.filterMap Task.held?⟩

theorem standing_append {R : Type → Type} (w : World R) (tasks rest : List Task) :
    Moment.standing ⟨w, tasks ++ rest⟩ = ⟨w, tasks.filterMap Task.callback? ++ rest.filterMap Task.callback?,
      tasks.filterMap Task.held? ++ rest.filterMap Task.held?⟩ := by
  rw [Moment.standing, List.filterMap_append, List.filterMap_append]

theorem mem_callbacks {tasks : List Task} {cb : Callback} :
    cb ∈ tasks.filterMap Task.callback? ↔ .invoke cb ∈ tasks := by
  rw [List.mem_filterMap]
  refine ⟨fun ⟨t, ht, hcb⟩ => ?_, fun h => ⟨_, h, rfl⟩⟩
  cases t with
  | invoke cb' => exact Option.some.inj hcb ▸ ht
  | run within c => cases hcb
  | finish held => cases hcb

theorem mem_callbacks_done {R : Type → Type} {done : List (World R × Task)} {cb : Callback} :
    cb ∈ done.filterMap (fun e => e.2.callback?) ↔ .invoke cb ∈ done.map (·.2) := by
  rw [← mem_callbacks, List.filterMap_map]
  rfl

theorem callbacks_invoke (cbs : List Callback) (tasks : List Task) :
    (cbs.map Task.invoke ++ tasks).filterMap Task.callback? = cbs ++ tasks.filterMap Task.callback? := by
  rw [List.filterMap_append, List.filterMap_map]
  exact congrArg (· ++ _) List.filterMap_some

theorem held_invoke (cbs : List Callback) (tasks : List Task) :
    (cbs.map Task.invoke ++ tasks).filterMap Task.held? = tasks.filterMap Task.held? := by
  rw [List.filterMap_append, List.filterMap_map]
  exact congrArg (· ++ _) (List.filterMap_eq_nil_iff.2 fun _ _ => rfl)

/-- The commands of a script are neither callbacks nor holds. -/
theorem standing_script {R : Type → Type} (w : World R) (within : Option Name) (script : List Command)
    (rest : List Task) : Moment.standing ⟨w, script.map (Task.run within) ++ rest⟩ = Moment.standing ⟨w, rest⟩ := by
  have hc : (script.map (Task.run within)).filterMap Task.callback? = [] := by
    rw [List.filterMap_map]
    exact List.filterMap_eq_nil_iff.2 fun _ _ => rfl
  have hh : (script.map (Task.run within)).filterMap Task.held? = [] := by
    rw [List.filterMap_map]
    exact List.filterMap_eq_nil_iff.2 fun _ _ => rfl
  rw [standing_append, hc, hh]
  rfl

/-! ## Looking things up -/

section Lookup

variable {R : Type → Type} {w : World R} {name : Name}

theorem World.token?_eq_some {n : Nat} {t : Token R} (h : w.token? name = some (n, t)) :
    w.tokenNames.get? name = some n ∧ w.tokens.get? n = some t := by
  simp only [World.token?, Option.bind_eq_bind, Option.bind_eq_some_iff, Option.pure_def, Option.some.injEq,
    Prod.mk.injEq] at h
  obtain ⟨_, hn, _, ht, rfl, rfl⟩ := h
  exact ⟨hn, ht⟩

theorem World.bind_token?_eq_some {name : Option Name} {n : Nat} {t : Token R}
    (h : name.bind w.token? = some (n, t)) : w.tokens.get? n = some t := by
  cases name with
  | none => cases h
  | some name => exact (World.token?_eq_some h).2

theorem World.condvar?_eq_some {v : Nat} {cv : Condvar Nat} (h : w.condvar? name = some (v, cv)) :
    w.condvars.get? v = some cv := by
  simp only [World.condvar?, Option.bind_eq_bind, Option.bind_eq_some_iff, Option.pure_def, Option.some.injEq,
    Prod.mk.injEq] at h
  obtain ⟨_, -, _, hv, rfl, rfl⟩ := h
  exact hv

theorem World.future?_eq_some {f : Nat} {u : Future} (h : w.future? name = some (f, u)) :
    w.futures.get? f = some u := by
  simp only [World.future?, Option.bind_eq_bind, Option.bind_eq_some_iff, Option.pure_def, Option.some.injEq,
    Prod.mk.injEq] at h
  obtain ⟨_, -, _, hf, rfl, rfl⟩ := h
  exact hf

end Lookup

/-! ## Deeds -/

/-- What a move does that matters to registrations. -/
inductive Deed where
  | register (callback : Callback)
  | invoke (callback : Callback)
  /-- A token is fired, but not by its parent. -/
  | fire (token : Nat)

/-- The callback that is invoked. -/
def Deed.invoked? : Deed → Option Callback
  | .invoke cb => some cb
  | _ => none

section Deeds

variable {R : Type → Type}

/-- The first poll of a future for a firing connects it. -/
def World.pollDeeds (w : World R) (f : Nat) (u : Future) : List Deed :=
  match u.source, u.completed with
  | .firing n none, false => if (w.tokens.get? n).isSome then [.register (.complete f)] else []
  | _, _ => []

/-- What a task does that matters to registrations. -/
def World.deeds (w : World R) : Task → List Deed
  | .run _ (.token _ parent) =>
    match parent.bind w.token? with
    | some _ => [.register (.fireChild w.next)]
    | none => []
  | .run _ (.fire name) =>
    match w.token? name with
    | some (n, _) => [.fire n]
    | none => []
  | .run _ (.connect token name script) =>
    match w.token? token with
    | some _ => [.register (.script w.next name script)]
    | none => []
  | .run _ (.wait condvar _ token) =>
    match w.condvar? condvar, token.bind w.token? with
    | some (v, cv), some _ => [.register (.abortWait v cv.nextTicket)]
    | _, _ => []
  | .run _ (.poll name) =>
    match w.future? name with
    | some (f, u) => w.pollDeeds f u
    | none => []
  | .run _ _ => []
  | .invoke cb => [.invoke cb]
  | .finish _ => []

theorem World.invoked_deeds (w : World R) (t : Task) : (w.deeds t).filterMap Deed.invoked? = t.callback?.toList := by
  cases t with
  | run within c =>
    cases c with
    | token name parent =>
      unfold deeds
      dsimp only
      split <;> rfl
    | fire name | connect token name script | wait condvar name token =>
      unfold deeds
      dsimp only
      split <;> rfl
    | poll name =>
      unfold deeds pollDeeds
      dsimp only
      split
      · split
        · split <;> rfl
        · rfl
      · rfl
    | _ => rfl
  | invoke cb => rfl
  | finish held => rfl

/-- What the tasks of a run did that matters to registrations. -/
def deedsOf (done : List (World R × Task)) : List Deed := done.flatMap fun e => e.1.deeds e.2

theorem Deed.filterMap_deedsOf {α : Type} {p : Deed → Option α} {q : Task → Option α}
    (h : ∀ (w : World R) (t : Task), (w.deeds t).filterMap p = (q t).toList) (done : List (World R × Task)) :
    (deedsOf done).filterMap p = done.filterMap fun e => q e.2 := by
  induction done with
  | nil => rfl
  | cons e done ih =>
    rw [deedsOf, List.flatMap_cons, List.filterMap_append, h, ← deedsOf, ih, List.filterMap_cons]
    cases q e.2 <;> rfl

/-- The callbacks that were invoked are those that tasks invoked. -/
theorem mem_deedsOf {done : List (World R × Task)} {cb : Callback} :
    .invoke cb ∈ deedsOf done ↔ .invoke cb ∈ done.map (·.2) := by
  have hdeed : .invoke cb ∈ deedsOf done ↔ cb ∈ (deedsOf done).filterMap Deed.invoked? := by
    rw [List.mem_filterMap]
    refine ⟨fun h => ⟨_, h, rfl⟩, fun ⟨d, hd, hcb⟩ => ?_⟩
    cases d with
    | invoke cb' => exact Option.some.inj hcb ▸ hd
    | register cb' => cases hcb
    | fire n => cases hcb
  rw [hdeed, Deed.filterMap_deedsOf World.invoked_deeds, mem_callbacks_done]

end Deeds

/-! ## Moves -/

namespace World

variable {R : Type → Type} [Registry R]

/-- A new token that fires with the token `p`. -/
def addChild (w : World R) (p : Nat) (t : Token R) : World R :=
  let (w', link) := { w with next := w.next + 1 }.register p t (.fireChild w.next)
  let child : Token R := { registry := Registry.empty, parent := some link, count := if t.isFired then 1 else 0 }
  { w' with tokens := w'.tokens.insert w.next child }

/-- A new connection to the token `n`. -/
def addConnection (w : World R) (n : Nat) (t : Token R) (name : Name) (script : List Command) : World R :=
  let (w', link) := { w with next := w.next + 1 }.register n t (.script w.next name script)
  { w' with connections := w'.connections.insert w.next { link := link } }

/-- A new wait that no firing aborts. -/
def addWait (w : World R) (v : Nat) (cv : Condvar Nat) : World R :=
  { w with
    next := w.next + 1
    condvars := w.condvars.insert v (cv.register w.next).1
    futures := w.futures.insert w.next { source := .wait v cv.nextTicket none } }

/-- A new wait that is connected to the token `n`. -/
def addWaitTo (w : World R) (v : Nat) (cv : Condvar Nat) (n : Nat) (t : Token R) : World R :=
  let (w', link) := { w with next := w.next + 1, condvars := w.condvars.insert v (cv.register w.next).1 }.register
    n t (.abortWait v cv.nextTicket)
  { w' with futures := w'.futures.insert w.next { source := .wait v cv.nextTicket (some link) } }

/-- A new wait that a firing of the token `n` aborts. -/
def addWaitFor (w : World R) (v : Nat) (cv : Condvar Nat) (n : Nat) (t : Token R) : World R :=
  let w' := w.addWaitTo v cv n t
  if t.isFired then w'.abortWait v cv.nextTicket else w'

/-- A future for the firing of the token `n` is connected to it. -/
def watchFiring (w : World R) (f : Nat) (u : Future) (n : Nat) (t : Token R) (name : Name) : World R :=
  let (w', link) := w.register n t (.complete f)
  { w' with futures := w'.futures.insert f { u with source := .firing n (some link), watcher := some name } }

/-- A future for the firing of the token `n` finds that the token has fired. -/
def findFired (w : World R) (f : Nat) (u : Future) (n : Nat) (t : Token R) : World R :=
  let (w', link) := w.register n t (.complete f)
  { w'.unlink link with futures := w'.futures.insert f { u with completed := true } }

end World

variable {R : Type → Type} [Registry R]

/-- One thing that is done to a world, with the callbacks that it registers or invokes. What a
firing takes becomes due, and only what is due is invoked; a hold that a name or a future had
is given up by a move of its own. -/
inductive Move : Standing R → List Deed → Standing R → Prop where
  | note {w : World R} {d h} (e : Event) : Move ⟨w, d, h⟩ [] ⟨w.note e, d, h⟩
  | rename {w : World R} {d h} (cs vs fs : Table Name Nat) :
    Move ⟨w, d, h⟩ [] ⟨{ w with connectionNames := cs, condvarNames := vs, futureNames := fs }, d, h⟩
  /-- A name takes the place of something else that held a token. -/
  | nameToken {w : World R} {d h} (name : Name) (n : Nat) :
    Move ⟨w, d, n :: h⟩ []
      ⟨{ w with tokenNames := w.tokenNames.insert name n }, d, (w.tokenNames.get? name).toList ++ h⟩
  | unnameToken {w : World R} {d h} {name : Name} {n : Nat} (hn : w.tokenNames.get? name = some n) :
    Move ⟨w, d, h⟩ [] ⟨{ w with tokenNames := w.tokenNames.erase name }, d, n :: h⟩
  | hold {w : World R} {d h} {n : Nat} {t : Token R} (hn : w.tokens.get? n = some t) :
    Move ⟨w, d, h⟩ [] ⟨w.hold n, d, n :: h⟩
  | release {w : World R} {d h} (n : Nat) : Move ⟨w, d, n :: h⟩ [] ⟨w.release n, d, h⟩
  | makeToken {w : World R} {d h} :
    Move ⟨w, d, h⟩ []
      ⟨{ w with next := w.next + 1, tokens := w.tokens.insert w.next { registry := Registry.empty } }, d, w.next :: h⟩
  | makeChild {w : World R} {d h} {p : Nat} {t : Token R} (hp : w.tokens.get? p = some t) :
    Move ⟨w, d, h⟩ [.register (.fireChild w.next)] ⟨w.addChild p t, d, w.next :: h⟩
  | fire {w : World R} {d h} (n : Nat) :
    Move ⟨w, d, h⟩ [.fire n] ⟨(w.takeAll n).1, (w.takeAll n).2 ++ d, h⟩
  | fireChild {w : World R} {d h} (n : Nat) :
    Move ⟨w, .fireChild n :: d, h⟩ [.invoke (.fireChild n)] ⟨(w.takeAll n).1, (w.takeAll n).2 ++ d, h⟩
  | call {w : World R} {d h} (c : Nat) (name : Name) (script : List Command) :
    Move ⟨w, .script c name script :: d, h⟩ [.invoke (.script c name script)]
      ⟨{ w with connections := w.connections.modify c fun k => { k with count := k.count + 1 } }, d, h⟩
  | abort {w : World R} {d h} (v ticket : Nat) :
    Move ⟨w, .abortWait v ticket :: d, h⟩ [.invoke (.abortWait v ticket)] ⟨w.abortWait v ticket, d, h⟩
  | complete {w : World R} {d h} (f : Nat) :
    Move ⟨w, .complete f :: d, h⟩ [.invoke (.complete f)] ⟨w.deliver f .ok, d, h⟩
  | connect {w : World R} {d h} {n : Nat} {t : Token R} (hn : w.tokens.get? n = some t) (name : Name)
    (script : List Command) :
    Move ⟨w, d, h⟩ [.register (.script w.next name script)] ⟨w.addConnection n t name script, d, h⟩
  | dropConnection {w : World R} {d h} (c : Nat) : Move ⟨w, d, h⟩ [] ⟨w.dropConnection c, d, h⟩
  | makeCondvar {w : World R} {d h} :
    Move ⟨w, d, h⟩ [] ⟨{ w with next := w.next + 1, condvars := w.condvars.insert w.next {} }, d, h⟩
  | dropCondvar {w : World R} {d h} (v : Nat) : Move ⟨w, d, h⟩ [] ⟨w.dropCondvar v, d, h⟩
  | notify {w : World R} {d h} (v : Nat) : Move ⟨w, d, h⟩ [] ⟨w.releaseAll v .ok, d, h⟩
  | wait {w : World R} {d h} {v : Nat} {cv : Condvar Nat} (hv : w.condvars.get? v = some cv) :
    Move ⟨w, d, h⟩ [] ⟨w.addWait v cv, d, h⟩
  | waitFor {w : World R} {d h} {v : Nat} {cv : Condvar Nat} {n : Nat} {t : Token R}
    (hv : w.condvars.get? v = some cv) (hn : w.tokens.get? n = some t) :
    Move ⟨w, d, h⟩ [.register (.abortWait v cv.nextTicket)] ⟨w.addWaitFor v cv n t, d, h⟩
  | endWait {w : World R} {d h} {f : Nat} {u : Future} {v ticket : Nat} {l : Option Link} {o : Outcome}
    (hf : w.futures.get? f = some u) (hs : u.source = .wait v ticket l) (ho : u.outcome = some o) :
    Move ⟨w, d, h⟩ [] ⟨{ w with futures := w.futures.insert f { u with completed := true } }, d, h⟩
  | dropWait {w : World R} {d h} {f : Nat} {u : Future} {v ticket : Nat} {l : Option Link}
    (hf : w.futures.get? f = some u) (hs : u.source = .wait v ticket l) :
    Move ⟨w, d, h⟩ [] ⟨w.dropFuture f, d, h⟩
  /-- A future for the firing of a token that is held for it. -/
  | cancelled {w : World R} {d h} (n : Nat) :
    Move ⟨w, d, n :: h⟩ []
      ⟨{ w with next := w.next + 1, futures := w.futures.insert w.next { source := .firing n none } }, d, h⟩
  | watch {w : World R} {d h} {f : Nat} {u : Future} (hf : w.futures.get? f = some u) (name : Name) :
    Move ⟨w, d, h⟩ [] ⟨{ w with futures := w.futures.insert f { u with watcher := some name } }, d, h⟩
  | watchFiring {w : World R} {d h} {f : Nat} {u : Future} {n : Nat} {t : Token R} (hf : w.futures.get? f = some u)
    (hs : u.source = .firing n none) (hc : u.completed = false) (hn : w.tokens.get? n = some t)
    (ht : t.isFired = false) (name : Name) :
    Move ⟨w, d, h⟩ [.register (.complete f)] ⟨w.watchFiring f u n t name, d, h⟩
  | findFired {w : World R} {d h} {f : Nat} {u : Future} {n : Nat} {t : Token R} (hf : w.futures.get? f = some u)
    (hs : u.source = .firing n none) (hc : u.completed = false) (hn : w.tokens.get? n = some t)
    (ht : t.isFired = true) :
    Move ⟨w, d, h⟩ [.register (.complete f)] ⟨w.findFired f u n t, d, n :: h⟩
  | endFiring {w : World R} {d h} {f : Nat} {u : Future} {n : Nat} {l : Link} {o : Outcome}
    (hf : w.futures.get? f = some u) (hs : u.source = .firing n (some l)) (ho : u.outcome = some o)
    (hc : u.completed = false) :
    Move ⟨w, d, h⟩ [] ⟨{ w.unlink l with futures := w.futures.insert f { u with completed := true } }, d, n :: h⟩
  | dropEnded {w : World R} {d h} {f : Nat} {u : Future} {n : Nat} {l : Option Link}
    (hf : w.futures.get? f = some u) (hs : u.source = .firing n l) (hc : u.completed = true) :
    Move ⟨w, d, h⟩ [] ⟨{ w with futures := w.futures.erase f }, d, h⟩
  | dropFiring {w : World R} {d h} {f : Nat} {u : Future} {n : Nat} {l : Option Link}
    (hf : w.futures.get? f = some u) (hs : u.source = .firing n l) (hc : u.completed = false) :
    Move ⟨w, d, h⟩ [] ⟨{ w with futures := w.futures.erase f }.unlink? l, d, n :: h⟩

/-- One move after another, with all that they register and invoke, in order. -/
inductive Moves (a : Standing R) : List Deed → Standing R → Prop where
  | refl : Moves a [] a
  | move {ds ds' : List Deed} {b c : Standing R} (h : Moves a ds b) (hm : Move b ds' c) : Moves a (ds ++ ds') c

namespace Moves

variable {a b c : Standing R} {ds ds' : List Deed}

theorem one (h : Move a ds b) : Moves a ds b := .move .refl h

theorem trans (h : Moves a ds b) (h' : Moves b ds' c) : Moves a (ds ++ ds') c := by
  induction h' with
  | refl => rwa [List.append_nil]
  | move _ hm ih =>
    rw [← List.append_assoc]
    exact .move ih hm

/-- A move that does nothing to registrations, in front of others. -/
theorem cons (h : Move a [] b) (h' : Moves b ds c) : Moves a ds c := (one h).trans h'

end Moves

/-! ## Names -/

variable {w : World R} {d : List Callback} {h : List Nat}

theorem moves_nameToken (w : World R) (d : List Callback) (h : List Nat) (name : Name) (n : Nat) :
    Moves ⟨w, d, n :: h⟩ [] ⟨w.nameToken name n, d, h⟩ := by
  have hname := Moves.one (Move.nameToken (w := w) (d := d) (h := h) name n)
  unfold World.nameToken
  cases hm : w.tokenNames.get? name with
  | none =>
    rw [hm] at hname
    exact hname
  | some m =>
    rw [hm] at hname
    exact hname.move (.release m)

theorem moves_nameConnection (w : World R) (d : List Callback) (h : List Nat) (name : Name) (c : Nat) :
    Moves ⟨w, d, h⟩ [] ⟨w.nameConnection name c, d, h⟩ := by
  have hname := Moves.one (Move.rename (w := w) (d := d) (h := h) (w.connectionNames.insert name c) w.condvarNames
    w.futureNames)
  unfold World.nameConnection
  cases w.connectionNames.get? name with
  | none => exact hname
  | some c' => exact hname.move (.dropConnection c')

theorem moves_nameCondvar (w : World R) (d : List Callback) (h : List Nat) (name : Name) (v : Nat) :
    Moves ⟨w, d, h⟩ [] ⟨w.nameCondvar name v, d, h⟩ := by
  have hname := Moves.one (Move.rename (w := w) (d := d) (h := h) w.connectionNames (w.condvarNames.insert name v)
    w.futureNames)
  unfold World.nameCondvar
  cases w.condvarNames.get? name with
  | none => exact hname
  | some v' => exact hname.move (.dropCondvar v')

theorem moves_dropFuture (w : World R) (d : List Callback) (h : List Nat) (f : Nat) :
    Moves ⟨w, d, h⟩ [] ⟨w.dropFuture f, d, h⟩ := by
  cases hf : w.futures.get? f with
  | none =>
    rw [World.dropFuture, hf]
    exact .refl
  | some u =>
    cases hs : u.source with
    | wait v ticket l => exact .one (.dropWait hf hs)
    | firing n l =>
      rw [World.dropFuture, hf]
      simp only [hs]
      cases hc : u.completed with
      | true => exact .one (.dropEnded hf hs hc)
      | false => exact (Moves.one (.dropFiring hf hs hc)).move (.release n)

theorem moves_nameFuture (w : World R) (d : List Callback) (h : List Nat) (name : Name) (f : Nat) :
    Moves ⟨w, d, h⟩ [] ⟨w.nameFuture name f, d, h⟩ := by
  have hname := Moves.one (Move.rename (w := w) (d := d) (h := h) w.connectionNames w.condvarNames
    (w.futureNames.insert name f))
  unfold World.nameFuture
  cases w.futureNames.get? name with
  | none => exact hname
  | some f' => exact hname.trans (moves_dropFuture _ d h f')

/-! ## Commands -/

theorem moves_makeToken (w : World R) (d : List Callback) (h : List Nat) (within : Option Name) (name : Name)
    (parent : Option Name) :
    Moves ⟨w, d, h⟩ (w.deeds (.run within (.token name parent))) ⟨w.makeToken name parent, d, h⟩ := by
  unfold World.deeds World.makeToken
  dsimp only
  cases hp : parent.bind w.token? with
  | none =>
    rw [show parent.bind ({ w with next := w.next + 1 } : World R).token? = none from hp]
    exact .cons .makeToken (moves_nameToken _ d h name w.next)
  | some p =>
    rw [show parent.bind ({ w with next := w.next + 1 } : World R).token? = some p from hp]
    exact (Moves.one (.makeChild (World.bind_token?_eq_some hp))).trans (moves_nameToken _ d h name w.next)

theorem moves_makeWait (w : World R) (d : List Callback) (h : List Nat) {v : Nat} {cv : Condvar Nat}
    (hv : w.condvars.get? v = some cv) (name : Name) (token : Option Name) :
    Moves ⟨w, d, h⟩ (match token.bind w.token? with | some _ => [.register (.abortWait v cv.nextTicket)] | none => [])
      ⟨w.makeWait v cv name (token.bind w.token?), d, h⟩ := by
  unfold World.makeWait
  cases hn : token.bind w.token? with
  | none => exact .cons (.wait hv) (moves_nameFuture _ d h name w.next)
  | some n => exact (Moves.one (.waitFor hv (World.bind_token?_eq_some hn))).trans (moves_nameFuture _ d h name w.next)

theorem moves_pollFuture (w : World R) (d : List Callback) (h : List Nat) (name : Name) {f : Nat} {u : Future}
    (hf : w.futures.get? f = some u) :
    Moves ⟨w, d, h⟩ (w.pollDeeds f u) ⟨(w.pollFuture name f u).1, d, h⟩ := by
  obtain ⟨source, outcome, watcher, completed⟩ := u
  unfold World.pollFuture World.pollDeeds
  cases completed with
  | true => rcases source with ⟨n, _ | l⟩ | _ <;> exact .refl
  | false =>
    cases source with
    | wait v ticket l =>
      rcases outcome with _ | _ | _
      · exact .one (.watch hf name)
      · exact .one (.endWait hf rfl rfl)
      · exact .one (.endWait hf rfl rfl)
    | firing n l =>
      rcases l with _ | l
      · dsimp only
        cases hn : w.tokens.get? n with
        | none => exact .refl
        | some t =>
          dsimp only
          cases ht : t.isFired with
          | true => exact (Moves.one (.findFired hf rfl rfl hn ht)).move (.release n)
          | false => exact .one (.watchFiring hf rfl rfl hn ht name)
      · rcases outcome with _ | o
        · exact .one (.watch hf name)
        · exact (Moves.one (.endFiring hf rfl rfl rfl)).move (.release n)

theorem moves_unnameToken (w : World R) (d : List Callback) (h : List Nat) (name : Name) :
    Moves ⟨w, d, h⟩ [] ⟨match w.tokenNames.get? name with
      | some n => { w with tokenNames := w.tokenNames.erase name }.release n
      | none => w, d, h⟩ := by
  cases hn : w.tokenNames.get? name with
  | none => exact .refl
  | some n => exact (Moves.one (.unnameToken hn)).move (.release n)

theorem moves_unnameConnection (w : World R) (d : List Callback) (h : List Nat) (name : Name) (c : Option Nat) :
    Moves ⟨w, d, h⟩ [] ⟨match c with
      | some c => { w with connectionNames := w.connectionNames.erase name }.dropConnection c
      | none => w, d, h⟩ := by
  cases c with
  | none => exact .refl
  | some c => exact (Moves.one (.rename _ w.condvarNames w.futureNames)).move (.dropConnection c)

theorem moves_unnameCondvar (w : World R) (d : List Callback) (h : List Nat) (name : Name) (v : Option Nat) :
    Moves ⟨w, d, h⟩ [] ⟨match v with
      | some v => { w with condvarNames := w.condvarNames.erase name }.dropCondvar v
      | none => w, d, h⟩ := by
  cases v with
  | none => exact .refl
  | some v => exact (Moves.one (.rename w.connectionNames _ w.futureNames)).move (.dropCondvar v)

theorem moves_unnameFuture (w : World R) (d : List Callback) (h : List Nat) (name : Name) (f : Option Nat) :
    Moves ⟨w, d, h⟩ [] ⟨match f with
      | some f => { w with futureNames := w.futureNames.erase name }.dropFuture f
      | none => w, d, h⟩ := by
  cases f with
  | none => exact .refl
  | some f => exact .cons (.rename w.connectionNames w.condvarNames _) (moves_dropFuture _ d h f)

theorem moves_dropNamed (w : World R) (d : List Callback) (h : List Nat) (name : Name) :
    Moves ⟨w, d, h⟩ [] ⟨(w.dropNamed name).1, d, h⟩ :=
  (((moves_unnameToken w d h name).trans (moves_unnameConnection _ d h name _)).trans
    (moves_unnameCondvar _ d h name _)).trans (moves_unnameFuture _ d h name _)

theorem moves_execute (w : World R) (d : List Callback) (h : List Nat) (within : Option Name) (c : Command) :
    Moves ⟨w, d, h⟩ (w.deeds (.run within c)) ⟨(w.execute c).1, (w.execute c).2.1.filterMap Task.callback? ++ d,
      (w.execute c).2.1.filterMap Task.held? ++ h⟩ := by
  unfold World.execute
  cases c with
  | token name parent => exact moves_makeToken w d h within name parent
  | fire name =>
    unfold World.deeds
    dsimp only
    cases hn : w.token? name with
    | none => exact .refl
    | some n =>
      dsimp only
      rw [callbacks_invoke, held_invoke, List.append_assoc]
      exact .cons (.hold (World.token?_eq_some hn).2) (.one (.fire n.1))
  | connect token name script =>
    unfold World.deeds
    dsimp only
    cases hn : w.token? token with
    | none => exact .refl
    | some n =>
      exact (Moves.one (.connect (World.token?_eq_some hn).2 name script)).trans (moves_nameConnection _ d h name w.next)
  | cancelled token name =>
    unfold World.deeds
    dsimp only
    cases hn : w.token? token with
    | none => exact .refl
    | some n =>
      exact .cons (.hold (World.token?_eq_some hn).2) (.cons (.cancelled n.1) (moves_nameFuture _ d h name w.next))
  | condvar name => exact .cons .makeCondvar (moves_nameCondvar _ d h name w.next)
  | notify name =>
    unfold World.deeds
    dsimp only
    cases w.condvar? name with
    | none => exact .refl
    | some v => exact .one (.notify v.1)
  | wait condvar name token =>
    unfold World.deeds
    dsimp only
    cases hv : w.condvar? condvar with
    | none => exact .refl
    | some v =>
      have hwait := moves_makeWait w d h (World.condvar?_eq_some hv) name token
      cases hn : token.bind w.token? with
      | none =>
        rw [hn] at hwait
        exact hwait
      | some n =>
        rw [hn] at hwait
        exact hwait
  | poll name =>
    unfold World.deeds
    dsimp only
    cases hf : w.future? name with
    | none => exact .refl
    | some f => exact moves_pollFuture w d h name (World.future?_eq_some hf)
  | drop name => exact moves_dropNamed w d h name
  | inspect name => exact .refl
  | unknown => exact .refl

/-! ## Tasks -/

theorem moves_noteResult (w : World R) (d : List Callback) (h : List Nat) (within : Option Name) (result : Result) :
    Moves ⟨w, d, h⟩ [] ⟨w.noteResult within result, d, h⟩ := by
  unfold World.noteResult
  cases within with
  | none => exact .refl
  | some name =>
    dsimp only
    split
    · exact .refl
    · exact .one (.note _)

/-- Every task comes down to moves. -/
theorem step_moves (w : World R) (t : Task) (rest : List Task) :
    Moves (Moment.standing ⟨w, t :: rest⟩) (w.deeds t) (Moment.standing ⟨(w.step t).1, (w.step t).2 ++ rest⟩) := by
  cases t with
  | run within c =>
    have hexec := moves_execute w (rest.filterMap Task.callback?) (rest.filterMap Task.held?) within c
    have hnote := hexec.trans (moves_noteResult _ _ _ within (w.execute c).2.2)
    rw [standing_append]
    rwa [List.append_nil] at hnote
  | invoke cb =>
    cases cb with
    | script c name script =>
      unfold World.step
      dsimp only
      rw [standing_script]
      exact (Moves.one (.call c name script)).move (.note _)
    | fireChild n =>
      have hfire := Moves.one (Move.fireChild (w := w) (d := rest.filterMap Task.callback?)
        (h := rest.filterMap Task.held?) n)
      unfold World.step
      dsimp only
      cases hn : w.tokens.get? n with
      | none =>
        rw [World.takeAll, hn] at hfire
        exact hfire
      | some t =>
        dsimp only
        rw [standing_append, callbacks_invoke, held_invoke, List.append_assoc]
        exact hfire
    | abortWait v ticket => exact .one (.abort v ticket)
    | complete f => exact .one (.complete f)
  | finish held =>
    cases held with
    | none => exact .refl
    | some n => exact .one (.release n)

/-! ## Runs -/

theorem Moment.Reaches.moves {m m' : Moment R} {done : List (World R × Task)} (hr : m.Reaches done m') :
    Moves m.standing (deedsOf done) m'.standing := by
  induction hr with
  | refl => exact .refl
  | command _ c ih => exact ih
  | @task done w t rest _ ih =>
    rw [deedsOf, List.flatMap_append, List.flatMap_singleton]
    exact ih.trans (step_moves w t rest)

end Gateway.Signal
