import Mathlib.Algebra.Order.BigOperators.Group.List
import Mathlib.Algebra.Order.Group.Nat
import Gateway.Proofs.Signal.Mirror
import Gateway.Proofs.Signal.Lookup
import Gateway.Proofs.Signal.Move
/-!
# Runs come to an end

Every task uses up weight: what it leaves to do and all that is then connected weigh less
than it did and all that was connected before (`World.fuel_step`). So the fuel that
`World.perform` gives to a run is enough, and nothing is left to do afterwards
(`Moment.reaches_perform`), however deeply firings nest.
-/
namespace Gateway.Signal

theorem weigh_cons (cb : Callback) (cbs : List Callback) : weigh (cb :: cbs) = cb.weight + weigh cbs := rfl

theorem weigh_singleton (cb : Callback) : weigh [cb] = cb.weight := rfl

theorem weigh_append (cbs cbs' : List Callback) : weigh (cbs ++ cbs') = weigh cbs + weigh cbs' := by
  rw [weigh, List.map_append, List.sum_append, weigh, weigh]

/-! ## What is connected -/

/-- The weight of what is connected to a token. -/
def Token.weight (t : Token Arrivals) : Nat := weigh (Registry.toList t.registry)

/-- The callback that is registered. -/
def Deed.registered? : Deed → Option Callback
  | .register cb => some cb
  | _ => none

namespace World

variable {w : World Arrivals}

theorem weight_register {n : Nat} {t : Token Arrivals} (hn : w.tokens.get? n = some t) (cb : Callback) :
    (w.register n t cb).1.weight = w.weight + cb.weight := by
  have hsum : (w.register n t cb).1.weight + t.weight =
      w.weight + Token.weight { t with registry := (Registry.insert t.registry cb).1 } := Table.sum_insert hn _
  have ht : Token.weight { t with registry := (Registry.insert t.registry cb).1 } = t.weight + cb.weight := by
    show weigh ((t.registry.list ++ [(t.registry.count, cb)]).map Prod.snd) = weigh (t.registry.list.map Prod.snd) + _
    rw [List.map_append, weigh_append]
    rfl
  omega

theorem weight_unlink_le (w : World Arrivals) (l : Link) : (w.unlink l).weight ≤ w.weight := by
  refine Table.sum_modify_le w.tokens Token.weight l.token fun t => ?_
  exact ((List.filter_sublist.map _).map _).sum_le_sum fun _ _ => Nat.zero_le _

theorem weight_unlink?_le (w : World Arrivals) (l : Option Link) : (w.unlink? l).weight ≤ w.weight := by
  cases l with
  | none => exact Nat.le_refl _
  | some l => exact w.weight_unlink_le l

theorem weight_hold_le (w : World Arrivals) (n : Nat) : (w.hold n).weight ≤ w.weight :=
  Table.sum_modify_le w.tokens Token.weight n fun _ => Nat.le_refl _

theorem weight_release_le (w : World Arrivals) (n : Nat) : (w.release n).weight ≤ w.weight := by
  unfold release
  cases hn : w.tokens.get? n with
  | none => exact Nat.le_refl _
  | some t =>
    dsimp only
    split
    · exact Nat.le_trans (weight_unlink?_le _ t.parent) (Table.sum_erase_le w.tokens Token.weight n)
    · have hsum := Table.sum_insert (f := Token.weight) hn { t with holders := t.holders - 1 }
      exact Nat.le_of_eq (Nat.add_right_cancel hsum)

/-- What a firing takes is no longer connected. -/
theorem weight_takeAll (w : World Arrivals) (n : Nat) : (w.takeAll n).1.weight + weigh (w.takeAll n).2 = w.weight := by
  unfold takeAll
  cases hn : w.tokens.get? n with
  | none => rfl
  | some t =>
    have hsum := Table.sum_insert (f := Token.weight) hn
      { t with count := t.count + 1, registry := Registry.clear t.registry }
    exact hsum

theorem weight_congr {w' : World Arrivals} (h : w'.tokens = w.tokens) : w'.weight = w.weight := by
  rw [weight, weight, h]

theorem Decides.weight {p : Nat → Prop} [DecidablePred p] {o : Outcome} {w' : World Arrivals} (h : Decides p o w w') :
    w'.weight = w.weight :=
  weight_congr h.tokens

theorem weight_dropConnection_le (w : World Arrivals) (c : Nat) : (w.dropConnection c).weight ≤ w.weight := by
  unfold dropConnection
  cases w.connections.get? c with
  | none => exact Nat.le_refl _
  | some k => exact weight_unlink_le _ k.link

theorem weight_dropFuture_wait_le {f v ticket : Nat} {u : Future} {l : Option Link} (hf : w.futures.get? f = some u)
    (hs : u.source = .wait v ticket l) : (w.dropFuture f).weight ≤ w.weight := by
  rw [dropFuture, hf]
  simp only [hs]
  refine Nat.le_trans (weight_unlink?_le _ l) (Nat.le_of_eq ?_)
  exact (w.decides_abortWait v ticket).weight

end World

/-! ## Moves -/

/-- The weight of what is connected or due. -/
def Standing.load (a : Standing Arrivals) : Nat := a.world.weight + weigh a.due

section Load

variable {w w' : World Arrivals} {d : List Callback} {h h' : List Nat}

theorem Standing.load_le (hw : w'.weight ≤ w.weight) : Standing.load ⟨w', d, h'⟩ ≤ Standing.load ⟨w, d, h⟩ :=
  Nat.add_le_add_right hw _

theorem Standing.load_invoke (cb : Callback) (hw : w'.weight ≤ w.weight) :
    Standing.load ⟨w', d, h'⟩ + weigh [cb] ≤ Standing.load ⟨w, cb :: d, h⟩ := by
  simp only [load, weigh_cons cb d, weigh_singleton]
  omega

theorem Standing.load_register (cb : Callback) (hw : w'.weight ≤ w.weight + cb.weight) :
    Standing.load ⟨w', d, h'⟩ ≤ Standing.load ⟨w, d, h⟩ + weigh [cb] := by
  simp only [load, weigh_singleton]
  omega

/-- What a firing takes was connected before, and is due then. -/
theorem Standing.load_takeAll (w : World Arrivals) (n : Nat) (d : List Callback) (h : List Nat) :
    Standing.load ⟨(w.takeAll n).1, (w.takeAll n).2 ++ d, h⟩ = Standing.load ⟨w, d, h⟩ := by
  have htake := w.weight_takeAll n
  simp only [load, weigh_append]
  omega

end Load

/-- What is invoked is not connected or due any more, and nothing is but what was registered. -/
theorem Move.load {a b : Standing Arrivals} {ds : List Deed} (hm : Move a ds b) :
    b.load + weigh (ds.filterMap Deed.invoked?) ≤ a.load + weigh (ds.filterMap Deed.registered?) := by
  cases hm with
  | note | rename | nameToken | unnameToken | makeCondvar | wait | endWait | cancelled | watch | dropEnded =>
    exact Nat.le_refl _
  | @hold w d h n => exact Standing.load_le (w.weight_hold_le n)
  | @release w d h n => exact Standing.load_le (w.weight_release_le n)
  | @makeToken w d h => exact Standing.load_le (Table.sum_insert_le w.tokens Token.weight w.next _)
  | @makeChild w d h p t hp =>
    refine Standing.load_register _ (Nat.le_trans (Table.sum_insert_le _ Token.weight w.next _) ?_)
    exact Nat.le_of_eq (World.weight_register (w := { w with next := w.next + 1 }) hp (.fireChild w.next))
  | @fire w d h n => exact Nat.le_of_eq (Standing.load_takeAll w n d h)
  | @fireChild w d h n =>
    have hinvoke : Standing.load ⟨w, d, h⟩ + weigh [.fireChild n] ≤ Standing.load ⟨w, .fireChild n :: d, h⟩ :=
      Standing.load_invoke (.fireChild n) (Nat.le_refl _)
    rw [← Standing.load_takeAll w n d h] at hinvoke
    exact hinvoke
  | @call w d h c name script => exact Standing.load_invoke _ (Nat.le_refl _)
  | @abort w d h v ticket => exact Standing.load_invoke _ (Nat.le_of_eq (w.decides_abortWait v ticket).weight)
  | @complete w d h f => exact Standing.load_invoke _ (Nat.le_of_eq (w.decides_deliver f .ok).weight)
  | @connect w d h n t hn name script =>
    exact Standing.load_register _ (Nat.le_of_eq (World.weight_register (w := { w with next := w.next + 1 }) hn _))
  | @dropConnection w d h c => exact Standing.load_le (w.weight_dropConnection_le c)
  | @dropCondvar w d h v => exact Standing.load_le (Nat.le_of_eq (w.decides_dropCondvar v).weight)
  | @notify w d h v => exact Standing.load_le (Nat.le_of_eq (w.decides_releaseAll v .ok).weight)
  | @waitFor w d h v cv n t hv hn =>
    have hadd : (w.addWaitTo v cv n t).weight = w.weight + (Callback.abortWait v cv.nextTicket).weight :=
      World.weight_register (w := { w with next := _, condvars := _ }) hn _
    refine Standing.load_register _ (Nat.le_of_eq ?_)
    unfold World.addWaitFor
    dsimp only
    split
    · exact ((w.addWaitTo v cv n t).decides_abortWait v cv.nextTicket).weight.trans hadd
    · exact hadd
  | @dropWait w d h f u v ticket l hf hs => exact Standing.load_le (World.weight_dropFuture_wait_le hf hs)
  | @watchFiring w d h f u n t hf hs hc hn ht name => exact Standing.load_register _ (Nat.le_of_eq (World.weight_register hn _))
  | @findFired w d h f u n t hf hs hc hn ht =>
    exact Standing.load_register _ (Nat.le_trans (World.weight_unlink_le _ _) (Nat.le_of_eq (World.weight_register hn _)))
  | @endFiring w d h f u n l o hf hs ho hc => exact Standing.load_le (w.weight_unlink_le l)
  | @dropFiring w d h f u n l hf hs hc => exact Standing.load_le (World.weight_unlink?_le _ l)

theorem Moves.load {a b : Standing Arrivals} {ds : List Deed} (hm : Moves a ds b) :
    b.load + weigh (ds.filterMap Deed.invoked?) ≤ a.load + weigh (ds.filterMap Deed.registered?) := by
  induction hm with
  | refl => exact Nat.le_refl _
  | move _ hm ih =>
    have hmove := hm.load
    rw [List.filterMap_append, List.filterMap_append, weigh_append, weigh_append]
    omega

/-! ## Tasks -/

/-- The weight of what is left to do besides invoking callbacks. -/
def otherwise (tasks : List Task) : Nat := Task.weights (tasks.filter fun t => t.callback?.isNone)

theorem Task.weights_eq (tasks : List Task) :
    Task.weights tasks = weigh (tasks.filterMap Task.callback?) + otherwise tasks := by
  induction tasks with
  | nil => rfl
  | cons t tasks ih =>
    cases t with
    | invoke cb =>
      show cb.weight + Task.weights tasks = cb.weight + weigh (tasks.filterMap Task.callback?) + otherwise tasks
      omega
    | run within c =>
      show c.weight + Task.weights tasks = weigh (tasks.filterMap Task.callback?) + (c.weight + otherwise tasks)
      omega
    | finish held =>
      show 1 + Task.weights tasks = weigh (tasks.filterMap Task.callback?) + (1 + otherwise tasks)
      omega

theorem otherwise_firing (cbs : List Callback) (held : Option Nat) :
    otherwise (cbs.map Task.invoke ++ [Task.finish held]) = 1 := by
  induction cbs with
  | nil => rfl
  | cons cb cbs ih => exact ih

theorem otherwise_script (within : Option Name) (script : List Command) :
    otherwise (script.map (Task.run within)) = Command.weights script := by
  induction script with
  | nil => rfl
  | cons c script ih =>
    show c.weight + otherwise (script.map (Task.run within)) = c.weight + Command.weights script
    rw [ih]

namespace World

/-- A command weighs more than what it registers. -/
theorem weight_deeds (w : World Arrivals) (t : Task) :
    otherwise (w.step t).2 + weigh ((w.deeds t).filterMap Deed.registered?) < t.weight := by
  cases t with
  | run within c =>
    show otherwise (w.execute c).2.1 + _ < c.weight
    cases c with
    | token name parent =>
      show 0 + _ < 3
      unfold deeds
      dsimp only
      split
      · exact Nat.lt_succ_self 2
      · exact Nat.zero_lt_succ 2
    | fire name =>
      show _ < 2
      unfold execute deeds
      dsimp only
      cases w.token? name with
      | none => exact Nat.zero_lt_two
      | some n =>
        show otherwise (_ ++ _) + 0 < 2
        rw [otherwise_firing]
        exact Nat.one_lt_two
    | connect token name script =>
      show _ < 2 + Command.weights script
      unfold execute deeds
      dsimp only
      cases w.token? token with
      | none =>
        show 0 + 0 < _
        omega
      | some n =>
        show 0 + (1 + Command.weights script + 0) < _
        omega
    | wait condvar name token =>
      show _ < 2
      unfold execute deeds
      dsimp only
      cases w.condvar? condvar with
      | none => exact Nat.zero_lt_two
      | some v =>
        cases token.bind w.token? with
        | none => exact Nat.zero_lt_two
        | some n => exact Nat.one_lt_two
    | poll name =>
      show _ < 2
      unfold execute deeds
      dsimp only
      cases w.future? name with
      | none => exact Nat.zero_lt_two
      | some f =>
        unfold pollDeeds
        dsimp only
        split
        · split
          · exact Nat.one_lt_two
          · exact Nat.zero_lt_two
        · exact Nat.zero_lt_two
    | cancelled token name =>
      show _ < 1
      unfold execute
      dsimp only
      cases w.token? token <;> exact Nat.zero_lt_one
    | notify name =>
      show _ < 1
      unfold execute
      dsimp only
      cases w.condvar? name <;> exact Nat.zero_lt_one
    | condvar name | drop name | inspect name | unknown => exact Nat.zero_lt_one
  | invoke cb =>
    cases cb with
    | script c name script =>
      show otherwise (script.map (Task.run (some name))) + 0 < 1 + Command.weights script
      rw [otherwise_script]
      omega
    | fireChild n =>
      show _ + 0 < 2
      unfold step
      dsimp only
      cases w.tokens.get? n with
      | none => exact Nat.zero_lt_two
      | some t =>
        dsimp only
        rw [otherwise_firing]
        exact Nat.one_lt_two
    | abortWait v ticket => exact Nat.zero_lt_one
    | complete f => exact Nat.zero_lt_one
  | finish held => cases held <;> exact Nat.zero_lt_one

/-- Every task uses up fuel. -/
theorem fuel_step (w : World Arrivals) (t : Task) (rest : List Task) :
    (w.step t).1.fuel ((w.step t).2 ++ rest) < w.fuel (t :: rest) := by
  have hload := (step_moves w t []).load
  have hdeeds := w.weight_deeds t
  have hdue : weigh ([t].filterMap Task.callback?) = weigh t.callback?.toList := by
    rw [List.filterMap_cons]
    cases t.callback? <;> rfl
  rw [invoked_deeds, List.append_nil] at hload
  simp only [Standing.load, Moment.standing, hdue] at hload
  have hcons : Task.weights (t :: rest) = t.weight + Task.weights rest := rfl
  have happend : Task.weights ((w.step t).2 ++ rest) = Task.weights (w.step t).2 + Task.weights rest := by
    rw [Task.weights, List.map_append, List.sum_append, Task.weights, Task.weights]
  rw [fuel, fuel, hcons, happend, Task.weights_eq (w.step t).2]
  omega

/-- As much fuel as there is weight is enough. -/
theorem runTasks_ends (n : Nat) (w : World Arrivals) (tasks : List Task) (h : w.fuel tasks ≤ n) :
    (runTasks n w tasks).2 = [] := by
  induction n generalizing w tasks with
  | zero =>
    cases tasks with
    | nil => rfl
    | cons t tasks => exact absurd (w.fuel_step t tasks) (by omega)
  | succ n ih =>
    cases tasks with
    | nil => rfl
    | cons t tasks => exact ih _ _ (Nat.le_of_lt_succ (Nat.lt_of_lt_of_le (w.fuel_step t tasks) h))

end World

/-! ## Commands in one go -/

/-- What `World.perform` does in one go is a run that leaves nothing to do. -/
theorem Moment.reaches_perform (w : World Slots) (v : World Arrivals) {κ : KeyPairs} (h : w.Mirrors κ v)
    (c : Command) : ∃ done, Moment.Reaches ⟨w, []⟩ done ⟨(w.perform c).1, []⟩ := by
  -- The weights are the same in the mirrored world, where they are known to be enough.
  obtain ⟨κ', hexec, heq⟩ := h.execute c
  have hends : ((w.execute c).1.runTasks ((w.execute c).1.fuel (w.execute c).2.1) (w.execute c).2.1).2 = [] := by
    obtain ⟨_, -, hr⟩ := hexec.runTasks ((w.execute c).1.fuel (w.execute c).2.1) (w.execute c).2.1
    rw [hr, hexec.fuel, heq]
    exact World.runTasks_ends _ _ _ (Nat.le_refl _)
  obtain ⟨done, hrun⟩ := Moment.reaches_runTasks ((w.execute c).1.fuel (w.execute c).2.1)
    (w.execute c).1 ((w.execute c).2.1 ++ [])
  rw [List.append_nil, hends] at hrun
  have hfirst : Moment.Reaches (⟨w, []⟩ : Moment Slots) ([] ++ [(w, .run none c)]) ⟨(w.execute c).1, (w.execute c).2.1⟩ := by
    have hstep := (Moment.Reaches.command (.refl : Moment.Reaches (⟨w, []⟩ : Moment Slots) [] _) c).task
    rwa [List.append_nil] at hstep
  exact ⟨_, hfirst.trans hrun⟩

end Gateway.Signal
