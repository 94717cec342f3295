import Gateway.Session
/-!
# Operations that are stopped

A poll of an operation looks at its stage and, when that is over, at the next one. A stop
may come at any time, before a poll or between two looks of one. Each look after it aborts
the operation, whatever the stage has come to meanwhile, and no look does without it
(`stop_aborts`).
-/
namespace Gateway

open Http (Contact Exchange Failure Glimpse)

/-! ## Turns -/

/-- What happens next to a session whose operation is in progress. -/
inductive Turn where
  | stop
  /-- The operation looks at its stage, and sees what the stages have come to. -/
  | look (stages : Glimpse)

namespace Session

/-- Lets the turns happen. Gives how far the operation comes and what it does to the network. -/
def play (s : Session) (o : Operation) : Progress → List Turn → Progress × List Contact
  | p, [] => (p, [])
  | p, .stop :: turns => s.stop.play o p turns
  | p, .look stages :: turns =>
    let (p, contacts) := s.look o p { stages with stopped := s.isStopped }
    let (p, more) := s.play o p turns
    (p, contacts ++ more)

/-- The session after the turns. -/
def after (s : Session) (turns : List Turn) : Session :=
  turns.foldl (fun s turn => match turn with | .stop => s.stop | .look _ => s) s

variable (s : Session) (o : Operation)

/-- Without a stop in between, the turns are a run. -/
theorem play_looks (p : Progress) (gs : List Glimpse) :
    s.play o p (gs.map .look) = s.run o p (gs.map fun g => { g with stopped := s.isStopped }) := by
  induction gs generalizing p with
  | nil => rfl
  | cons g gs ih => simp only [List.map_cons, play, run, ih]

theorem play_append (p : Progress) (turns more : List Turn) : s.play o p (turns ++ more) =
    (((s.after turns).play o (s.play o p turns).1 more).1,
      (s.play o p turns).2 ++ ((s.after turns).play o (s.play o p turns).1 more).2) := by
  induction turns generalizing s p with
  | nil => rfl
  | cons turn turns ih =>
    cases turn with
    | stop => exact ih s.stop p
    | look g => simp only [List.cons_append, play, ih, List.append_assoc, after, List.foldl_cons]

/-- A stop is never forgotten. -/
theorem isStopped_after (turns : List Turn) :
    (s.after turns).isStopped = true ↔ s.isStopped = true ∨ .stop ∈ turns := by
  induction turns generalizing s with
  | nil => simp [after]
  | cons turn turns ih =>
    rw [after, List.foldl_cons]
    cases turn with
    | stop => simpa [after, stop] using ih s.stop
    | look g => simpa [after] using ih s

/-- Nothing but the stop changes in a session. -/
theorem look_after (turns : List Turn) (p : Progress) (g : Glimpse) : (s.after turns).look o p g = s.look o p g := by
  induction turns generalizing s with
  | nil => rfl
  | cons turn turns ih =>
    cases turn with
    | stop => exact (ih s.stop).trans rfl
    | look _ => exact ih s

/-- One more look. -/
theorem play_look (p : Progress) (turns : List Turn) (g : Glimpse) : s.play o p (turns ++ [.look g]) =
    ((s.look o (s.play o p turns).1 { g with stopped := (s.after turns).isStopped }).1,
      (s.play o p turns).2 ++ (s.look o (s.play o p turns).1 { g with stopped := (s.after turns).isStopped }).2) := by
  rw [play_append, play, look_after]
  simp only [play, List.append_nil]

end Session

/-! ## One look -/

/-- What an operation reports that is aborted. -/
def Progress.abortion : Progress → OperationError
  | .probing _ _ => .aborted
  | .exchanging _ | .done _ => .call (.exchange .aborted)

/-- How a stage has failed, if it has. -/
def Http.failure? {α : Type} : Option (Except Failure α) → Option Failure
  | some (.error f) => some f
  | _ => none

theorem Http.failure?_eq_some {α : Type} {stage : Option (Except Failure α)} {f : Failure} :
    Http.failure? stage = some f ↔ stage = some (.error f) := by
  rcases stage with _ | f' | a <;> simp [Http.failure?]

/-- How the stage in progress has failed, as far as the glimpse shows. -/
def Progress.failure? (g : Glimpse) : Progress → Option Failure
  | .probing _ _ => Http.failure? g.probe
  | .exchanging (.sending r _) => if r.isSendable then Http.failure? g.head else some .broken
  | .exchanging (.receiving _) => Http.failure? g.body
  | .exchanging (.done _) | .done _ => none

/-- What an operation reports whose stage has failed. -/
def Progress.report : Progress → Failure → OperationError
  | .probing _ _, _ => .unreachable
  | .exchanging _, .timedOut => .call (.exchange .timedOut)
  | .exchanging (.sending _ _), .unconnected => .call (.exchange .connect)
  | .exchanging (.sending _ _), .broken => .call (.exchange .request)
  | .exchanging _, _ | .done _, _ => .call (.exchange .response)

/-- Whether a stop ended the operation. -/
def OperationError.isAborted : OperationError → Bool
  | .aborted => true
  | .call e => e.isAborted
  | .host _ | .unreachable | .reply _ => false

/-- The operation has not ended by a stop. -/
def Progress.Unaborted (p : Progress) : Prop := ∀ e, p.result? = some (.error e) → e.isAborted = false

/-- An exchange that is over is not gone on with. -/
def Progress.IsProper : Progress → Prop
  | .exchanging x => x.result? = none
  | .probing _ _ | .done _ => True

namespace Session

variable (s : Session) {p : Progress} {g : Glimpse}

theorem isProper_exchanging (o : Operation) (x : Exchange) : (exchanging o x).IsProper := by
  unfold exchanging
  cases hx : x.result? with
  | none => exact hx
  | some result => trivial

theorem isProper_look (o : Operation) (p : Progress) (g : Glimpse) : (s.look o p g).1.IsProper := by
  cases p with
  | probing e begun =>
    unfold look
    dsimp only
    split
    · trivial
    · split
      · trivial
      · trivial
      · exact isProper_exchanging o _
  | exchanging x => exact isProper_exchanging o _
  | done result => trivial

theorem isProper_start (o : Operation) : (s.start o).IsProper := by
  unfold start
  dsimp only
  split
  · trivial
  · trivial
  · trivial
  · exact isProper_exchanging _ _

theorem isProper_play (hp : p.IsProper) (o : Operation) (turns : List Turn) : (s.play o p turns).1.IsProper := by
  induction turns generalizing s p with
  | nil => exact hp
  | cons turn turns ih =>
    cases turn with
    | stop => exact ih s.stop hp
    | look g => exact ih s (s.isProper_look o p _)

variable {o : Operation}

/-- A look that sees a stop ends the operation before it does anything else. -/
theorem look_stopped (hp : p.IsProper) (hnone : p.result? = none) (hg : g.stopped = true) :
    s.look o p g = (.done (.error p.abortion), []) := by
  cases p with
  | probing e begun => simp only [look, hg, if_true, Progress.abortion]
  | exchanging x =>
    cases x with
    | sending r begun | receiving status =>
      simp only [look, Exchange.look, hg, if_true]
      rfl
    | done result => cases hp
  | done result => cases hnone

theorem look_contacts (hg : g.stopped = true) : (s.look o p g).2 = [] := by
  cases p with
  | probing e begun => simp only [look, hg, if_true]
  | exchanging x => cases x <;> simp only [look, Exchange.look, hg, if_true]
  | done result => rfl

theorem look_done {result : Except OperationError Value} (hp : p.result? = some result) : s.look o p g = (p, []) := by
  cases p with
  | done result => rfl
  | probing e begun | exchanging x => cases hp

theorem play_done {result : Except OperationError Value} (hp : p.result? = some result) (turns : List Turn) :
    s.play o p turns = (p, []) := by
  induction turns generalizing s with
  | nil => rfl
  | cons turn turns ih =>
    cases turn with
    | stop => exact ih s.stop
    | look g => simp only [play, look_done s hp, ih, List.append_nil]

/-- A look that sees no stop reports what failed. -/
theorem look_failure (hg : g.stopped = false) {f : Failure} (hf : p.failure? g = some f) :
    (s.look o p g).1.result? = some (.error (p.report f)) := by
  cases p with
  | probing e begun =>
    have hprobe : g.probe = some (.error f) := Http.failure?_eq_some.1 hf
    simp only [look, hg, hprobe]
    rfl
  | exchanging x =>
    cases x with
    | sending r begun =>
      have hf : (if r.isSendable then Http.failure? g.head else some .broken) = some f := hf
      cases hr : r.isSendable with
      | false =>
        rw [hr] at hf
        cases hf
        simp only [look, Exchange.look, hg, hr]
        rfl
      | true =>
        rw [hr, if_pos rfl] at hf
        simp only [look, Exchange.look, hg, hr, Http.failure?_eq_some.1 hf]
        cases f <;> rfl
    | receiving status =>
      have hbody : g.body = some (.error f) := Http.failure?_eq_some.1 hf
      simp only [look, Exchange.look, hg, hbody]
      cases f <;> rfl
    | done result => cases hf
  | done result => cases hf

/-! ## Without a stop -/

theorem unaborted_conclude {answer : Except Http.ExchangeError Http.Response} (ha : answer ≠ .error .aborted) :
    (Progress.done (conclude o answer)).Unaborted := by
  intro e he
  have he : conclude o answer = .error e := Option.some.inj he
  cases answer with
  | error e' =>
    cases he
    cases e' with
    | aborted => exact absurd rfl ha
    | connect | request | response | timedOut => rfl
  | ok r =>
    unfold conclude at he
    dsimp only at he
    split at he
    · cases he
      rfl
    · -- What the reply lacks is no abortion.
      cases hread : o.read r.body with
      | error b =>
        rw [hread] at he
        cases he
        rfl
      | ok v =>
        rw [hread] at he
        cases he

theorem unaborted_exchanging {x : Exchange} (hx : x.result? ≠ some (.error .aborted)) :
    (exchanging o x).Unaborted := by
  unfold exchanging
  cases hr : x.result? with
  | none => exact fun e he => nomatch he
  | some r => exact unaborted_conclude fun h => hx (hr.trans (congrArg some h))

theorem unaborted_exchange (e : Endpoint) (client : Text) : (s.exchange o e client).Unaborted := by
  refine unaborted_exchanging fun h => ?_
  unfold Exchange.start at h
  split at h
  · cases h
  · cases h

theorem unaborted_start (o : Operation) : (s.start o).Unaborted := by
  unfold start
  dsimp only
  split
  · intro e he
    cases he
    rfl
  · exact fun e he => nomatch he
  · intro e he
    cases he
    rfl
  · exact unaborted_exchange s _ _

theorem result?_look_ne {x : Exchange} (hx : x.result? = none) (hg : g.stopped = false) :
    (x.look g).1.result? ≠ some (.error .aborted) := by
  cases x with
  | sending r begun =>
    simp only [Exchange.look, hg]
    split
    · contradiction
    · split
      · simp [Exchange.result?]
      · split
        · simp [Exchange.result?]
        · rename_i f _
          cases f <;> simp [Exchange.result?, Http.ExchangeError.ofSending]
        · simp [Exchange.result?]
  | receiving status =>
    simp only [Exchange.look, hg]
    split
    · contradiction
    · split
      · simp [Exchange.result?]
      · rename_i f _
        cases f <;> simp [Exchange.result?, Http.ExchangeError.ofReceiving]
      · simp [Exchange.result?]
  | done result => cases hx

theorem unaborted_look (hp : p.IsProper) (ha : p.Unaborted) (hg : g.stopped = false) :
    (s.look o p g).1.Unaborted := by
  cases p with
  | probing e begun =>
    unfold look
    rw [hg]
    dsimp only
    split
    · contradiction
    · split
      · exact fun e he => nomatch he
      · intro e he
        cases he
        rfl
      · exact unaborted_exchange s _ _
  | exchanging x => exact unaborted_exchanging (result?_look_ne hp hg)
  | done result => exact ha

theorem unaborted_play (hs : s.isStopped = false) (hp : p.IsProper) (ha : p.Unaborted) (turns : List Turn)
    (hturns : .stop ∉ turns) : (s.play o p turns).1.Unaborted := by
  induction turns generalizing p with
  | nil => exact ha
  | cons turn turns ih =>
    cases turn with
    | stop => exact absurd List.mem_cons_self hturns
    | look g =>
      exact ih (s.isProper_look o p _) (unaborted_look s hp ha hs) fun h => hturns (List.mem_cons_of_mem _ h)

/-! ## Whole operations -/

theorem contacts_play (hs : s.isStopped = true) (o : Operation) (p : Progress) (turns : List Turn) :
    (s.play o p turns).2 = [] := by
  induction turns generalizing s p with
  | nil => rfl
  | cons turn turns ih =>
    cases turn with
    | stop => exact ih s.stop rfl p
    | look g =>
      have hlook : (s.look o p { g with stopped := s.isStopped }).2 = [] := look_contacts s hs
      simp only [play, hlook, ih s hs, List.append_nil]

/-- An operation that can be begun has no result before it is looked at. -/
theorem result?_start (o : Operation) (hu : s.connection.controlUrl.endpoint?.isSome = true)
    (hc : s.config.userAgent.all Http.isHeaderChar = true) : (s.start o).result? = none := by
  obtain ⟨e, he⟩ := Option.isSome_iff_exists.1 hu
  unfold start
  dsimp only
  rw [he]
  cases o with
  | add transport externalPort internalPort description lease => rfl
  | externalAddress | mapping | mappings | delete =>
    show (exchanging _ (Exchange.start s.config _)).result? = none
    rw [Exchange.start, if_pos hc]
    rfl

theorem exchanging_ne_probing (o : Operation) (x : Exchange) {e : Endpoint} {begun : Bool} :
    exchanging o x ≠ .probing e begun := by
  intro hx
  unfold exchanging at hx
  split at hx <;> cases hx

/-- An operation that connects to the gateway began with that. -/
theorem probing_play (o : Operation) (turns : List Turn) {e : Endpoint} {begun : Bool}
    (hp : (s.play o p turns).1 = .probing e begun) : ∃ e begun, p = .probing e begun := by
  induction turns generalizing s p with
  | nil => exact ⟨e, begun, hp⟩
  | cons turn turns ih =>
    cases turn with
    | stop => exact ih s.stop hp
    | look g =>
      obtain ⟨e', begun', hlook⟩ := ih s hp
      cases p with
      | probing e begun => exact ⟨e, begun, rfl⟩
      | exchanging x => exact absurd hlook (exchanging_ne_probing _ _)
      | done result => cases hlook

/-- Only to add a mapping is the gateway connected to first. -/
theorem probing_start {o : Operation} {e : Endpoint} {begun : Bool} (hp : s.start o = .probing e begun) :
    ∃ transport externalPort internalPort description lease,
      o = .add transport externalPort internalPort description lease := by
  unfold start at hp
  dsimp only at hp
  split at hp
  · cases hp
  · exact ⟨_, _, _, _, _, rfl⟩
  · cases hp
  · exact absurd hp (exchanging_ne_probing _ _)

end Session

/-- An operation that is looked at after a stop is aborted then, whenever the stop came, and does nothing more to the
network; one that is not stopped is not aborted, and reports the stage that fails. -/
theorem stop_aborts (s : Session) (o : Operation) (hu : s.connection.controlUrl.endpoint?.isSome = true)
    (hc : s.config.userAgent.all Http.isHeaderChar = true) :
    (s.start o).result? = none ∧
    (∀ turns more result, (s.play o (s.start o) turns).1.result? = some result →
      s.play o (s.start o) (turns ++ more) = s.play o (s.start o) turns) ∧
    (∀ turns e begun, (s.play o (s.start o) turns).1 = .probing e begun →
      ∃ transport externalPort internalPort description lease,
        o = .add transport externalPort internalPort description lease) ∧
    (∀ turns g, (s.play o (s.start o) turns).1.result? = none → s.isStopped = true ∨ .stop ∈ turns →
      s.play o (s.start o) (turns ++ [.look g]) =
        (.done (.error (s.play o (s.start o) turns).1.abortion), (s.play o (s.start o) turns).2)) ∧
    (s.isStopped = true → ∀ turns, (s.play o (s.start o) turns).2 = []) ∧
    (s.isStopped = false → ∀ turns, .stop ∉ turns →
      (∀ e, (s.play o (s.start o) turns).1.result? = some (.error e) → e.isAborted = false) ∧
      ∀ g f, (s.play o (s.start o) turns).1.failure? g = some f →
        (s.play o (s.start o) (turns ++ [.look g])).1.result? =
          some (.error ((s.play o (s.start o) turns).1.report f))) := by
  refine ⟨s.result?_start o hu hc, fun turns more result hr => ?_, fun turns e begun hp => ?_,
    fun turns g hnone hstop => ?_, fun hs turns => s.contacts_play hs o _ turns, fun hs turns hturns => ⟨?_, fun g f hf => ?_⟩⟩
  · rw [s.play_append, Session.play_done _ hr, List.append_nil]
  · obtain ⟨e, begun, hstart⟩ := s.probing_play o turns hp
    exact s.probing_start hstart
  · have hseen : (s.after turns).isStopped = true := (s.isStopped_after turns).2 hstop
    rw [s.play_look, s.look_stopped (s.isProper_play (s.isProper_start o) o turns) hnone hseen, List.append_nil]
  · exact s.unaborted_play hs (s.isProper_start o) (s.unaborted_start o) turns hturns
  · have hunseen : (s.after turns).isStopped = false := by
      rw [Bool.eq_false_iff, Ne, s.isStopped_after, hs]
      simpa using hturns
    rw [s.play_look]
    exact s.look_failure hunseen hf

/-- A stop between the probe and the request, whose answer is there when it is looked for. -/
theorem stop_aborts_between : ∃ (s : Session) (e : Endpoint) (client : IpAddress),
    s.connection.controlUrl.endpoint? = some e ∧
    s.play (.add .tcp 80 80 [] ⟨0⟩) (s.start (.add .tcp 80 80 [] ⟨0⟩))
      [.look { probe := some (.ok client), head := some (.ok 200) }, .stop, .look { head := some (.ok 200) }] =
      (.done (.error (.call (.exchange .aborted))), [.connect e]) := by
  obtain ⟨-, -, -, haborted, -⟩ := stop_aborts
    { connection := { uuid := [], friendlyName := [], device := ⟨[], [], [], [], []⟩, serviceId := []
                      controlUrl := Url.parse "http://10.0.0.1/c".toList, serviceType := [] }
      config := {} }
    (.add .tcp 80 80 [] ⟨0⟩) (by decide) (by decide)
  have hlook := haborted [.look { probe := some (.ok (.v4 ⟨10, 0, 0, 2⟩)), head := some (.ok 200) }, .stop]
    { head := some (.ok 200) } rfl (.inr (List.mem_cons_of_mem _ List.mem_cons_self))
  exact ⟨_, ⟨.v4 ⟨10, 0, 0, 1⟩, 80, 0⟩, _, by decide, hlook.trans rfl⟩

end Gateway
