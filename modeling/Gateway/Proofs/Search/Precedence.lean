import Gateway.Proofs.Search.Ending
/-!
# What comes first

A stop, answers that are queued and the end of the search may all be there when a call looks.
The stop comes before all else, and the end of the search comes after every answer (`MayReturn`).
Whatever a run has returned, a call returned it at a point where it was the turn of that answer,
and a new call returns at once what it is the turn of (`run_returns`).
-/
namespace Gateway.QueryRun

variable {s : QueryRun} {steps : List QueryStep} {x : QueryStep} {a : Answer} {b : Inbox}

/-- What was taken in during some steps. -/
def taken (steps : List QueryStep) : List Received := fresh (steps.filterMap QueryStep.received?)

/-- It is the turn of an answer after some steps. -/
inductive MayReturn (steps : List QueryStep) : Answer → Prop
  | stopped (hstop : .stop ∈ steps) : MayReturn steps (.ended .aborted)
  /-- The first of what was taken in and has not been handed out. -/
  | next {x : Received} {rest : List Received} (hstop : .stop ∉ steps)
      (hnext : (run steps).handedOut ++ x :: rest = taken steps) : MayReturn steps (.ofReceived x)
  /-- The end of the search, once all that was taken in has been handed out. -/
  | ended {e : SearchEnd} (hstop : .stop ∉ steps) (hall : (run steps).handedOut = taken steps)
      (hend : (run steps).query.inbox.ending = some e) : MayReturn steps (.ended e)

/-! ## What a call finds -/

theorem handedOut_append_queue (steps : List QueryStep) :
    (run steps).handedOut ++ (run steps).query.inbox.queue = taken steps :=
  (run_accounted steps).all

theorem unstopped_run : (run steps).query.inbox.stopped = false ↔ .stop ∉ steps := by
  rw [← stopped_run, Bool.not_eq_true]

theorem mayReturn_of_take (h : (run steps).query.inbox.take? = some (a, b)) : MayReturn steps a := by
  have hqueue := handedOut_append_queue steps
  rcases Inbox.take_cases h with ⟨rfl, hstop, -⟩ | ⟨e, rfl, hstop, hempty, hend, -⟩ | ⟨x, rfl, hstop, hnext, -⟩
  · exact .stopped (stopped_run steps |>.1 hstop)
  · rw [hempty, List.append_nil] at hqueue
    exact .ended (unstopped_run.1 hstop) hqueue hend
  · rw [hnext] at hqueue
    exact .next (unstopped_run.1 hstop) hqueue

theorem take_of_mayReturn (h : MayReturn steps a) : ∃ b, (run steps).query.inbox.take? = some (a, b) := by
  have hqueue := handedOut_append_queue steps
  unfold Inbox.take?
  cases h with
  | stopped hstop => exact ⟨_, by rw [(stopped_run steps).2 hstop]; rfl⟩
  | next hstop hnext =>
    rw [← hnext] at hqueue
    rw [unstopped_run.2 hstop, List.append_cancel_left hqueue]
    exact ⟨_, rfl⟩
  | ended hstop hall hend =>
    rw [hall, List.append_right_eq_self] at hqueue
    rw [unstopped_run.2 hstop, hqueue, hend]
    exact ⟨_, rfl⟩

/-! ## What is returned -/

/-- A step returns nothing, or it is a poll that returns what it finds. -/
theorem returned_cases (s : QueryRun) (x : QueryStep) : (s.step x).returned = s.returned ∨
    x = .poll ∧ ∃ a b, s.query.inbox.take? = some (a, b) ∧ (s.step x).returned = s.returned ++ [a] := by
  cases x with
  | datagram _ | finish _ | stop => exact .inl rfl
  | drop => exact .inl s.drop_returned
  | poll =>
    rw [step, poll]
    rcases s.query.poll_cases (s.pending.getD .fresh) with ⟨a, b, ht, he⟩ | ⟨_, _, _, he⟩ | ⟨_, he⟩ <;> rw [he]
    · exact .inr ⟨rfl, a, b, ht, rfl⟩
    · exact .inl rfl
    · exact .inl rfl

/-- A call that does not wait yet returns what it finds. -/
theorem poll_idle (hidle : s.pending = none) (h : s.query.inbox.take? = some (a, b)) :
    s.poll.returned = s.returned ++ [a] := by
  have hpoll : s.query.poll .fresh = ({ s.query with inbox := b }, .ready a) := by
    rw [Query.poll, Query.check, h]
  rw [poll, hidle, Option.getD_none, hpoll]

/-- Whatever was returned was returned by a poll, when it was its turn. -/
theorem exists_poll {earlier later : List Answer} (h : (run steps).returned = earlier ++ a :: later) :
    ∃ before after, steps = before ++ .poll :: after ∧ (run before).returned = earlier ∧ MayReturn before a := by
  induction steps using List.reverseRecOn generalizing later with
  | nil => exact absurd (congrArg List.length h) (by simp [run])
  | append_singleton steps x ih =>
    rw [run_concat] at h
    have hold : ∀ later, (run steps).returned = earlier ++ a :: later → ∃ before after,
        steps ++ [x] = before ++ .poll :: after ∧ (run before).returned = earlier ∧ MayReturn before a := by
      intro later hlater
      obtain ⟨before, after, rfl, hearlier, hturn⟩ := ih hlater
      exact ⟨before, after ++ [x], by simp, hearlier, hturn⟩
    rcases returned_cases (run steps) x with hsame | ⟨rfl, a', b, htake, hmore⟩
    · exact hold later (hsame.symm.trans h)
    · rw [hmore] at h
      rcases List.eq_nil_or_concat later with rfl | ⟨later, z, rfl⟩
      · -- the answer is the one that this poll adds
        obtain ⟨hearlier, ha⟩ := List.append_inj' h rfl
        cases ha
        exact ⟨steps, [], rfl, hearlier, mayReturn_of_take htake⟩
      · rw [List.concat_eq_append, ← List.cons_append, ← List.append_assoc] at h
        exact hold later (List.append_inj_left' h rfl)

/-- The end that is recorded is that of the first finish, or an abortion if a stop had come by then. Whatever a run has
returned was returned by a poll when it was its turn, and a new call returns at once what it is the turn of. -/
theorem run_returns (steps : List QueryStep) :
    ((∀ x ∈ steps, x.isFinish = false) → (run steps).query.inbox.ending = none) ∧
    (∀ before e after, steps = before ++ .finish e :: after → (∀ x ∈ before, x.isFinish = false) →
      (run steps).query.inbox.ending = some (if .stop ∈ before then .aborted else e)) ∧
    (∀ earlier a later, (run steps).returned = earlier ++ a :: later → ∃ before after,
      steps = before ++ .poll :: after ∧ (run before).returned = earlier ∧ MayReturn before a) ∧
    ∀ a, (run steps).pending = none → MayReturn steps a →
      (run (steps ++ [.poll])).returned = (run steps).returned ++ [a] := by
  refine ⟨ending_of_unfinished, ?_, fun _ _ _ => exists_poll, fun a hidle hturn => ?_⟩
  · rintro before e after rfl hfirst
    exact ending_run hfirst e
  · obtain ⟨b, htake⟩ := take_of_mayReturn hturn
    rw [run_concat]
    exact poll_idle hidle htake

-- the deadline passes while an answer is queued, and the stop comes between the calls
example : (run [.datagram [], .finish .timedOut, .poll, .poll, .finish .receive, .stop, .poll]).returned =
    [.unusable (.statusLine []), .ended .timedOut, .ended .aborted] := by
  decide

end Gateway.QueryRun
