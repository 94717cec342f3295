import Mathlib.Data.List.Induction
import Gateway.Proofs.Search.Delivery
/-!
# How a query ends

The receiver of a search takes datagrams in until it finishes, and does nothing after that. Once
a query has handed out the end of the search, it has nothing else to hand out: every later call
returns at once, with the same end or with the stop that has come since (`run_ends`). So an end
by the deadline gives way to a stop (`not_same_end`), and to nothing else.
-/
namespace Gateway

/-! ## Receivers -/

deriving instance DecidableEq for QueryStep

namespace QueryStep

/-- Whether the search ends in the step. -/
def isFinish : QueryStep → Bool
  | .finish _ => true
  | .datagram _ | .stop | .poll | .drop => false

/-- What the receiver does, and not the consumer. -/
def isReceiver : QueryStep → Bool
  | .datagram _ | .finish _ => true
  | .stop | .poll | .drop => false

end QueryStep

/-- Nothing comes from the receiver after it has finished. -/
def FinishesOnce (steps : List QueryStep) : Prop :=
  steps.Pairwise fun x y => x.isFinish = true → y.isReceiver = false

namespace QueryRun

/-! ## What a step leaves as it is -/

variable {s : QueryRun} {x : QueryStep} {e : SearchEnd} {steps : List QueryStep}

theorem run_concat (steps : List QueryStep) (x : QueryStep) : run (steps ++ [x]) = (run steps).step x := by
  rw [run, List.foldl_concat]
  rfl

theorem poll_inbox (s : QueryRun) : s.poll.query.inbox = { s.query.inbox with queue := s.poll.query.inbox.queue } := by
  unfold poll
  rcases s.query.poll_cases (s.pending.getD .fresh) with ⟨a, b, ht, he⟩ | ⟨_, _, _, he⟩ | ⟨_, he⟩ <;> rw [he]
  exact Inbox.take_frame ht

theorem drop_inbox (s : QueryRun) : s.drop.query.inbox = s.query.inbox := by
  unfold drop
  split
  · exact s.query.abandon_inbox _
  · rfl

theorem drop_returned (s : QueryRun) : s.drop.returned = s.returned := by
  unfold drop
  split <;> rfl

/-- Only a stop stops. -/
theorem stopped_step (s : QueryRun) (x : QueryStep) :
    (s.step x).query.inbox.stopped = true ↔ s.query.inbox.stopped = true ∨ x = .stop := by
  cases x with
  | datagram bytes => simp [step, Query.onDatagram_inbox, Inbox.receive_stopped]
  | finish e => simp [step, Query.finish_inbox, Inbox.finish_stopped]
  | stop => simp [step, Query.stop]
  | poll => simp [step, congrArg Inbox.stopped s.poll_inbox]
  | drop => simp [step, drop_inbox]

/-- Only the receiver's finish ends the search. -/
theorem ending_step (hx : x.isFinish = false) : (s.step x).query.inbox.ending = s.query.inbox.ending := by
  cases x with
  | datagram bytes => rw [step, Query.onDatagram_inbox, Inbox.receive_ending]
  | finish e => cases hx
  | stop => rfl
  | poll => rw [step, poll_inbox]
  | drop => rw [step, drop_inbox]

theorem stopped_run (steps : List QueryStep) : (run steps).query.inbox.stopped = true ↔ .stop ∈ steps := by
  induction steps using List.reverseRecOn with
  | nil => simp [run]
  | append_singleton steps x ih =>
    rw [run_concat, stopped_step, ih, List.mem_append, List.mem_singleton, eq_comm]

theorem ending_of_unfinished (h : ∀ x ∈ steps, x.isFinish = false) : (run steps).query.inbox.ending = none := by
  induction steps using List.reverseRecOn with
  | nil => rfl
  | append_singleton steps x ih =>
    rw [run_concat, ending_step (h x (by simp)), ih fun y hy => h y (List.mem_append_left _ hy)]

/-- What is recorded as the end stays recorded. -/
theorem ending_step_some (h : s.query.inbox.ending = some e) (x : QueryStep) :
    (s.step x).query.inbox.ending = some e := by
  cases hx : x.isFinish with
  | false => rw [ending_step hx, h]
  | true =>
    cases x with
    | finish e' => simp only [step, Query.finish_inbox, Inbox.finish, h]
    | datagram _ | stop | poll | drop => cases hx

/-- The first end counts, and it is an abortion if a stop has come before it. -/
theorem ending_run {before after : List QueryStep} (h : ∀ x ∈ before, x.isFinish = false) (e : SearchEnd) :
    (run (before ++ .finish e :: after)).query.inbox.ending = some (if .stop ∈ before then .aborted else e) := by
  induction after using List.reverseRecOn with
  | nil =>
    rw [run_concat, step, Query.finish_inbox, Inbox.finish, ending_of_unfinished h]
    simp only [stopped_run]
  | append_singleton after x ih =>
    rw [← List.cons_append, ← List.append_assoc, run_concat]
    exact ending_step_some ih x

/-! ## After the end -/

/-- The end `e` has been handed out, and there is nothing else left but a stop. -/
structure Over (e : SearchEnd) (s : QueryRun) : Prop where
  idle : s.pending = none
  left : s.query.inbox.stopped = true ∨ s.query.inbox.queue = [] ∧ s.query.inbox.ending = some e

theorem Over.take? (h : Over e s) :
    s.query.inbox.take? = some (.ended (if s.query.inbox.stopped then .aborted else e), s.query.inbox) := by
  unfold Inbox.take?
  cases hs : s.query.inbox.stopped with
  | true => rfl
  | false =>
    obtain ⟨hq, he⟩ := h.left.resolve_left (Bool.eq_false_iff.1 hs)
    simp [hq, he]

/-- A call returns at once, and changes nothing. -/
theorem Over.poll (h : Over e s) : s.poll = { s with
    returned := s.returned ++ [.ended (if s.query.inbox.stopped then .aborted else e)] } := by
  have hcheck : s.query.poll .fresh = (s.query, .ready (.ended (if s.query.inbox.stopped then .aborted else e))) := by
    rw [Query.poll, Query.check, h.take?]
  simp only [QueryRun.poll, h.idle, Option.getD_none, hcheck]

theorem Over.step (h : Over e s) (hx : s.query.inbox.stopped = true ∨ x.isReceiver = false) : Over e (s.step x) := by
  cases x with
  | datagram bytes => exact ⟨h.idle, .inl ((stopped_step s _).2 (.inl (hx.resolve_right nofun)))⟩
  | finish e' => exact ⟨h.idle, .inl ((stopped_step s _).2 (.inl (hx.resolve_right nofun)))⟩
  | stop => exact ⟨h.idle, .inl rfl⟩
  | poll =>
    rw [QueryRun.step, h.poll]
    exact ⟨h.idle, h.left⟩
  | drop =>
    rw [QueryRun.step, QueryRun.drop, h.idle]
    exact h

/-- A step that returns the end of the search finds nothing else in the inbox. -/
theorem over_of_returns (h : .ended e ∈ (s.step x).returned) (hs : .ended e ∉ s.returned) : Over e (s.step x) := by
  cases x with
  | datagram _ | finish _ | stop => exact absurd h hs
  | drop => exact absurd (s.drop_returned ▸ h) hs
  | poll =>
    rw [QueryRun.step] at h ⊢
    unfold QueryRun.poll at h ⊢
    rcases s.query.poll_cases (s.pending.getD .fresh) with ⟨a, b, ht, he⟩ | ⟨_, _, _, he⟩ | ⟨_, he⟩
    · rw [he] at h ⊢
      obtain rfl : .ended e = a := List.mem_singleton.1 ((List.mem_append.1 h).resolve_left hs)
      rcases Inbox.take_cases ht with ⟨-, hstop, rfl⟩ | ⟨_, ha, -, hq, hend, rfl⟩ | ⟨x, ha, -, -, -⟩
      · exact ⟨rfl, .inl hstop⟩
      · cases ha
        exact ⟨rfl, .inr ⟨hq, hend⟩⟩
      · cases x <;> cases ha
    · rw [he] at h
      exact absurd h hs
    · rw [he] at h
      exact absurd h hs

theorem over_run (h : FinishesOnce steps) (he : .ended e ∈ (run steps).returned) : Over e (run steps) := by
  induction steps using List.reverseRecOn with
  | nil => cases he
  | append_singleton steps x ih =>
    obtain ⟨hsteps, -, hlast⟩ := List.pairwise_append.1 h
    rw [run_concat] at he ⊢
    by_cases hold : .ended e ∈ (run steps).returned
    · have hover := ih hsteps hold
      refine hover.step (hover.left.imp_right fun hleft => ?_)
      -- the search has ended, so the receiver has finished
      by_contra hx
      have hnone : (run steps).query.inbox.ending = none := by
        refine ending_of_unfinished fun y hy => Bool.eq_false_iff.2 fun hy' => hx ?_
        exact hlast y hy x List.mem_cons_self hy'
      exact nomatch hleft.2.symm.trans hnone
    · exact over_of_returns he hold

/-- From the first end that a query hands out on, every call returns at once: with that end, or with the stop if there
has been one by then. The end that is recorded is the first, and it is an abortion if the query had been stopped. -/
theorem run_ends (steps : List QueryStep) (h : FinishesOnce steps) :
    (∀ e, .ended e ∈ (run steps).returned → (run (steps ++ [.poll])).returned =
      (run steps).returned ++ [.ended (if .stop ∈ steps then .aborted else e)]) ∧
    ∀ before e after, steps = before ++ .finish e :: after →
      (run steps).query.inbox.ending = some (if .stop ∈ before then .aborted else e) := by
  refine ⟨fun e he => ?_, ?_⟩
  · rw [run_concat, step, (over_run h he).poll]
    simp only [stopped_run]
  · rintro before e after rfl
    refine ending_run (fun x hx => Bool.eq_false_iff.2 fun hx' => ?_) e
    -- a finish before this one would have been the last thing from the receiver
    exact Bool.noConfusion ((List.pairwise_append.1 h).2.2 x hx _ List.mem_cons_self hx')

/-- The deadline passes and is reported, and then the query is stopped. -/
def stoppedLate : List QueryStep := [.finish .timedOut, .poll, .stop]

theorem run_ends_stoppedLate : .ended .timedOut ∈ (run stoppedLate).returned ∧
    (run (stoppedLate ++ [.poll])).returned = [.ended .timedOut, .ended .aborted] ∧
    (run stoppedLate).query.inbox.ending = some .timedOut := by
  obtain ⟨hcall, hend⟩ := run_ends stoppedLate (by simp [stoppedLate, FinishesOnce, QueryStep.isFinish, QueryStep.isReceiver])
  have hmem : .ended .timedOut ∈ (run stoppedLate).returned := by decide
  exact ⟨hmem, hcall .timedOut hmem, hend [] .timedOut [.poll, .stop] rfl⟩

/-- It is not so that every call returns the end that an earlier call has returned. -/
theorem not_same_end : ¬ ∀ (steps : List QueryStep) (e : SearchEnd), FinishesOnce steps →
    .ended e ∈ (run steps).returned → (run (steps ++ [.poll])).returned = (run steps).returned ++ [.ended e] := by
  intro h
  have hsame := h stoppedLate .timedOut
    (by simp [stoppedLate, FinishesOnce, QueryStep.isFinish, QueryStep.isReceiver]) (by decide)
  exact absurd hsame (by decide)

end QueryRun

end Gateway
