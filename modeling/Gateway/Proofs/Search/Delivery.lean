import Mathlib.Data.List.Basic
import Gateway.Proofs.Search.Inbox
/-!
# What a query delivers

A run of a query is any sequence of datagrams, ends of the search, stops, polls of a
consumer's call, and calls given up while they wait. `run_delivers`: at every point of
every run, what the calls have handed out and what is still queued make up what was
received, in order, less the announcements of USNs that were announced before.
-/
namespace Gateway

/-- What happens to a query and its consumer. -/
inductive QueryStep where
  | datagram (bytes : Utf8.Bytes)
  | finish (e : SearchEnd)
  | stop
  /-- The consumer polls the call that waits, or a new one if none does. -/
  | poll
  /-- The consumer gives up the call that waits. -/
  | drop

/-- What is read from the datagrams of a run. -/
def QueryStep.received? : QueryStep → Option Received
  | .datagram bytes => some (Announcement.parse bytes)
  | .finish _ | .stop | .poll | .drop => none

/-- A query in the middle of a run. -/
structure QueryRun where
  query : Query := {}
  /-- The call that waits. -/
  pending : Option Get := none
  /-- What the calls have returned, in order. -/
  returned : List Answer := []

namespace QueryRun

/-- Polls the call that waits, or a new one. An answer ends the call. -/
def poll (s : QueryRun) : QueryRun :=
  match s.query.poll (s.pending.getD .fresh) with
  | (query, .ready a) => ⟨query, none, s.returned ++ [a]⟩
  | (query, .pending g) => ⟨query, some g, s.returned⟩

/-- Gives up the call that waits, if one does. -/
def drop (s : QueryRun) : QueryRun :=
  match s.pending with
  | some g => ⟨s.query.abandon g, none, s.returned⟩
  | none => s

/-- Does one step. -/
def step (s : QueryRun) : QueryStep → QueryRun
  | .datagram bytes => { s with query := s.query.onDatagram bytes }
  | .finish e => { s with query := s.query.finish e }
  | .stop => { s with query := s.query.stop }
  | .poll => s.poll
  | .drop => s.drop

/-- A run from its start, when nothing has been received and no call waits. -/
def run (steps : List QueryStep) : QueryRun := steps.foldl step {}

/-- The announcements and unusable datagrams among what the calls have returned. -/
def handedOut (s : QueryRun) : List Received := s.returned.filterMap Answer.received?

/-! ## Accounts of runs -/

/-- The inbox accounts for what was received and handed out. -/
def Accounted (received : List Received) (s : QueryRun) : Prop := s.query.inbox.Accounts received s.handedOut

theorem poll_accounted {received : List Received} {s : QueryRun} (h : Accounted received s) :
    Accounted received s.poll := by
  unfold Accounted at h ⊢
  rcases s.query.poll_cases (s.pending.getD .fresh) with ⟨a, b, ht, he⟩ | ⟨_, _, _, he⟩ | ⟨_, he⟩
  · have hp : s.poll = ⟨{ s.query with inbox := b }, none, s.returned ++ [a]⟩ := by simp only [poll, he]
    have := Inbox.accounts_take h ht
    rw [hp, handedOut, List.filterMap_append, List.filterMap_eq_flatMap_toList _ [a], List.flatMap_singleton]
    exact this
  · simp only [poll, he]
    exact h
  · simp only [poll, he]
    exact h

theorem drop_accounted {received : List Received} {s : QueryRun} (h : Accounted received s) :
    Accounted received s.drop := by
  unfold Accounted drop at *
  split
  · rw [Query.abandon_inbox]; exact h
  · exact h

theorem step_accounted {received : List Received} {s : QueryRun} (h : Accounted received s) (x : QueryStep) :
    Accounted (received ++ x.received?.toList) (s.step x) := by
  cases x with
  | datagram bytes =>
    show Inbox.Accounts _ _ _
    rw [step, Query.onDatagram_inbox]
    exact Inbox.accounts_receive h bytes
  | finish e => rw [QueryStep.received?, Option.toList_none, List.append_nil]; exact Inbox.accounts_finish h e
  | stop => rw [QueryStep.received?, Option.toList_none, List.append_nil]; exact Inbox.accounts_stop h
  | poll => rw [QueryStep.received?, Option.toList_none, List.append_nil]; exact poll_accounted h
  | drop => rw [QueryStep.received?, Option.toList_none, List.append_nil]; exact drop_accounted h

theorem steps_accounted {received : List Received} {s : QueryRun} (h : Accounted received s)
    (steps : List QueryStep) :
    Accounted (received ++ steps.filterMap QueryStep.received?) (steps.foldl step s) := by
  induction steps generalizing received s with
  | nil => simpa using h
  | cons x steps ih =>
    have := ih (step_accounted h x)
    simpa only [List.filterMap_eq_flatMap_toList, List.flatMap_cons, List.append_assoc, List.foldl_cons] using this

theorem run_accounted (steps : List QueryStep) : Accounted (steps.filterMap QueryStep.received?) (run steps) :=
  @steps_accounted [] {} Inbox.accounts_new steps

/-- What was handed out and what is queued make up what was received, in order, less
the announcements that repeat a USN. So every unusable datagram is among them, and
every USN that was announced, once. -/
theorem run_delivers (steps : List QueryStep) :
    let received := steps.filterMap QueryStep.received?
    let delivered := (run steps).handedOut ++ (run steps).query.inbox.queue
    Enumerates (· < ·) (fun (i : Nat) x => received[i]? = some x ∧
        ∀ usn, usn? x = some usn → usn ∉ usns (received.take i)) delivered ∧
      delivered.filter isBad = received.filter isBad ∧ (usns delivered).Nodup ∧
      ∀ usn, usn ∈ usns delivered ↔ usn ∈ usns received := by
  intro received delivered
  have h : delivered = fresh received := (run_accounted steps).all
  rw [h]
  refine ⟨fresh_enumerates received, filter_isBad_freshAfter [] received, nodup_usns_freshAfter [] received, ?_⟩
  intro usn
  rw [fresh, mem_usns_freshAfter]
  simp [usns]

end QueryRun

end Gateway
