import Gateway.Proofs.Search.Inbox
/-!
# Who wakes the consumer

Receiver and consumer of a query run side by side, so we split what they do where the
other may come in between. The receiver changes the inbox and notifies afterwards. The
consumer looks into the inbox, which starts its wait if there is nothing in it, and
polls its wait afterwards.

`run_wakes`: a consumer that waits although there is something for it has a notification
coming. The wait starts in the same step as the look into the inbox, so no change of the
inbox falls between the two.
-/
namespace Gateway

/-- Where the consumer stands between two of its steps. -/
inductive Consumer where
  /-- It is about to look into the inbox. -/
  | looking
  /-- It has started to wait, and has not polled its wait yet. -/
  | registered (ticket : Nat)
  /-- Its wait was pending when it was last polled; it may have been woken since. -/
  | asleep (ticket : Nat) (woken : Bool)

namespace Consumer

/-- The ticket of the wait that the consumer has, if it has one. -/
def ticket? : Consumer → Option Nat
  | .looking => none
  | .registered ticket | .asleep ticket _ => some ticket

/-- The consumer after a look that found nothing. -/
def ofGet : Get → Consumer
  | .fresh => .looking
  | .waiting ticket => .registered ticket

/-- A sleeping consumer is woken if its wait is among those that are let go. -/
def wake (letGo : Nat → Bool) : Consumer → Consumer
  | .asleep ticket woken => .asleep ticket (woken || letGo ticket)
  | c => c

end Consumer

/-- What receiver and consumer do in one go, so that nothing comes in between. -/
inductive HandoverStep where
  /-- The receiver takes in a datagram. -/
  | datagram (bytes : Utf8.Bytes)
  /-- The receiver records why the search ended. -/
  | finish (e : SearchEnd)
  /-- The receiver makes the notification that it owes. -/
  | notify
  /-- The consumer looks into the inbox. -/
  | look
  /-- The consumer polls its wait. -/
  | poll

/-- What is read from the datagrams of a run. -/
def HandoverStep.received? : HandoverStep → Option Received
  | .datagram bytes => some (Announcement.parse bytes)
  | .finish _ | .notify | .look | .poll => none

/-- Whether the consumer does the step. -/
def HandoverStep.isConsumers : HandoverStep → Bool
  | .look | .poll => true
  | .datagram _ | .finish _ | .notify => false

/-- A query between its receiver and its consumer. -/
structure Handover where
  query : Query := {}
  /-- The receiver has changed the inbox and has still to notify. -/
  owes : Bool := false
  consumer : Consumer := .looking

namespace Handover

/-- The inbox changes, and a notification is due unless the datagram was a duplicate. -/
def datagram (s : Handover) (bytes : Utf8.Bytes) : Handover :=
  { s with
    query := { s.query with inbox := (s.query.inbox.receive bytes).1 }
    owes := (s.query.inbox.receive bytes).2 }

/-- The inbox changes, and a notification is due. -/
def finish (s : Handover) (e : SearchEnd) : Handover :=
  { s with query := { s.query with inbox := s.query.inbox.finish e }, owes := true }

/-- All waits are let go, and who sleeps in one of them is woken. -/
def notify (s : Handover) : Handover :=
  ⟨s.query.notify, false, s.consumer.wake s.query.condvar.waits⟩

/-- A call that gets an answer returns, and the consumer calls again. -/
def look (s : Handover) : Handover :=
  match s.query.check with
  | (query, .ready _) => { s with query := query, consumer := .looking }
  | (query, .pending g) => { s with query := query, consumer := .ofGet g }

/-- The wait goes on, or is over and the consumer looks again. -/
def poll (s : Handover) (ticket : Nat) : Handover :=
  { s with consumer := if s.query.condvar.waits ticket then .asleep ticket false else .looking }

/-- What can happen next. The receiver makes its notification before it goes on. -/
def step? (s : Handover) : HandoverStep → Option Handover
  | .datagram bytes => if s.owes then none else some (s.datagram bytes)
  | .finish e => if s.owes then none else some (s.finish e)
  | .notify => if s.owes then some s.notify else none
  | .look => match s.consumer with
    | .looking => some s.look
    | .registered _ | .asleep _ _ => none
  | .poll => s.consumer.ticket?.map s.poll

/-- Runs in which each step is one that `P` allows. -/
inductive Run (P : Handover → HandoverStep → Prop) : List HandoverStep → Handover → Prop where
  | start : Run P [] {}
  | step {steps : List HandoverStep} {x : HandoverStep} {s s' : Handover} (h : Run P steps s) (hp : P s x)
    (hx : s.step? x = some s') : Run P (steps ++ [x]) s'

/-- The consumer makes no step while the receiver is about to notify. -/
def Apart (s : Handover) (x : HandoverStep) : Prop := x.isConsumers = true → s.owes = false

/-! ## What a step does -/

/-- Everything that can happen in one step, with what it needs. -/
theorem step_cases {s s' : Handover} {x : HandoverStep} (h : s.step? x = some s') :
    (∃ bytes, x = .datagram bytes ∧ s.owes = false ∧ s' = s.datagram bytes) ∨
    (∃ e, x = .finish e ∧ s.owes = false ∧ s' = s.finish e) ∨
    (x = .notify ∧ s.owes = true ∧ s' = s.notify) ∨
    (x = .look ∧ s.consumer = .looking ∧ s' = s.look) ∨
    (∃ ticket, x = .poll ∧ s.consumer.ticket? = some ticket ∧ s' = s.poll ticket) := by
  cases x with
  | datagram bytes =>
    cases ho : s.owes <;> simp only [step?, ho] at h
    · cases h
      exact .inl ⟨bytes, rfl, rfl, rfl⟩
    · cases h
  | finish e =>
    cases ho : s.owes <;> simp only [step?, ho] at h
    · cases h
      exact .inr (.inl ⟨e, rfl, rfl, rfl⟩)
    · cases h
  | notify =>
    cases ho : s.owes <;> simp only [step?, ho] at h
    · cases h
    · cases h
      exact .inr (.inr (.inl ⟨rfl, rfl, rfl⟩))
  | look =>
    cases hc : s.consumer <;> simp only [step?, hc] at h
    · cases h
      exact .inr (.inr (.inr (.inl ⟨rfl, rfl, rfl⟩)))
    · cases h
    · cases h
  | poll =>
    obtain ⟨ticket, ht, rfl⟩ := Option.map_eq_some_iff.1 h
    exact .inr (.inr (.inr (.inr ⟨ticket, rfl, ht, rfl⟩)))

/-- A look finds something, or the consumer waits from then on. -/
theorem look_cases (s : Handover) :
    (∃ a b, s.query.inbox.take? = some (a, b) ∧
      s.look = { s with query := { s.query with inbox := b }, consumer := .looking }) ∨
    (s.query.inbox.take? = none ∧ ∃ condvar ticket, condvar.waits ticket = true ∧
      s.look = { s with query := { s.query with condvar := condvar }, consumer := .registered ticket }) := by
  rcases s.query.check_cases with ⟨a, b, ht, he⟩ | ⟨hn, he⟩
  · exact .inl ⟨a, b, ht, by simp only [look, he]⟩
  · refine .inr ⟨hn, _, _, ?_, by simp only [look, he]; rfl⟩
    simp [Signal.Condvar.register, Signal.Condvar.waits]

/-- A poll goes to sleep, or ends the wait. -/
theorem poll_cases (s : Handover) (ticket : Nat) :
    (s.query.condvar.waits ticket = true ∧ s.poll ticket = { s with consumer := .asleep ticket false }) ∨
    (s.query.condvar.waits ticket = false ∧ s.poll ticket = { s with consumer := .looking }) := by
  unfold poll
  cases s.query.condvar.waits ticket
  · exact .inr ⟨rfl, rfl⟩
  · exact .inl ⟨rfl, rfl⟩

/-- The receiver's steps up to the notification that it owes, if it owes one. -/
def settle (s : Handover) : Handover := if s.owes then s.notify else s

/-- What the receiver does with a datagram, done in one go. -/
theorem settle_datagram (s : Handover) (bytes : Utf8.Bytes) :
    (s.datagram bytes).settle.query = s.query.onDatagram bytes := by
  rcases s.query.onDatagram_cases bytes with ⟨hn, he⟩ | ⟨hn, he⟩ <;> rw [he]
  · simp only [settle, datagram, hn, Inbox.receive_old hn]
    rfl
  · simp only [settle, datagram, hn]
    rfl

theorem settle_finish (s : Handover) (e : SearchEnd) : (s.finish e).settle.query = s.query.finish e := rfl

/-- What a call that waits does when it is polled, done in one go. -/
theorem poll_look (s : Handover) (ticket : Nat) :
    (match (s.poll ticket).consumer with
      | .looking => (s.poll ticket).look.query
      | .registered _ | .asleep _ _ => (s.poll ticket).query) = (s.query.poll (.waiting ticket)).1 := by
  cases hw : s.query.condvar.waits ticket with
  | true => simp only [poll, hw, if_true, Query.poll_asleep hw]
  | false =>
    rw [Query.poll_awake hw]
    simp only [poll, hw, look]
    rcases hc : s.query.check with ⟨query, a | g⟩ <;> simp

/-- A call that waits is done when it is polled if it was let go and there is something for it. -/
theorem poll_ready {q : Query} {ticket : Nat} :
    (∃ a, (q.poll (.waiting ticket)).2 = .ready a) ↔ q.condvar.waits ticket = false ∧ q.inbox.take? ≠ none := by
  cases hw : q.condvar.waits ticket with
  | true => simp [Query.poll_asleep hw]
  | false =>
    rw [Query.poll_awake hw]
    rcases q.check_cases with ⟨a, b, ht, he⟩ | ⟨hn, he⟩ <;> simp [*]

/-! ## Who is woken -/

/-- The state after the datagrams `received`, whatever the order of the steps. -/
structure Watched (received : List Received) (s : Handover) : Prop where
  accounts : ∃ taken, s.query.inbox.Accounts received taken
  not_stopped : s.query.inbox.stopped = false
  /-- The consumer only waits while there is nothing for it, or until the coming notification. -/
  waits : ∀ ticket, s.consumer.ticket? = some ticket → s.query.condvar.waits ticket = true →
    s.query.inbox.take? = none ∨ s.owes = true
  woken : ∀ ticket woken, s.consumer = .asleep ticket woken → woken = !s.query.condvar.waits ticket

variable {received : List Received} {s s' : Handover}

theorem watched_start : Watched [] {} := ⟨⟨[], Inbox.accounts_new⟩, rfl, nofun, nofun⟩

theorem watched_datagram (h : Watched received s) (ho : s.owes = false) (bytes : Utf8.Bytes) :
    Watched (received ++ [Announcement.parse bytes]) (s.datagram bytes) := by
  obtain ⟨⟨taken, ha⟩, hstop, hwaits, hwoken⟩ := h
  refine ⟨⟨taken, Inbox.accounts_receive ha bytes⟩, ?_, ?_, hwoken⟩
  · exact (Inbox.receive_stopped s.query.inbox bytes).trans hstop
  · intro ticket ht hw
    cases hn : (s.query.inbox.receive bytes).2 with
    | true => exact .inr hn
    | false =>
      left
      simp only [datagram, Inbox.receive_old hn]
      rcases hwaits ticket ht hw with h | h
      · exact h
      · rw [ho] at h
        cases h

theorem watched_finish (h : Watched received s) (e : SearchEnd) : Watched received (s.finish e) := by
  obtain ⟨⟨taken, ha⟩, hstop, -, hwoken⟩ := h
  refine ⟨⟨taken, Inbox.accounts_finish ha e⟩, ?_, fun _ _ _ => .inr rfl, hwoken⟩
  exact (Inbox.finish_stopped s.query.inbox e).trans hstop

/-- A notification wakes the consumer if it sleeps, for it lets everyone go. -/
theorem notify_asleep {ticket : Nat} {woken : Bool} (hw : woken = !s.query.condvar.waits ticket)
    (hc : s.consumer = .asleep ticket woken) : s.notify.consumer = .asleep ticket true := by
  simp only [notify, hc, Consumer.wake, hw, Bool.not_or_self]

theorem watched_notify (h : Watched received s) : Watched received s.notify := by
  refine ⟨h.accounts, h.not_stopped, ?_, ?_⟩
  · intro ticket _ hw
    rw [notify, Query.notify_waits] at hw
    cases hw
  · intro ticket woken hc
    cases hs : s.consumer with
    | asleep ticket' woken' =>
      rw [notify_asleep (h.woken ticket' woken' hs) hs] at hc
      cases hc
      rfl
    | looking => simp [notify, hs, Consumer.wake] at hc
    | registered ticket' => simp [notify, hs, Consumer.wake] at hc

theorem watched_look (h : Watched received s) : Watched received s.look := by
  obtain ⟨⟨taken, ha⟩, hstop, -, -⟩ := h
  rcases s.look_cases with ⟨a, b, ht, he⟩ | ⟨hn, condvar, ticket, -, he⟩ <;> rw [he]
  · have hb : b.stopped = false := (Inbox.take_stopped ht).trans hstop
    exact ⟨⟨_, Inbox.accounts_take ha ht⟩, hb, nofun, nofun⟩
  · -- The consumer starts to wait in the step in which it sees that there is nothing.
    exact ⟨⟨taken, ha⟩, hstop, fun _ _ _ => .inl hn, nofun⟩

theorem watched_poll {ticket : Nat} (h : Watched received s) (ht : s.consumer.ticket? = some ticket) :
    Watched received (s.poll ticket) := by
  rcases s.poll_cases ticket with ⟨hw, he⟩ | ⟨-, he⟩ <;> rw [he]
  · refine ⟨h.accounts, h.not_stopped, ?_, ?_⟩
    · rintro _ ⟨⟩
      exact h.waits ticket ht
    · rintro _ _ ⟨⟩
      simp only [hw, Bool.not_true]
  · exact ⟨h.accounts, h.not_stopped, nofun, nofun⟩

theorem watched_step (h : Watched received s) {x : HandoverStep} (hx : s.step? x = some s') :
    Watched (received ++ x.received?.toList) s' := by
  rcases step_cases hx with ⟨bytes, rfl, ho, rfl⟩ | ⟨e, rfl, -, rfl⟩ | ⟨rfl, -, rfl⟩ | ⟨rfl, -, rfl⟩ |
    ⟨ticket, rfl, ht, rfl⟩ <;>
    simp only [HandoverStep.received?, Option.toList_none, Option.toList_some, List.append_nil]
  · exact watched_datagram h ho bytes
  · exact watched_finish h e
  · exact watched_notify h
  · exact watched_look h
  · exact watched_poll h ht

theorem watched_run {P : Handover → HandoverStep → Prop} {steps : List HandoverStep} (h : Run P steps s) :
    Watched (steps.filterMap HandoverStep.received?) s := by
  induction h with
  | start => exact watched_start
  | @step steps x _ _ _ _ hx ih =>
    have hl : [x].filterMap HandoverStep.received? = x.received?.toList := by cases x <;> rfl
    rw [List.filterMap_append, hl]
    exact watched_step ih hx

/-! ## Who is woken for nothing -/

/-- Nobody is let go without reason: there is something for a consumer that was let go,
and for whomever the coming notification lets go. -/
structure Justified (s : Handover) : Prop where
  owes : s.owes = true → s.query.inbox.take? ≠ none
  letGo : ∀ ticket, s.consumer.ticket? = some ticket → s.query.condvar.waits ticket = false →
    s.query.inbox.take? ≠ none

theorem justified_step (h : Justified s) {x : HandoverStep} (hx : s.step? x = some s') (ha : Apart s x) :
    Justified s' := by
  rcases step_cases hx with ⟨bytes, rfl, -, rfl⟩ | ⟨e, rfl, -, rfl⟩ | ⟨rfl, ho, rfl⟩ | ⟨rfl, -, rfl⟩ |
    ⟨ticket, rfl, ht, rfl⟩
  · refine ⟨Inbox.take_receive_new, ?_⟩
    intro ticket ht hw
    exact Inbox.take_receive (h.letGo ticket ht hw) bytes
  · have hthere : (s.finish e).query.inbox.take? ≠ none := Inbox.take_finish s.query.inbox e
    exact ⟨fun _ => hthere, fun _ _ _ => hthere⟩
  · -- What the receiver owed a notification for is still there.
    have hthere : s.notify.query.inbox.take? ≠ none := h.owes ho
    exact ⟨nofun, fun _ _ _ => hthere⟩
  · -- The consumer may have taken all there is, but then the receiver owes nothing.
    have ho : s.owes = false := ha rfl
    rcases s.look_cases with ⟨a, b, -, he⟩ | ⟨-, condvar, ticket, hw, he⟩ <;> rw [he]
    · refine ⟨?_, nofun⟩
      intro ho'
      simp [ho] at ho'
    · refine ⟨?_, ?_⟩
      · intro ho'
        simp [ho] at ho'
      · rintro _ ⟨⟩ hw'
        rw [hw] at hw'
        cases hw'
  · rcases s.poll_cases ticket with ⟨-, he⟩ | ⟨-, he⟩ <;> rw [he]
    · refine ⟨h.owes, ?_⟩
      rintro _ ⟨⟩
      exact h.letGo ticket ht
    · exact ⟨h.owes, nofun⟩

theorem justified_run {steps : List HandoverStep} (h : Run Apart steps s) : Justified s := by
  induction h with
  | start => exact ⟨nofun, nofun⟩
  | step _ hp hx ih => exact justified_step ih hx hp

/-! ## Wake-ups -/

/-- What is received wakes a sleeping consumer, unless it repeats an announcement. -/
theorem datagram_wakes {ticket : Nat} {woken : Bool} (h : Watched received s)
    (hc : s.consumer = .asleep ticket woken) (bytes : Utf8.Bytes) :
    (s.datagram bytes).settle.consumer =
      .asleep ticket (woken || !repeats received (Announcement.parse bytes)) := by
  obtain ⟨taken, ha⟩ := h.accounts
  rw [Inbox.accounts_repeats ha bytes, Bool.not_not, settle]
  cases hn : (s.query.inbox.receive bytes).2 with
  | false =>
    rw [if_neg (by simp [datagram, hn]), Bool.or_false]
    exact hc
  | true =>
    rw [if_pos (show (s.datagram bytes).owes = true from hn), Bool.or_true]
    exact notify_asleep (h.woken ticket woken hc) hc

theorem finish_wakes {ticket : Nat} {woken : Bool} (h : Watched received s)
    (hc : s.consumer = .asleep ticket woken) (e : SearchEnd) :
    (s.finish e).settle.consumer = .asleep ticket true :=
  notify_asleep (h.woken ticket woken hc) hc

/-- While the consumer waits, there is nothing for it or a notification to come. So if
none is to come, a sleeping consumer for which there is something has been woken, and if
the two stay apart, no other has. What is received and the end of the search wake it, but
an announcement that repeats one does not. -/
theorem run_wakes {P : Handover → HandoverStep → Prop} {steps : List HandoverStep} {s : Handover}
    (h : Run P steps s) :
    (∀ ticket, s.consumer.ticket? = some ticket → s.query.condvar.waits ticket = true →
      (s.query.inbox.queue = [] ∧ s.query.inbox.ending = none) ∨ s.owes = true) ∧
    ∀ ticket woken, s.consumer = .asleep ticket woken →
      (s.owes = false → s.query.inbox.take? ≠ none →
        woken = true ∧ ∃ a, (s.query.poll (.waiting ticket)).2 = .ready a) ∧
      (s.owes = false → (∃ a, (s.query.poll (.waiting ticket)).2 = .ready a) → woken = true) ∧
      (Run Apart steps s → (woken = true ↔ ∃ a, (s.query.poll (.waiting ticket)).2 = .ready a)) ∧
      (∀ bytes s', s.step? (.datagram bytes) = some s' → s'.settle.consumer =
        .asleep ticket (woken || !repeats (steps.filterMap HandoverStep.received?) (Announcement.parse bytes))) ∧
      ∀ e s', s.step? (.finish e) = some s' → s'.settle.consumer = .asleep ticket true := by
  have hs := watched_run h
  refine ⟨fun ticket ht hw => ?_, fun ticket woken hc => ?_⟩
  · rcases hs.waits ticket ht hw with hn | ho
    · exact .inl (Inbox.take_eq_none.1 hn).2
    · exact .inr ho
  · have ht : s.consumer.ticket? = some ticket := by rw [hc]; rfl
    have hw : woken = !s.query.condvar.waits ticket := hs.woken ticket woken hc
    -- A wait that goes on has a reason, and there is none.
    have hletGo : s.owes = false → s.query.inbox.take? ≠ none → s.query.condvar.waits ticket = false := by
      intro ho hne
      rw [← Bool.not_eq_true]
      intro hw'
      rcases hs.waits ticket ht hw' with hn | ho'
      · exact hne hn
      · rw [ho] at ho'
        cases ho'
    rw [poll_ready, hw, Bool.not_eq_true']
    refine ⟨fun ho hne => ⟨hletGo ho hne, hletGo ho hne, hne⟩, fun _ hr => hr.1, fun ha => ?_, ?_, ?_⟩
    · exact ⟨fun hw' => ⟨hw', (justified_run ha).letGo ticket ht hw'⟩, And.left⟩
    · intro bytes s' hx
      obtain ⟨-, he⟩ := Option.ite_none_left_eq_some.1 hx
      cases he
      rw [← hw]
      exact datagram_wakes hs hc bytes
    · intro e s' hx
      obtain ⟨-, he⟩ := Option.ite_none_left_eq_some.1 hx
      cases he
      exact finish_wakes hs hc e

/-- A consumer that sleeps when something unusable comes in. -/
theorem run_wakes_sleeper :
    ∃ s, Run Apart [.look, .poll, .datagram [], .notify] s ∧ s.owes = false ∧ s.query.inbox.take? ≠ none ∧
      s.consumer = .asleep 0 true ∧ (∃ a, (s.query.poll (.waiting 0)).2 = .ready a) ∧
      ∃ s', s.step? (.finish .timedOut) = some s' ∧ s'.settle.consumer = .asleep 0 true := by
  have h₁ : Run Apart ([] ++ [.look]) ({} : Handover).look := .step .start (fun _ => rfl) rfl
  have h₂ := Run.step (x := .poll) h₁ (fun _ => rfl) rfl
  have h₃ := Run.step (x := .datagram []) h₂ nofun rfl
  have h₄ := Run.step (x := .notify) h₃ nofun rfl
  obtain ⟨-, hall⟩ := run_wakes h₄
  obtain ⟨hthere, -, -, -, hfinish⟩ := hall 0 true rfl
  exact ⟨_, h₄, rfl, by decide, rfl, (hthere rfl (by decide)).2, _, rfl, hfinish .timedOut _ rfl⟩

end Handover

end Gateway
