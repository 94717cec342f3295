import Gateway.Search.Query
import Gateway.Proofs.Enumeration
/-!
# What an inbox holds

An inbox never loses what it receives: what has been taken from it, followed by what
is queued in it, is what it has received without the announcements of USNs that were
announced before (`Accounts`). Every operation of a query acts on its inbox by one of
the inbox's own operations, so a run of a query is accounted for step by step.
-/
namespace Gateway

/-- What was read from a datagram. -/
abbrev Received := Except BadAnnouncement Announcement

/-- The USN that was announced, if any. -/
def usn? : Received → Option Text
  | .ok r => some r.usn
  | .error _ => none

/-- The USNs that are announced, in order. -/
def usns (l : List Received) : List Text := l.filterMap usn?

/-- An announcement of a USN that was announced earlier. -/
def repeats (earlier : List Received) (x : Received) : Bool := (usn? x).any (usns earlier).contains

/-- `l` without the announcements in it that repeat one of `earlier` or one before them. -/
def freshAfter (earlier : List Received) : List Received → List Received
  | [] => []
  | x :: l => if repeats earlier x then freshAfter (earlier ++ [x]) l else x :: freshAfter (earlier ++ [x]) l

/-- `l` without the announcements of USNs that were announced before in it. -/
def fresh (l : List Received) : List Received := freshAfter [] l

/-- Whether what was received is no announcement. -/
def isBad : Received → Bool
  | .ok _ => false
  | .error _ => true

/-! ## Lists without repeats -/

theorem usns_error (e : BadAnnouncement) (l : List Received) : usns (.error e :: l) = usns l := rfl

theorem usns_ok (r : Announcement) (l : List Received) : usns (.ok r :: l) = r.usn :: usns l := rfl

theorem usns_concat_error (l : List Received) (e : BadAnnouncement) : usns (l ++ [.error e]) = usns l := by
  simp [usns, usn?]

theorem usns_concat_ok (l : List Received) (r : Announcement) : usns (l ++ [.ok r]) = usns l ++ [r.usn] := by
  simp [usns, usn?]

theorem mem_usns_concat (l : List Received) (x : Received) (usn : Text) :
    usn ∈ usns (l ++ [x]) ↔ usn ∈ usns l ∨ usn? x = some usn := by
  simp only [usns, List.filterMap_append, List.mem_append, List.mem_filterMap, List.mem_singleton, exists_eq_left]

theorem repeats_ok (earlier : List Received) (r : Announcement) :
    repeats earlier (.ok r) = true ↔ r.usn ∈ usns earlier := by
  simp [repeats, usn?]

theorem repeats_eq_false (earlier : List Received) (x : Received) :
    repeats earlier x = false ↔ ∀ usn, usn? x = some usn → usn ∉ usns earlier := by
  cases x <;> simp [repeats, usn?]

theorem freshAfter_error (earlier l : List Received) (e : BadAnnouncement) :
    freshAfter earlier (.error e :: l) = .error e :: freshAfter (earlier ++ [.error e]) l := rfl

theorem freshAfter_old {earlier : List Received} {r : Announcement} (l : List Received) (h : r.usn ∈ usns earlier) :
    freshAfter earlier (.ok r :: l) = freshAfter (earlier ++ [.ok r]) l := by
  rw [freshAfter, if_pos ((repeats_ok earlier r).2 h)]

theorem freshAfter_new {earlier : List Received} {r : Announcement} (l : List Received) (h : r.usn ∉ usns earlier) :
    freshAfter earlier (.ok r :: l) = .ok r :: freshAfter (earlier ++ [.ok r]) l := by
  rw [freshAfter, if_neg (mt (repeats_ok earlier r).1 h)]

/-- What is left is what repeats nothing, neither of `earlier` nor in front of it in the list. -/
theorem freshAfter_enumerates (earlier l : List Received) :
    Enumerates (· < ·) (fun (i : Nat) x => l[i]? = some x ∧ repeats (earlier ++ l.take i) x = false)
      (freshAfter earlier l) := by
  induction l generalizing earlier with
  | nil => exact .of_none (by simp)
  | cons x l ih =>
    have ih' : Enumerates (· < ·) (fun (i : Nat) y => (x :: l)[i + 1]? = some y ∧
        repeats (earlier ++ (x :: l).take (i + 1)) y = false) (freshAfter (earlier ++ [x]) l) := by
      refine (ih (earlier ++ [x])).congr fun i y => ?_
      rw [List.getElem?_cons_succ, List.take_succ_cons, List.append_assoc, List.singleton_append]
    have hat : ∀ y, (x :: l)[0]? = some y ∧ repeats (earlier ++ (x :: l).take 0) y = false ↔
        x = y ∧ repeats earlier y = false := by
      intro y
      rw [List.getElem?_cons_zero, List.take_zero, List.append_nil, Option.some.injEq]
    rw [freshAfter]
    split
    · rename_i hr
      refine .skip ih' fun y hy => ?_
      obtain ⟨rfl, hy⟩ := (hat y).1 hy
      rw [hr] at hy
      cases hy
    · rename_i hr
      refine .cons ih' fun y => (hat y).trans ⟨fun h => h.1.symm, ?_⟩
      rintro rfl
      exact ⟨rfl, by simpa using hr⟩

/-- What is left of a whole list. -/
theorem fresh_enumerates (l : List Received) :
    Enumerates (· < ·) (fun (i : Nat) x => l[i]? = some x ∧ ∀ usn, usn? x = some usn → usn ∉ usns (l.take i))
      (fresh l) := by
  refine (freshAfter_enumerates [] l).congr fun i x => ?_
  rw [repeats_eq_false, List.nil_append]

theorem freshAfter_append (earlier l l' : List Received) :
    freshAfter earlier (l ++ l') = freshAfter earlier l ++ freshAfter (earlier ++ l) l' := by
  induction l generalizing earlier with
  | nil => simp [freshAfter]
  | cons x l ih =>
    simp only [List.cons_append, freshAfter, ih, List.append_assoc, List.nil_append]
    split <;> rfl

theorem fresh_concat (l : List Received) (x : Received) :
    fresh (l ++ [x]) = fresh l ++ if repeats l x then [] else [x] := by
  rw [fresh, freshAfter_append]
  rfl

theorem freshAfter_sublist (earlier l : List Received) : (freshAfter earlier l).Sublist l := by
  induction l generalizing earlier with
  | nil => exact .slnil
  | cons x l ih =>
    rw [freshAfter]
    split
    · exact (ih _).cons x
    · exact (ih _).cons_cons x

/-- What cannot be used is never left out. -/
theorem filter_isBad_freshAfter (earlier l : List Received) :
    (freshAfter earlier l).filter isBad = l.filter isBad := by
  induction l generalizing earlier with
  | nil => rfl
  | cons x l ih =>
    cases x with
    | error e => rw [freshAfter_error, List.filter_cons_of_pos rfl, List.filter_cons_of_pos rfl, ih]
    | ok r =>
      have hr : ¬ isBad (.ok r) = true := Bool.false_ne_true
      by_cases h : r.usn ∈ usns earlier
      · rw [freshAfter_old l h, List.filter_cons_of_neg hr, ih]
      · rw [freshAfter_new l h, List.filter_cons_of_neg hr, List.filter_cons_of_neg hr, ih]

/-- Exactly the USNs that were not announced earlier are left, -/
theorem mem_usns_freshAfter (earlier l : List Received) (usn : Text) :
    usn ∈ usns (freshAfter earlier l) ↔ usn ∈ usns l ∧ usn ∉ usns earlier := by
  induction l generalizing earlier with
  | nil => simp [freshAfter, usns]
  | cons x l ih =>
    cases x with
    | error e => rw [freshAfter_error, usns_error, usns_error, ih, usns_concat_error]
    | ok r =>
      by_cases h : r.usn ∈ usns earlier
      · rw [freshAfter_old l h, ih, usns_concat_ok, usns_ok]
        simp only [List.mem_cons, List.mem_append, List.not_mem_nil, or_false, not_or]
        constructor
        · rintro ⟨hl, he, -⟩
          exact ⟨.inr hl, he⟩
        · rintro ⟨rfl | hl, he⟩
          · exact absurd h he
          · refine ⟨hl, he, ?_⟩
            rintro rfl
            exact he h
      · rw [freshAfter_new l h, usns_ok, usns_ok, List.mem_cons, ih, usns_concat_ok]
        simp only [List.mem_cons, List.mem_append, List.not_mem_nil, or_false, not_or]
        constructor
        · rintro (rfl | ⟨hl, he, -⟩)
          · exact ⟨.inl rfl, h⟩
          · exact ⟨.inr hl, he⟩
        · rintro ⟨hu, he⟩
          by_cases hr : usn = r.usn
          · exact .inl hr
          · exact .inr ⟨hu.resolve_left hr, he, hr⟩

/-- each of them once. -/
theorem nodup_usns_freshAfter (earlier l : List Received) : (usns (freshAfter earlier l)).Nodup := by
  induction l generalizing earlier with
  | nil => exact .nil
  | cons x l ih =>
    cases x with
    | error e => exact ih _
    | ok r =>
      by_cases h : r.usn ∈ usns earlier
      · rw [freshAfter_old l h]
        exact ih _
      · rw [freshAfter_new l h, usns_ok, List.nodup_cons]
        refine ⟨fun hm => ?_, ih _⟩
        have := ((mem_usns_freshAfter _ _ _).1 hm).2
        rw [usns_concat_ok] at this
        exact this (List.mem_append_right _ List.mem_cons_self)

/-- What cannot be used makes no difference to which announcements are left. -/
theorem freshAfter_filter_isBad {earlier earlier' : List Received} (he : usns earlier' = usns earlier)
    (l : List Received) :
    (freshAfter earlier' (l.filter fun x => !isBad x)).filterMap Except.toOption =
      (freshAfter earlier l).filterMap Except.toOption := by
  induction l generalizing earlier earlier' with
  | nil => rfl
  | cons x l ih =>
    cases x with
    | error e =>
      rw [List.filter_cons_of_neg Bool.false_ne_true, freshAfter_error]
      exact ih (he.trans (usns_concat_error earlier e).symm)
    | ok r =>
      have he' : usns (earlier' ++ [.ok r]) = usns (earlier ++ [.ok r]) := by
        rw [usns_concat_ok, usns_concat_ok, he]
      rw [List.filter_cons_of_pos rfl]
      by_cases h : r.usn ∈ usns earlier
      · rw [freshAfter_old l h, freshAfter_old _ (he ▸ h)]
        exact ih he'
      · rw [freshAfter_new l h, freshAfter_new _ (he ▸ h)]
        exact congrArg (r :: ·) (ih he')

/-! ## What the operations do -/

/-- What an answer hands out of the queue. -/
def Answer.received? : Answer → Option Received
  | .announcement r => some (.ok r)
  | .unusable e => some (.error e)
  | .ended _ => none

theorem received_ofReceived (x : Received) : (Answer.ofReceived x).received? = some x := by
  cases x <;> rfl

namespace Inbox

/-- A datagram repeats a USN that was taken in, or it is taken in. -/
theorem receive_cases (b : Inbox) (bytes : Utf8.Bytes) :
    (∃ usn, usn? (Announcement.parse bytes) = some usn ∧ usn ∈ b.seen ∧ b.receive bytes = (b, false)) ∨
    ((∀ usn, usn? (Announcement.parse bytes) = some usn → usn ∉ b.seen) ∧
      b.receive bytes = ({ b with
        seen := b.seen ++ (usn? (Announcement.parse bytes)).toList
        queue := b.queue ++ [Announcement.parse bytes] }, true)) := by
  simp only [receive]
  cases hp : Announcement.parse bytes with
  | error e => exact .inr ⟨by simp [usn?], by simp [usn?]⟩
  | ok r =>
    by_cases h : r.usn ∈ b.seen
    · exact .inl ⟨r.usn, rfl, h, by simp [h]⟩
    · exact .inr ⟨by simpa [usn?] using h, by simp [usn?, h]⟩

theorem finish_queue (b : Inbox) (e : SearchEnd) : (b.finish e).queue = b.queue := by
  unfold finish; split <;> rfl

theorem finish_seen (b : Inbox) (e : SearchEnd) : (b.finish e).seen = b.seen := by
  unfold finish; split <;> rfl

theorem finish_stopped (b : Inbox) (e : SearchEnd) : (b.finish e).stopped = b.stopped := by
  unfold finish; split <;> rfl

theorem receive_stopped (b : Inbox) (bytes : Utf8.Bytes) : (b.receive bytes).1.stopped = b.stopped := by
  rcases receive_cases b bytes with ⟨_, _, _, h⟩ | ⟨_, h⟩ <;> rw [h]

theorem receive_ending (b : Inbox) (bytes : Utf8.Bytes) : (b.receive bytes).1.ending = b.ending := by
  rcases receive_cases b bytes with ⟨_, _, _, h⟩ | ⟨_, h⟩ <;> rw [h]

/-- The consumer gets the stop, the end of a search with nothing left, or the head of
the queue. -/
theorem take_cases {b b' : Inbox} {a : Answer} (h : b.take? = some (a, b')) :
    (a = .ended .aborted ∧ b.stopped = true ∧ b' = b) ∨
    (∃ e, a = .ended e ∧ b.stopped = false ∧ b.queue = [] ∧ b.ending = some e ∧ b' = b) ∨
    (∃ x, a = .ofReceived x ∧ b.stopped = false ∧ b.queue = x :: b'.queue ∧ b' = { b with queue := b'.queue }) := by
  unfold take? at h
  split at h
  · rename_i hs
    cases h
    exact .inl ⟨rfl, hs, rfl⟩
  · rename_i hs
    split at h
    · rename_i x queue hq
      cases h
      exact .inr (.inr ⟨x, rfl, by simpa using hs, hq, rfl⟩)
    · rename_i hq
      obtain ⟨e, he, heq⟩ := Option.map_eq_some_iff.1 h
      cases heq
      exact .inr (.inl ⟨e, rfl, by simpa using hs, hq, he, rfl⟩)

/-- Nothing but the queue is changed. -/
theorem take_frame {b b' : Inbox} {a : Answer} (h : b.take? = some (a, b')) :
    b' = { b with queue := b'.queue } := by
  rcases take_cases h with ⟨-, -, rfl⟩ | ⟨e, -, -, -, -, rfl⟩ | ⟨x, -, -, -, hb⟩
  · rfl
  · rfl
  · exact hb

theorem take_stopped {b b' : Inbox} {a : Answer} (h : b.take? = some (a, b')) : b'.stopped = b.stopped := by
  rw [take_frame h]

theorem take_ending {b b' : Inbox} {a : Answer} (h : b.take? = some (a, b')) : b'.ending = b.ending := by
  rw [take_frame h]

theorem take_eq_none {b : Inbox} : b.take? = none ↔ b.stopped = false ∧ b.queue = [] ∧ b.ending = none := by
  unfold take?
  cases b.stopped <;> cases b.queue <;> simp

theorem receive_old {b : Inbox} {bytes : Utf8.Bytes} (h : (b.receive bytes).2 = false) :
    (b.receive bytes).1 = b := by
  rcases receive_cases b bytes with ⟨_, _, _, he⟩ | ⟨_, he⟩ <;> rw [he] at h ⊢
  cases h

/-- There is something in an inbox that has taken in a datagram, -/
theorem take_receive_new {b : Inbox} {bytes : Utf8.Bytes} (h : (b.receive bytes).2 = true) :
    (b.receive bytes).1.take? ≠ none := by
  rcases receive_cases b bytes with ⟨_, _, _, he⟩ | ⟨_, he⟩ <;> rw [he] at h ⊢
  · cases h
  · simp [take_eq_none]

theorem take_receive {b : Inbox} (h : b.take? ≠ none) (bytes : Utf8.Bytes) : (b.receive bytes).1.take? ≠ none := by
  cases hn : (b.receive bytes).2 with
  | false => rwa [receive_old hn]
  | true => exact take_receive_new hn

/-- and in one whose search has ended. -/
theorem take_finish (b : Inbox) (e : SearchEnd) : (b.finish e).take? ≠ none := by
  intro h
  have := (take_eq_none.1 h).2.2
  unfold finish at this
  split at this
  · rename_i he
    rw [he] at this
    cases this
  · cases this

/-! ## Accounts -/

/-- An inbox that has received `received` and from which `taken` has been taken. -/
structure Accounts (received taken : List Received) (b : Inbox) : Prop where
  all : taken ++ b.queue = fresh received
  seen : ∀ usn, usn ∈ b.seen ↔ usn ∈ usns received

variable {received taken : List Received} {b b' : Inbox}

theorem accounts_new : Accounts [] [] {} := ⟨rfl, fun _ => Iff.rfl⟩

/-- What is taken in is what repeats no announcement. -/
theorem accounts_repeats (h : Accounts received taken b) (bytes : Utf8.Bytes) :
    repeats received (Announcement.parse bytes) = !(b.receive bytes).2 := by
  rcases receive_cases b bytes with ⟨usn, hu, hm, he⟩ | ⟨hn, he⟩ <;> rw [he]
  · simpa [repeats, hu] using (h.seen usn).1 hm
  · refine (repeats_eq_false received _).2 fun usn hu hm => ?_
    exact hn usn hu ((h.seen usn).2 hm)

theorem accounts_receive (h : Accounts received taken b) (bytes : Utf8.Bytes) :
    Accounts (received ++ [Announcement.parse bytes]) taken (b.receive bytes).1 := by
  have hr := accounts_repeats h bytes
  rcases receive_cases b bytes with ⟨usn, hu, hm, he⟩ | ⟨hn, he⟩ <;> rw [he] at hr ⊢
  · refine ⟨by rw [fresh_concat, hr, h.all]; simp, ?_⟩
    intro u
    rw [mem_usns_concat, hu, h.seen u]
    -- The USN is an old one, so it is no addition to what was seen.
    constructor
    · exact .inl
    · rintro (hu' | heq)
      · exact hu'
      · cases heq
        exact (h.seen usn).1 hm
  · refine ⟨by rw [fresh_concat, hr, ← h.all]; simp, ?_⟩
    intro u
    rw [mem_usns_concat, List.mem_append, h.seen u, Option.mem_toList]

theorem accounts_finish (h : Accounts received taken b) (e : SearchEnd) : Accounts received taken (b.finish e) :=
  ⟨by rw [finish_queue, h.all], by rw [finish_seen]; exact h.seen⟩

theorem accounts_stop (h : Accounts received taken b) : Accounts received taken { b with stopped := true } :=
  ⟨h.all, h.seen⟩

theorem accounts_take (h : Accounts received taken b) {a : Answer} (ht : b.take? = some (a, b')) :
    Accounts received (taken ++ a.received?.toList) b' := by
  rcases take_cases ht with ⟨rfl, -, rfl⟩ | ⟨e, rfl, -, -, -, rfl⟩ | ⟨x, rfl, -, hq, hb⟩
  · simpa [Answer.received?] using h
  · simpa [Answer.received?] using h
  · refine ⟨?_, ?_⟩
    · rw [received_ofReceived, ← h.all, hq]
      simp
    · rw [hb]; exact h.seen

end Inbox

/-! ## Queries -/

namespace Query

theorem onDatagram_inbox (q : Query) (bytes : Utf8.Bytes) : (q.onDatagram bytes).inbox = (q.inbox.receive bytes).1 := by
  simp only [onDatagram]
  split <;> rfl

theorem finish_inbox (q : Query) (e : SearchEnd) : (q.finish e).inbox = q.inbox.finish e := rfl

theorem abandon_inbox (q : Query) (g : Get) : (q.abandon g).inbox = q.inbox := by
  cases g <;> rfl

theorem notify_waits (q : Query) (ticket : Nat) : q.notify.condvar.waits ticket = false := rfl

/-- A datagram changes nothing, or it is taken in and everyone who waits is let go. -/
theorem onDatagram_cases (q : Query) (bytes : Utf8.Bytes) :
    ((q.inbox.receive bytes).2 = false ∧ q.onDatagram bytes = q) ∨
    ((q.inbox.receive bytes).2 = true ∧
      q.onDatagram bytes = { q with inbox := (q.inbox.receive bytes).1 }.notify) := by
  unfold onDatagram
  rcases Inbox.receive_cases q.inbox bytes with ⟨_, _, _, h⟩ | ⟨_, h⟩ <;> rw [h]
  · exact .inl ⟨rfl, rfl⟩
  · exact .inr ⟨rfl, rfl⟩

theorem poll_asleep {q : Query} {ticket : Nat} (h : q.condvar.waits ticket = true) :
    q.poll (.waiting ticket) = (q, .pending (.waiting ticket)) := by
  rw [poll, if_pos h]

theorem poll_awake {q : Query} {ticket : Nat} (h : q.condvar.waits ticket = false) :
    q.poll (.waiting ticket) = q.check := by
  rw [poll, if_neg (by simp [h])]

theorem check_cases (q : Query) :
    (∃ a b, q.inbox.take? = some (a, b) ∧ q.check = ({ q with inbox := b }, .ready a)) ∨
    (q.inbox.take? = none ∧ q.check =
      ({ q with condvar := (q.condvar.register ()).1 }, .pending (.waiting (q.condvar.register ()).2))) := by
  unfold check
  split
  · rename_i a b h
    exact .inl ⟨a, b, h, rfl⟩
  · rename_i h
    exact .inr ⟨h, rfl⟩

/-- A poll takes what there is in the inbox, goes on waiting, or starts to wait when
there is nothing in the inbox. -/
theorem poll_cases (q : Query) (g : Get) :
    (∃ a b, q.inbox.take? = some (a, b) ∧ q.poll g = ({ q with inbox := b }, .ready a)) ∨
    (∃ ticket, g = .waiting ticket ∧ q.condvar.waits ticket = true ∧ q.poll g = (q, .pending g)) ∨
    (q.inbox.take? = none ∧ q.poll g =
      ({ q with condvar := (q.condvar.register ()).1 }, .pending (.waiting (q.condvar.register ()).2))) := by
  cases g with
  | fresh => exact (check_cases q).imp_right .inr
  | waiting ticket =>
    by_cases hw : q.condvar.waits ticket = true
    · exact .inr (.inl ⟨ticket, rfl, hw, poll_asleep hw⟩)
    · rw [poll_awake (by simpa using hw)]
      exact (check_cases q).imp_right .inr

end Query

end Gateway
