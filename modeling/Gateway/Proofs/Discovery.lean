import Mathlib.Data.List.Induction
import Gateway.Discovery
import Gateway.Proofs.Selection
import Gateway.Proofs.Search.Inbox
/-!
# What discovery finds

The receiver and discovery take turns in any order. Whatever the order, discovery
fetches the descriptions of the first usable datagrams of all USNs, and its result is
what a search finds in them one after another (`run_discovers`).

While discovery goes on, what it has followed up, counting the announcement in hand as
done, is what has been taken out of the inbox (`Follows`). Once the search has ended,
each turn uses up some of the work that is left, so discovery comes to an end.
-/
namespace Gateway

/-! ## The plan -/

/-- The first usable datagram of each USN, in order of arrival. -/
def leads (datagrams : List Utf8.Bytes) : List Announcement :=
  (fresh (datagrams.map Announcement.parse)).filterMap Except.toOption

namespace Discovery

variable (fetch : Url → Except DescriptionError Device)

/-- The descriptions that can be had, with the announcements that led to them. -/
def described (answers : List Announcement) : List (Device × Announcement) :=
  answers.filterMap fun r => (fetch r.location).toOption.map fun root => (root, r)

/-- What a search finds in all of them. -/
def findable (answers : List Announcement) : List WanConnection :=
  (selectAll (described fetch answers) []).1.flatten

/-- What following up announcements has brought so far. -/
structure Harvest where
  found : List WanConnection := []
  seen : List Text := []
  fetched : List Url := []

/-- The harvest after the description `root` of a device that answered. -/
def Harvest.add (h : Harvest) (r : Announcement) (root : Device) : Harvest :=
  { h with found := h.found ++ (select root r h.seen).1, seen := (select root r h.seen).2 }

/-- The harvest after an announcement has been followed up. -/
def Harvest.follow (h : Harvest) (r : Announcement) : Harvest :=
  let h := { h with fetched := h.fetched ++ [r.location] }
  match fetch r.location with
  | .ok root => h.add r root
  | .error _ => h

theorem foldl_follow (answers : List Announcement) (h : Harvest) :
    answers.foldl (Harvest.follow fetch) h =
      { found := h.found ++ (selectAll (described fetch answers) h.seen).1.flatten
        seen := (selectAll (described fetch answers) h.seen).2
        fetched := h.fetched ++ answers.map (·.location) } := by
  induction answers generalizing h with
  | nil => simp [described, selectAll]
  | cons r answers ih =>
    rw [List.foldl_cons, ih, Harvest.follow]
    cases hf : fetch r.location with
    | ok root => simp [described, hf, Except.toOption, selectAll, Harvest.add]
    | error e => simp [described, hf, Except.toOption]

/-! ## Where discovery stands -/

/-- What discovery has so far. -/
def harvest (d : Discovery) : Harvest := ⟨d.found, d.seen, d.fetched⟩

/-- What there will be when the announcement in hand has been followed up. -/
def settled (d : Discovery) : Harvest :=
  match d.stage with
  | .fetching r => d.harvest.follow fetch r
  | .selecting r root => d.harvest.add r root
  | .asking _ | .done _ => d.harvest

/-- Discovery after the datagrams `received` and the ends `ends` of the search. -/
structure Follows (received : List Received) (ends : List SearchEnd) (d : Discovery) : Prop where
  /-- What has been taken out of the inbox has been followed up or is in hand. -/
  accounts : ∃ taken, d.query.inbox.Accounts received taken ∧
    d.settled fetch = (taken.filterMap Except.toOption).foldl (Harvest.follow fetch) {}
  not_stopped : d.query.inbox.stopped = false
  ending : d.query.inbox.ending = ends.head?
  /-- Discovery only sleeps when there is nothing for it. -/
  asleep : ∀ ticket, d.stage = .asking (.waiting ticket) → d.query.condvar.waits ticket = true →
    d.query.inbox.take? = none
  done : ∀ result, d.stage = .done result → d.query.inbox.queue = [] ∧
    ∃ e, d.query.inbox.ending = some e ∧ result = conclude d.found e

variable {fetch} {received : List Received} {ends : List SearchEnd} {d : Discovery}

theorem follows_start : Follows fetch [] [] { query := {} } :=
  ⟨⟨[], Inbox.accounts_new, rfl⟩, rfl, rfl, nofun, nofun⟩

/-- Datagrams only come before the search ends, so discovery is not done then. -/
theorem follows_datagram (h : Follows fetch received [] d) (bytes : Utf8.Bytes) :
    Follows fetch (received ++ [Announcement.parse bytes]) [] { d with query := d.query.onDatagram bytes } := by
  obtain ⟨⟨taken, ha, hs⟩, hstop, hend, hasleep, hdone⟩ := h
  refine ⟨⟨taken, ?_, hs⟩, ?_, ?_, ?_, ?_⟩
  · rw [Query.onDatagram_inbox]
    exact Inbox.accounts_receive ha bytes
  · rw [Query.onDatagram_inbox, Inbox.receive_stopped]
    exact hstop
  · rw [Query.onDatagram_inbox, Inbox.receive_ending]
    exact hend
  · intro ticket hst hw
    -- A datagram that is taken in lets everyone go, and any other changes nothing.
    rcases d.query.onDatagram_cases bytes with ⟨-, he⟩ | ⟨-, he⟩
    · simp only [he] at hw ⊢
      exact hasleep ticket hst hw
    · simp only [he, Query.notify_waits] at hw
      cases hw
  · intro result hst
    obtain ⟨-, e, he, -⟩ := hdone result hst
    rw [hend] at he
    cases he

theorem follows_finish (h : Follows fetch received ends d) (e : SearchEnd) :
    Follows fetch received (ends ++ [e]) { d with query := d.query.finish e } := by
  obtain ⟨⟨taken, ha, hs⟩, hstop, hend, hasleep, hdone⟩ := h
  refine ⟨⟨taken, Inbox.accounts_finish ha e, hs⟩, ?_, ?_, ?_, ?_⟩
  · rw [Query.finish_inbox, Inbox.finish_stopped]
    exact hstop
  · rw [Query.finish_inbox, Inbox.finish]
    cases ends with
    | nil =>
      rw [List.head?_nil] at hend
      simp [hend, hstop]
    | cons e' ends =>
      rw [List.head?_cons] at hend
      simp [hend]
  · intro ticket _ hw
    rw [Query.finish, Query.notify_waits] at hw
    cases hw
  · intro result hst
    obtain ⟨hq, e', he, hr⟩ := hdone result hst
    refine ⟨by rw [Query.finish_inbox, Inbox.finish_queue]; exact hq, e', ?_, hr⟩
    rw [Query.finish_inbox, Inbox.finish, he]
    exact he

/-- Discovery that neither sleeps nor is done. -/
theorem follows_busy {taken : List Received} (ha : d.query.inbox.Accounts received taken)
    (hs : d.settled fetch = (taken.filterMap Except.toOption).foldl (Harvest.follow fetch) {})
    (hstop : d.query.inbox.stopped = false) (hend : d.query.inbox.ending = ends.head?)
    (hasleep : ∀ ticket, d.stage ≠ .asking (.waiting ticket)) (hdone : ∀ result, d.stage ≠ .done result) :
    Follows fetch received ends d :=
  ⟨⟨taken, ha, hs⟩, hstop, hend, fun ticket h => absurd h (hasleep ticket), fun result h => absurd h (hdone result)⟩

/-- What `turn` makes of a query's answer. -/
theorem ask_ready {g : Get} {a : Answer} {q : Query} :
    d.query.poll g = (q, .ready a) → d.ask g = { d with
      query := q
      stage := match a with
        | .announcement r => .fetching r
        | .unusable _ => .asking .fresh
        | .ended e => .done (conclude d.found e) } := by
  intro h
  simp only [ask, h]
  cases a <;> rfl

theorem ask_pending {g g' : Get} {q : Query} (h : d.query.poll g = (q, .pending g')) :
    d.ask g = { d with query := q, stage := .asking g' } := by
  simp only [ask, h]

theorem follows_ask (h : Follows fetch received ends d) {g : Get} (hst : d.stage = .asking g) :
    Follows fetch received ends (d.ask g) := by
  obtain ⟨⟨taken, ha, hs⟩, hstop, hend, hasleep, hdone⟩ := h
  rw [settled, hst] at hs
  rcases d.query.poll_cases g with ⟨a, b, ht, he⟩ | ⟨ticket, rfl, hw, he⟩ | ⟨hn, he⟩
  · rw [ask_ready he]
    have hb := Inbox.accounts_take ha ht
    have hbstop : b.stopped = false := (Inbox.take_stopped ht).trans hstop
    have hbend : b.ending = ends.head? := (Inbox.take_ending ht).trans hend
    rcases Inbox.take_cases ht with ⟨-, hs', -⟩ | ⟨e, rfl, -, hq, hbe, rfl⟩ | ⟨x, rfl, -, -, -⟩
    · rw [hs'] at hstop
      cases hstop
    · refine ⟨⟨taken, ha, hs⟩, hstop, hend, nofun, ?_⟩
      rintro _ ⟨⟩
      exact ⟨hq, e, hbe, rfl⟩
    · rw [received_ofReceived] at hb
      cases x with
      | ok r =>
        refine follows_busy hb ?_ hbstop hbend (by simp [Answer.ofReceived]) (by simp [Answer.ofReceived])
        rw [List.filterMap_append, List.foldl_append, ← hs]
        rfl
      | error e =>
        refine follows_busy hb ?_ hbstop hbend (by simp [Answer.ofReceived]) (by simp [Answer.ofReceived])
        rw [List.filterMap_append, List.foldl_append, ← hs]
        rfl
  · rw [ask_pending he]
    exact ⟨⟨taken, ha, hs⟩, hstop, hend, fun ticket' ht hw => hasleep ticket' (hst.trans ht) hw, nofun⟩
  · rw [ask_pending he]
    exact ⟨⟨taken, ha, hs⟩, hstop, hend, fun _ _ _ => hn, nofun⟩

theorem follows_turn (h : Follows fetch received ends d) : Follows fetch received ends (d.turn fetch) := by
  cases hst : d.stage with
  | asking g =>
    simp only [turn, hst]
    exact follows_ask h hst
  | fetching r =>
    obtain ⟨⟨taken, ha, hs⟩, hstop, hend, -, -⟩ := h
    simp only [settled, hst, Harvest.follow] at hs
    simp only [turn, hst]
    cases hf : fetch r.location with
    | ok root =>
      rw [hf] at hs
      exact follows_busy ha hs hstop hend (by simp) (by simp)
    | error e =>
      rw [hf] at hs
      exact follows_busy ha hs hstop hend (by simp) (by simp)
  | selecting r root =>
    obtain ⟨⟨taken, ha, hs⟩, hstop, hend, -, -⟩ := h
    simp only [settled, hst] at hs
    simp only [turn, hst]
    exact follows_busy ha hs hstop hend (by simp) (by simp)
  | done result =>
    simp only [turn, hst]
    exact h

/-! ## Any order of steps -/

/-- Whether discovery itself does the step. -/
def Step.isTurn : Step → Bool
  | .turn => true
  | .datagram _ | .finish _ => false

theorem run_append (d : Discovery) (steps more : List Step) :
    run fetch d (steps ++ more) = run fetch (run fetch d steps) more := by
  rw [run, run, run, List.foldl_append]

theorem run_concat (d : Discovery) (steps : List Step) (x : Step) :
    run fetch d (steps ++ [x]) = (run fetch d steps).step fetch x := run_append d steps [x]

/-- As long as the search goes on. -/
theorem follows_during (steps : List Step) (datagrams : List Utf8.Bytes)
    (h : steps.filter (fun x => !x.isTurn) = datagrams.map .datagram) :
    Follows fetch (datagrams.map Announcement.parse) [] (run fetch { query := {} } steps) := by
  -- From the last step backwards, since `received` grows at its end.
  induction steps using List.reverseRecOn generalizing datagrams with
  | nil =>
    obtain rfl : datagrams = [] := by simpa using h.symm
    exact follows_start
  | append_singleton steps x ih =>
    rw [run_concat]
    rw [List.filter_append] at h
    cases x with
    | turn => exact follows_turn (ih datagrams (by simpa [Step.isTurn] using h))
    | finish e =>
      have : Step.finish e ∈ datagrams.map .datagram := by rw [← h]; simp [Step.isTurn]
      simp at this
    | datagram bytes =>
      obtain ⟨before, last, rfl, hb, hl⟩ := List.map_eq_append_iff.1 h.symm
      obtain ⟨bytes', rfl, heq⟩ := List.map_eq_singleton_iff.1 hl
      cases heq
      rw [List.map_append]
      exact follows_datagram (ih before hb.symm) bytes

/-- Once the search has ended. -/
theorem follows_after (steps : List Step) (datagrams : List Utf8.Bytes) (e : SearchEnd)
    (h : steps.filter (fun x => !x.isTurn) = datagrams.map .datagram ++ [.finish e]) :
    Follows fetch (datagrams.map Announcement.parse) [e] (run fetch { query := {} } steps) := by
  induction steps using List.reverseRecOn with
  | nil => simp at h
  | append_singleton steps x ih =>
    rw [run_concat]
    rw [List.filter_append] at h
    cases x with
    | turn => exact follows_turn (ih (by simpa [Step.isTurn] using h))
    | finish e' =>
      -- The search ends with this step, so only datagrams came before it.
      obtain ⟨hd, he⟩ := List.append_inj' h rfl
      cases he
      exact follows_finish (follows_during steps datagrams hd) e
    | datagram bytes =>
      obtain ⟨-, he⟩ := List.append_inj' h rfl
      cases he

/-! ## Coming to an end -/

/-- How many turns are left at most. -/
def work (d : Discovery) : Nat :=
  3 * d.query.inbox.queue.length + match d.stage with
    | .asking _ => 1
    | .fetching _ => 3
    | .selecting _ _ => 2
    | .done _ => 0

theorem work_le (h : Follows fetch received ends d) : d.work ≤ 3 * received.length + 3 := by
  obtain ⟨⟨taken, ha, -⟩, -, -, -, -⟩ := h
  have hq : d.query.inbox.queue.length ≤ received.length := by
    have hlen := congrArg List.length ha.all
    have hsub := (freshAfter_sublist [] received).length_le
    rw [List.length_append] at hlen
    simp only [fresh] at hlen
    omega
  unfold work
  cases d.stage <;> simp only <;> omega

/-- Once the search has ended, a turn leaves less work unless there is none. -/
theorem work_turn {e : SearchEnd} (h : Follows fetch received [e] d) :
    (d.turn fetch).work < d.work ∨ ∃ result, d.stage = .done result := by
  cases hst : d.stage with
  | done result => exact .inr ⟨result, rfl⟩
  | selecting r root =>
    left
    simp only [turn, hst, work]
    omega
  | fetching r =>
    left
    simp only [turn, hst, work]
    cases fetch r.location <;> simp only <;> omega
  | asking g =>
    left
    have hne : d.query.inbox.take? ≠ none := fun hn => by
      have := (Inbox.take_eq_none.1 hn).2.2
      rw [h.ending] at this
      cases this
    rw [turn, hst]
    rcases d.query.poll_cases g with ⟨a, b, ht, he⟩ | ⟨ticket, rfl, hw, he⟩ | ⟨hn, he⟩
    · simp only [ask_ready he, work, hst]
      rcases Inbox.take_cases ht with ⟨rfl, -, rfl⟩ | ⟨_, rfl, -, -, -, rfl⟩ | ⟨x, rfl, -, hq, -⟩
      · simp
      · simp
      · rw [hq, List.length_cons]
        cases x <;> simp only [Answer.ofReceived] <;> omega
    · exact absurd (h.asleep ticket hst hw) hne
    · exact absurd hn hne

/-- What is done stays as it is. -/
theorem done_run {result : Except SearchEnd (List WanConnection)} (h : d.stage = .done result) (steps : List Step) :
    (run fetch d steps).stage = .done result ∧ (run fetch d steps).fetched = d.fetched := by
  induction steps generalizing d with
  | nil => exact ⟨h, rfl⟩
  | cons x steps ih =>
    rw [run, List.foldl_cons]
    have hx : (d.step fetch x).stage = .done result ∧ (d.step fetch x).fetched = d.fetched := by
      cases x with
      | turn => simp only [step, turn, h, and_self]
      | datagram _ | finish _ => exact ⟨h, rfl⟩
    rw [← hx.2]
    exact ih hx.1

theorem done_of_turns {e : SearchEnd} (h : Follows fetch received [e] d) (n : Nat) (hn : d.work ≤ n) :
    ∃ result, (run fetch d (List.replicate n .turn)).stage = .done result := by
  induction n generalizing d with
  | zero =>
    rcases work_turn h with hlt | hdone
    · omega
    · exact hdone
  | succ n ih =>
    rcases work_turn h with hlt | ⟨result, hdone⟩
    · rw [List.replicate_succ, run, List.foldl_cons]
      exact ih (follows_turn h) (by simp only [step]; omega)
    · exact ⟨result, (done_run hdone _).1⟩

theorem fetched_step (d : Discovery) (x : Step) : d.fetched <+: (d.step fetch x).fetched := by
  cases x with
  | datagram _ | finish _ => exact List.prefix_refl _
  | turn =>
    simp only [step, turn]
    cases d.stage with
    | asking g => exact List.prefix_refl _
    | fetching r => exact List.prefix_append _ _
    | selecting r root => exact List.prefix_refl _
    | done result => exact List.prefix_refl _

theorem fetched_run (d : Discovery) (steps : List Step) : d.fetched <+: (run fetch d steps).fetched := by
  induction steps generalizing d with
  | nil => exact List.prefix_refl _
  | cons x steps ih => exact (fetched_step d x).trans (ih _)

/-! ## The result -/

/-- The deadline is no failure if anything was found. Any other end is one. -/
def verdict (found : List WanConnection) : SearchEnd → Except SearchEnd (List WanConnection)
  | .timedOut => if found = [] then .error .timedOut else .ok found
  | e => .error e

theorem conclude_eq (found : List WanConnection) (e : SearchEnd) : conclude found e = verdict found e := by
  cases e <;> cases found <;> rfl

/-- When discovery is done, everything that there was to follow up has been. -/
theorem follows_done {datagrams : List Utf8.Bytes} {e : SearchEnd}
    (h : Follows fetch (datagrams.map Announcement.parse) [e] d) {result : Except SearchEnd (List WanConnection)}
    (hst : d.stage = .done result) :
    result = verdict (findable fetch (leads datagrams)) e ∧ d.fetched = (leads datagrams).map (·.location) := by
  obtain ⟨⟨taken, ha, hs⟩, -, hend, -, hdone⟩ := h
  obtain ⟨hq, e', he', hr⟩ := hdone result hst
  obtain rfl : e = e' := by
    rw [hend] at he'
    cases he'
    rfl
  -- The queue is empty, so everything fresh has been taken and followed up.
  have ht : taken = fresh (datagrams.map Announcement.parse) := by
    rw [← ha.all, hq, List.append_nil]
  rw [settled, hst, ht, foldl_follow] at hs
  refine ⟨?_, congrArg Harvest.fetched hs⟩
  rw [hr, conclude_eq, show d.found = _ from congrArg Harvest.found hs]
  rfl

theorem leads_enumerates (datagrams : List Utf8.Bytes) :
    Enumerates (· < ·) (fun (i : Nat) r => (datagrams.map Announcement.parse)[i]? = some (.ok r) ∧
      r.usn ∉ usns ((datagrams.map Announcement.parse).take i)) (leads datagrams) := by
  refine ((fresh_enumerates (datagrams.map Announcement.parse)).filterMap Except.toOption).congr fun i r => ?_
  constructor
  · rintro ⟨x, ⟨hx, hu⟩, hr⟩
    cases x with
    | error e => cases hr
    | ok r' =>
      cases hr
      exact ⟨hx, hu r.usn rfl⟩
  · rintro ⟨hx, hu⟩
    refine ⟨.ok r, ⟨hx, ?_⟩, rfl⟩
    rintro _ ⟨⟩
    exact hu

/-- Datagrams that cannot be used lead nowhere and stand in the way of nothing. -/
theorem leads_filter (datagrams : List Utf8.Bytes) :
    leads (datagrams.filter fun bytes => !isBad (Announcement.parse bytes)) = leads datagrams := by
  have hmap : (datagrams.filter fun bytes => !isBad (Announcement.parse bytes)).map Announcement.parse =
      (datagrams.map Announcement.parse).filter fun x => !isBad x := by
    rw [List.filter_map]
    rfl
  rw [leads, hmap]
  exact freshAfter_filter_isBad rfl _

/-- Nor do descriptions that cannot be had. -/
theorem findable_filter (answers : List Announcement) :
    findable fetch (answers.filter fun r => (fetch r.location).isOk) = findable fetch answers := by
  have hd : described fetch (answers.filter fun r => (fetch r.location).isOk) = described fetch answers := by
    rw [described, described, List.filterMap_filter]
    congr 1
    funext r
    cases fetch r.location <;> rfl
  rw [findable, hd, findable]

theorem result_eq_some {result : Except SearchEnd (List WanConnection)} :
    d.result? = some result ↔ d.stage = .done result := by
  unfold result?
  cases d.stage <;> simp

theorem follows_turns (h : Follows fetch received ends d) (n : Nat) :
    Follows fetch received ends (run fetch d (List.replicate n .turn)) := by
  induction n generalizing d with
  | zero => exact h
  | succ n ih => exact ih (follows_turn h)

/-- When everything has arrived, turns alone bring discovery to its end. -/
theorem turns_done {datagrams : List Utf8.Bytes} {e : SearchEnd}
    (h : Follows fetch (datagrams.map Announcement.parse) [e] d) (n : Nat) (hn : 3 * datagrams.length + 3 ≤ n) :
    (run fetch d (List.replicate n .turn)).stage = .done (verdict (findable fetch (leads datagrams)) e) ∧
      (run fetch d (List.replicate n .turn)).fetched = (leads datagrams).map (·.location) := by
  have hw : d.work ≤ n := by
    have := work_le h
    rw [List.length_map] at this
    omega
  obtain ⟨result, hdone⟩ := done_of_turns h n hw
  obtain ⟨hr, hf⟩ := follows_done (follows_turns h n) hdone
  exact ⟨hr ▸ hdone, hf⟩

variable (fetch)

/-- Discovery fetches the location of the first usable datagram of each USN, in order of
arrival, and its result is what a search finds there, in whatever order its turns come
between the datagrams and the end of the search. -/
theorem run_discovers (datagrams : List Utf8.Bytes) (e : SearchEnd) (steps : List Step)
    (h : steps.filter (fun x => !x.isTurn) = datagrams.map .datagram ++ [.finish e]) :
    let locations := (leads datagrams).map (·.location)
    let outcome := verdict (findable fetch (leads datagrams)) e
    (∀ before after, steps = before ++ after →
      (run fetch { query := {} } before).fetched <+: locations ∧
      ∀ result, (run fetch { query := {} } before).result? = some result →
        result = outcome ∧ (run fetch { query := {} } before).fetched = locations) ∧
    (∀ n, 3 * datagrams.length + 3 ≤ n →
      (run fetch { query := {} } (steps ++ List.replicate n .turn)).result? = some outcome ∧
      (run fetch { query := {} } (steps ++ List.replicate n .turn)).fetched = locations) ∧
    Enumerates (· < ·) (fun (i : Nat) r => (datagrams.map Announcement.parse)[i]? = some (.ok r) ∧
      r.usn ∉ usns ((datagrams.map Announcement.parse).take i)) (leads datagrams) ∧
    leads (datagrams.filter fun bytes => !isBad (Announcement.parse bytes)) = leads datagrams ∧
    findable fetch ((leads datagrams).filter fun r => (fetch r.location).isOk) = findable fetch (leads datagrams) := by
  intro locations outcome
  have hend : ∀ n, 3 * datagrams.length + 3 ≤ n →
      (run fetch { query := {} } (steps ++ List.replicate n .turn)).stage = .done outcome ∧
      (run fetch { query := {} } (steps ++ List.replicate n .turn)).fetched = locations := by
    intro n hn
    rw [run_append]
    exact turns_done (follows_after steps datagrams e h) n hn
  refine ⟨fun before after hs => ?_, fun n hn => ?_, leads_enumerates datagrams, leads_filter datagrams,
    findable_filter _⟩
  · -- The run goes on from `before` to the end, where everything is known. What has
    -- been fetched by then begins with what has been fetched now.
    obtain ⟨hdone, hfetched⟩ := hend _ (Nat.le_refl _)
    rw [hs, List.append_assoc, run_append] at hdone hfetched
    refine ⟨hfetched ▸ fetched_run _ _, fun result hr => ?_⟩
    obtain ⟨hdone', hfetched'⟩ := done_run (result_eq_some.1 hr) (after ++ List.replicate (3 * datagrams.length + 3) .turn)
    rw [hdone] at hdone'
    rw [hfetched] at hfetched'
    cases hdone'
    exact ⟨rfl, hfetched'.symm⟩
  · rw [result_eq_some]
    exact hend n hn

/-- An answer to a search, with nothing but the headers that discovery needs. -/
def replyDatagram (usn location : Text) : Utf8.Bytes :=
  Utf8.encode ("HTTP/1.1 200 OK\r\nLOCATION: ".toList ++ location ++ "\r\nUSN: ".toList ++ usn ++ "\r\n\r\n".toList)

/-- Two devices, of which one answers twice, and a datagram that cannot be used. -/
def mixedDatagrams : List Utf8.Bytes :=
  [replyDatagram "uuid:a::1".toList "http://10.0.0.1/d.xml".toList, [],
    replyDatagram "uuid:a::1".toList "http://10.0.0.2/d.xml".toList,
    replyDatagram "uuid:b::1".toList "http://10.0.0.3/d.xml".toList]

/-- Only the first of the devices can be reached. -/
def mixedFetch (location : Url) : Except DescriptionError Device :=
  if location = Url.parse "http://10.0.0.1/d.xml".toList then .ok (smallGateway .one "uuid:w".toList)
  else .error .host

/-- The datagrams come in between turns of discovery, and then the deadline. -/
def mixedSteps : List Step :=
  .turn :: (mixedDatagrams.map .datagram).intersperse .turn ++ [.turn, .finish .timedOut]

theorem run_discovers_mixed :
    mixedSteps.filter (fun x => !x.isTurn) = mixedDatagrams.map .datagram ++ [.finish .timedOut] ∧
    let d := run mixedFetch { query := {} } (mixedSteps ++ List.replicate 15 .turn)
    d.fetched = [Url.parse "http://10.0.0.1/d.xml".toList, Url.parse "http://10.0.0.3/d.xml".toList] ∧
      ∃ found, d.result? = some (.ok found) ∧ found.length = 1 := by
  have hs : mixedSteps.filter (fun x => !x.isTurn) = mixedDatagrams.map .datagram ++ [.finish .timedOut] := rfl
  have hl : (leads mixedDatagrams).map (·.location) =
      [Url.parse "http://10.0.0.1/d.xml".toList, Url.parse "http://10.0.0.3/d.xml".toList] := by decide
  have hf : (findable mixedFetch (leads mixedDatagrams)).length = 1 := by decide
  obtain ⟨-, hend, -⟩ := run_discovers mixedFetch mixedDatagrams .timedOut mixedSteps hs
  obtain ⟨hr, hfetched⟩ := hend 15 (by decide)
  refine ⟨hs, hfetched.trans hl, _, hr.trans ?_, hf⟩
  rw [verdict, if_neg (List.ne_nil_of_length_pos (by omega))]

end Discovery

end Gateway
