import Gateway.Proofs.Discovery
import Gateway.Proofs.Session
import Gateway.Proofs.Url.Replacement
/-!
# Where a gateway is controlled

The control URL of a connection is the URL of the description with another path in it, so it
says where to connect just as that URL does, whatever the description says. A description is
only fetched from a URL that says where to connect. So every connection that discovery finds is
controlled at the endpoint that its description was fetched from, and no operation on it fails
for want of one (`control_stays`).
-/
namespace Gateway

/-! ## URLs -/

/-- It was read from a text, and perhaps given other paths since. -/
def Url.IsRead (u : Url) : Prop := ∃ s paths, u = (Url.parse s).replacePaths paths

theorem Url.isRead_parse (s : Text) : (Url.parse s).IsRead := ⟨s, [], rfl⟩

theorem Url.IsRead.endpoint?_replacePath {u : Url} (h : u.IsRead) (path : Text) :
    (u.replacePath path).endpoint? = u.endpoint? := by
  obtain ⟨s, paths, rfl⟩ := h
  rw [parse_eq, replacePaths_ofParts, replacePath_ofParts]
  exact (agrees_ofParts _ path).endpoint

theorem Announcement.isRead_location {bytes : Utf8.Bytes} {r : Announcement} (h : Announcement.parse bytes = .ok r) :
    r.location.IsRead := by
  unfold Announcement.parse at h
  split at h
  · unfold ofText at h
    dsimp only at h
    split at h
    · cases h
    · split at h
      · cases h
      · split at h
        · cases h
        · cases h
          exact Url.isRead_parse _
  · cases h

/-! ## Selection -/

variable {root : Device} {answer : Announcement} {seen : List Text} {w : WanConnection}

theorem exists_of_mem_select (h : w ∈ (select root answer seen).1) :
    ∃ device service, w = .ofService answer root device service := by
  unfold select at h
  split at h
  · cases h
  · obtain ⟨device, -, h⟩ := List.mem_flatMap.1 h
    obtain ⟨service, -, rfl⟩ := List.mem_map.1 h
    exact ⟨device, service, rfl⟩

theorem endpoint?_of_mem_select (hread : answer.location.IsRead) (h : w ∈ (select root answer seen).1) :
    w.controlUrl.endpoint? = answer.location.endpoint? := by
  obtain ⟨device, service, rfl⟩ := exists_of_mem_select h
  exact hread.endpoint?_replacePath _

/-! ## Descriptions -/

/-- What fetching the description at a URL may bring, whatever is seen of the network. -/
inductive Description.Brings (c : Config) (location : Url) : Except DescriptionError Device → Prop
  | refused {e : DescriptionError} (h : start c location = .error e) : Brings c location (.error e)
  | read {x : Http.Exchange} {answer : Except Http.ExchangeError Http.Response} (h : start c location = .ok x)
      (glimpses : List Http.Glimpse) (hanswer : (x.run glimpses).1.result? = some answer) :
      Brings c location (read answer)

theorem Description.Brings.isSome_endpoint? {c : Config} {location : Url}
    (h : Description.Brings c location (.ok root)) : location.endpoint?.isSome = true := by
  generalize hresult : Except.ok root = result at h
  cases h with
  | refused h => cases hresult
  | read h glimpses hanswer =>
    unfold Description.start at h
    split at h
    · cases h
    · next e he => rw [he, Option.isSome_some]

/-! ## Discovery -/

namespace Discovery

open Description (Brings)

/-- Discovery goes on from `d₀`, and each time a description is fetched the network may do something else. -/
inductive Runs (c : Config) (d₀ : Discovery) : Discovery → Prop
  | start : Runs c d₀ d₀
  | step {d : Discovery} {fetch : Url → Except DescriptionError Device} (h : Runs c d₀ d)
      (hfetch : ∀ location, Brings c location (fetch location)) (x : Step) : Runs c d₀ (d.step fetch x)

/-- `w` was selected in a description that was fetched, at one of the URLs `fetched`, from the endpoint `e`. -/
structure Found (c : Config) (fetched : List Url) (w : WanConnection) (r : Announcement) (root : Device)
    (e : Endpoint) : Prop where
  fetched : r.location ∈ fetched
  brings : Brings c r.location (.ok root)
  selected : ∃ seen, w ∈ (select root r seen).1
  fetchedFrom : r.location.endpoint? = some e
  controlledAt : w.controlUrl.endpoint? = some e

/-- What discovery is about to do can be followed back to what it has fetched and found. -/
def Stage.Traced (c : Config) (fetched : List Url) (found : List WanConnection) : Stage → Prop
  | .asking _ | .done (.error _) => True
  | .fetching r => r.location.IsRead
  | .selecting r root => r.location.IsRead ∧ r.location ∈ fetched ∧ Brings c r.location (.ok root)
  | .done (.ok result) => result = found

/-- Everything that discovery has in hand can be followed back to where it came from. -/
structure Traced (c : Config) (d : Discovery) : Prop where
  queue : ∀ r, .ok r ∈ d.query.inbox.queue → r.location.IsRead
  stage : d.stage.Traced c d.fetched d.found
  found : ∀ w ∈ d.found, ∃ r root e, Found c d.fetched w r root e

variable {c : Config} {d : Discovery} {fetch : Url → Except DescriptionError Device}

theorem traced_start : Traced c { query := {} } := by
  refine ⟨fun r hr => ?_, trivial, fun w hw => ?_⟩
  · cases hr
  · cases hw

theorem Found.mono {fetched fetched' : List Url} {r : Announcement} {e : Endpoint}
    (h : Found c fetched w r root e) (hfetched : fetched ⊆ fetched') : Found c fetched' w r root e :=
  ⟨hfetched h.fetched, h.brings, h.selected, h.fetchedFrom, h.controlledAt⟩

theorem Traced.datagram (h : d.Traced c) (bytes : Utf8.Bytes) :
    Traced c { d with query := d.query.onDatagram bytes } := by
  refine ⟨fun r hr => ?_, h.stage, h.found⟩
  dsimp only at hr
  rw [Query.onDatagram_inbox] at hr
  rcases d.query.inbox.receive_cases bytes with ⟨_, _, _, hb⟩ | ⟨_, hb⟩
  · rw [hb] at hr
    exact h.queue r hr
  · rw [hb] at hr
    rcases List.mem_append.1 hr with hr | hr
    · exact h.queue r hr
    · exact Announcement.isRead_location (List.mem_singleton.1 hr).symm

theorem traced_conclude (c : Config) (fetched : List Url) (found : List WanConnection) (e : SearchEnd) :
    (Stage.done (conclude found e)).Traced c fetched found := by
  unfold conclude
  split
  · rfl
  · trivial

theorem Traced.ask (h : d.Traced c) (g : Get) : (d.ask g).Traced c := by
  rcases d.query.poll_cases g with ⟨a, b, ht, he⟩ | ⟨ticket, rfl, -, he⟩ | ⟨-, he⟩
  · rw [ask_ready he]
    rcases Inbox.take_cases ht with ⟨rfl, -, rfl⟩ | ⟨e, rfl, -, -, -, rfl⟩ | ⟨x, rfl, -, hq, -⟩
    · exact ⟨h.queue, traced_conclude c _ _ _, h.found⟩
    · exact ⟨h.queue, traced_conclude c _ _ _, h.found⟩
    · have hrest : ∀ r, .ok r ∈ b.queue → r.location.IsRead := fun r hr =>
        h.queue r (hq ▸ List.mem_cons_of_mem _ hr)
      cases x with
      | error e => exact ⟨hrest, trivial, h.found⟩
      | ok r => exact ⟨hrest, h.queue r (hq ▸ List.mem_cons_self), h.found⟩
  · rw [ask_pending he]
    exact ⟨h.queue, trivial, h.found⟩
  · rw [ask_pending he]
    exact ⟨h.queue, trivial, h.found⟩

theorem Traced.turn (h : d.Traced c) (hfetch : ∀ location, Brings c location (fetch location)) :
    (d.turn fetch).Traced c := by
  have hstage := h.stage
  cases hst : d.stage with
  | asking g =>
    simp only [Discovery.turn, hst]
    exact h.ask g
  | fetching r =>
    rw [hst] at hstage
    have hfound : ∀ w ∈ d.found, ∃ r' root e, Found c (d.fetched ++ [r.location]) w r' root e := by
      intro w hw
      obtain ⟨r', root, e, hw⟩ := h.found w hw
      exact ⟨r', root, e, hw.mono (List.subset_append_left _ _)⟩
    have hbrings := hfetch r.location
    simp only [Discovery.turn, hst]
    cases hf : fetch r.location with
    | error e => exact ⟨h.queue, trivial, hfound⟩
    | ok root => exact ⟨h.queue, ⟨hstage, by simp, hf ▸ hbrings⟩, hfound⟩
  | selecting r root =>
    rw [hst] at hstage
    obtain ⟨hread, hfetched, hbrings⟩ := hstage
    obtain ⟨e, he⟩ := Option.isSome_iff_exists.1 hbrings.isSome_endpoint?
    simp only [Discovery.turn, hst]
    refine ⟨h.queue, trivial, fun w hw => ?_⟩
    rcases List.mem_append.1 hw with hw | hw
    · exact h.found w hw
    · exact ⟨r, root, e, hfetched, hbrings, ⟨d.seen, hw⟩, he, (endpoint?_of_mem_select hread hw).trans he⟩
  | done result =>
    simp only [Discovery.turn, hst]
    exact h

theorem Traced.step (h : d.Traced c) (hfetch : ∀ location, Brings c location (fetch location)) (x : Step) :
    (d.step fetch x).Traced c := by
  cases x with
  | turn => exact h.turn hfetch
  | datagram bytes => exact h.datagram bytes
  | finish e =>
    refine ⟨fun r hr => h.queue r ?_, h.stage, h.found⟩
    rwa [Discovery.step, Query.finish_inbox, Inbox.finish_queue] at hr

theorem Runs.traced {d₀ : Discovery} (h₀ : d₀.Traced c) (h : Runs c d₀ d) : d.Traced c := by
  induction h with
  | start => exact h₀
  | step _ hfetch x ih => exact ih.step hfetch x

theorem runs_run (hfetch : ∀ location, Brings c location (fetch location)) (d : Discovery) (steps : List Step) :
    Runs c d (d.run fetch steps) := by
  induction steps using List.reverseRecOn with
  | nil => exact .start
  | append_singleton steps x ih =>
    rw [Discovery.run, List.foldl_append]
    exact ih.step hfetch x

end Discovery

/-! ## Operations -/

/-- There was nowhere to connect to. -/
def OperationError.isHost : OperationError → Bool
  | .host _ | .call (.host _) => true
  | .unreachable | .aborted | .call _ | .reply _ => false

/-- It has not failed for want of an endpoint. -/
def Progress.Placed (p : Progress) : Prop := ∀ e, p.result? = some (.error e) → e.isHost = false

namespace Session

variable {s : Session} {o : Operation} {p : Progress}

theorem placed_exchanging (o : Operation) (x : Http.Exchange) : (exchanging o x).Placed := by
  unfold exchanging
  split
  · next result _ =>
    intro e he
    have he : conclude o result = .error e := Option.some.inj he
    cases result with
    | error e' =>
      cases he
      rfl
    | ok r =>
      unfold conclude at he
      dsimp only at he
      split at he
      · cases he
        rfl
      · cases hread : o.read r.body with
        | error b =>
          rw [hread] at he
          cases he
          rfl
        | ok v =>
          rw [hread] at he
          cases he
  · exact nofun

theorem placed_start (hu : s.connection.controlUrl.endpoint?.isSome = true) (o : Operation) : (s.start o).Placed := by
  obtain ⟨e, he⟩ := Option.isSome_iff_exists.1 hu
  unfold start
  dsimp only
  rw [he]
  cases o with
  | add transport externalPort internalPort description lease => exact nofun
  | externalAddress | mapping | mappings | delete => exact placed_exchanging _ _

theorem placed_look (hp : p.Placed) (g : Http.Glimpse) : (s.look o p g).1.Placed := by
  cases p with
  | probing e begun =>
    unfold look
    dsimp only
    split
    · intro e he
      cases he
      rfl
    · split
      · exact nofun
      · intro e he
        cases he
        rfl
      · exact placed_exchanging _ _
  | exchanging x => exact placed_exchanging _ _
  | done result => exact hp

theorem placed_play (hp : p.Placed) (turns : List Turn) : (s.play o p turns).1.Placed := by
  induction turns generalizing s p with
  | nil => exact hp
  | cons turn turns ih =>
    cases turn with
    | stop => exact ih hp
    | look g => exact ih (placed_look hp _)

end Session

/-- Every connection is controlled at the endpoint of the announcement it was selected for. So each that discovery finds
has the endpoint that its description was fetched from, and no operation on it fails for want of one. -/
theorem control_stays (c : Config) :
    (∀ (root : Device) (answer : Announcement) (seen : List Text), answer.location.IsRead →
      ∀ w ∈ (select root answer seen).1, w.controlUrl.endpoint? = answer.location.endpoint?) ∧
    ∀ (sends : Utf8.Bytes → Bool) (q : Query) (d : Discovery) (found : List WanConnection),
      Query.start c sends = .ok q → Discovery.Runs c { query := q } d → d.result? = some (.ok found) →
      ∀ w ∈ found, (∃ r root e, Discovery.Found c d.fetched w r root e) ∧
        ∀ (s : Session) (o : Operation) (turns : List Turn) (e : OperationError), s.connection = w →
          (s.play o (s.start o) turns).1.result? = some (.error e) → e.isHost = false := by
  refine ⟨fun root answer seen hread w hw => endpoint?_of_mem_select hread hw, ?_⟩
  intro sends q d found hstart hruns hresult w hw
  obtain rfl : q = {} := by
    unfold Query.start at hstart
    split at hstart
    · cases hstart
      rfl
    · cases hstart
  have htraced := hruns.traced Discovery.traced_start
  have hstage := htraced.stage
  rw [Discovery.result_eq_some.1 hresult] at hstage
  obtain rfl : found = d.found := hstage
  obtain ⟨r, root, e, hfound⟩ := htraced.found w hw
  refine ⟨⟨r, root, e, hfound⟩, ?_⟩
  rintro s o turns err rfl herr
  have hendpoint : s.connection.controlUrl.endpoint?.isSome = true := by rw [hfound.controlledAt, Option.isSome_some]
  exact Session.placed_play (Session.placed_start hendpoint o) turns err herr

/-- A gateway with one connection, which is controlled, it says, at another host. -/
def hostileDescription : Text :=
  "<root><device><deviceType>".toList ++ gatewayType .one ++ "</deviceType><UDN/><friendlyName/>".toList ++
    "<deviceList><device><deviceType>".toList ++ wanDeviceType .one ++ "</deviceType><UDN/><friendlyName/>".toList ++
    "<deviceList><device><deviceType>".toList ++ connectionDeviceType .one ++
    "</deviceType><UDN/><friendlyName/>".toList ++
    "<serviceList><service><serviceId/><serviceType>".toList ++ ipServiceType .one ++ "</serviceType>".toList ++
    "<controlURL>https://a@10.9.9.9:99/c</controlURL></service></serviceList>".toList ++
    "</device></deviceList></device></deviceList></device></root>".toList

/-- Every host answers with that description. -/
def hostileFetch (location : Url) : Except DescriptionError Device :=
  match Description.start {} location with
  | .error e => .error e
  | .ok _ => Description.read (.ok ⟨200, hostileDescription⟩)

theorem brings_hostileFetch (location : Url) : Description.Brings {} location (hostileFetch location) := by
  unfold hostileFetch
  cases h : Description.start {} location with
  | error e => exact .refused h
  | ok x =>
    refine .read h [{ head := some (.ok 200) }, { body := some (.ok hostileDescription) }] ?_
    unfold Description.start at h
    split at h
    · cases h
    · cases h
      rfl

/-- A search that one device answers with that description, up to its deadline. -/
def hostileRun : Discovery :=
  Discovery.run hostileFetch { query := {} } [
    .datagram (Discovery.replyDatagram [] "http://10.0.0.1:8080/d.xml".toList),
    .turn, .turn, .turn, .finish .timedOut, .turn]

theorem control_stays_hostile : ∃ found w, hostileRun.result? = some (.ok found) ∧ w ∈ found ∧
    w.controlUrl.endpoint? = some (Endpoint.mk (.v4 ⟨10, 0, 0, 1⟩) 8080 0) ∧
    ∀ (s : Session) (o : Operation) (turns : List Turn) (e : OperationError), s.connection = w →
      (s.play o (s.start o) turns).1.result? = some (.error e) → e.isHost = false := by
  have hcount : hostileRun.result?.map (·.toOption.map List.length) = some (some 1) ∧
      hostileRun.fetched = [Url.parse "http://10.0.0.1:8080/d.xml".toList] := by decide +kernel
  obtain ⟨result, hresult, hlength⟩ := Option.map_eq_some_iff.1 hcount.1
  cases result with
  | error e => cases hlength
  | ok found =>
    obtain ⟨w, rfl⟩ := List.length_eq_one_iff.1 (Option.some.inj hlength)
    obtain ⟨hselected, hfound⟩ := control_stays {}
    obtain ⟨⟨r, root, -, ⟨hfetched, -, ⟨seen, hw⟩, -, -⟩⟩, hops⟩ := hfound (fun _ => true) {} hostileRun [w] rfl
      (Discovery.runs_run brings_hostileFetch _ _) hresult w List.mem_cons_self
    have hlocation : r.location = Url.parse "http://10.0.0.1:8080/d.xml".toList := by
      simpa only [hcount.2, List.mem_singleton] using hfetched
    refine ⟨[w], w, hresult, List.mem_cons_self, ?_, hops⟩
    rw [hselected root r seen (hlocation ▸ Url.isRead_parse _) w hw, hlocation]
    decide

end Gateway
