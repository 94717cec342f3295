import Gateway.Http
import Gateway.Search.Query
import Gateway.Search.Request
import Gateway.Selection
/-!
# Discovery

Discovery sends searches and follows up every announcement that its query hands out: it
fetches the description that the announcement points to, and selects the connections
in it. Datagrams go on arriving meanwhile. When the search ends by its deadline, what has
been found is the result.
-/
namespace Gateway

/-! ## Descriptions -/

/-- Why a description cannot be had. -/
inductive DescriptionError where
  | host
  | exchange (e : Http.ExchangeError)
  | status (n : Nat)
  | invalid
  deriving DecidableEq, Repr

/-- What a log says of the error. -/
def DescriptionError.message : DescriptionError → Text
  | .host => "host is not an IP address".toList
  | .exchange e => e.message
  | .status n => "HTTP status ".toList ++ Text.decimal n
  | .invalid => "invalid device description".toList

namespace Description

/-- The exchange that fetches a description, unless its URL does not say where to connect. -/
def start (c : Config) (location : Url) : Except DescriptionError Http.Exchange :=
  match location.endpoint? with
  | none => .error .host
  | some e => .ok (.start c (Http.getRequest e location))

/-- The device that the answer to such an exchange describes. -/
def read : Except Http.ExchangeError Http.Response → Except DescriptionError Device
  | .error e => .error (.exchange e)
  | .ok r =>
    if r.status ≠ 200 then .error (.status r.status)
    else match Device.ofDescription? r.body with
      | some d => .ok d
      | none => .error .invalid

end Description

/-! ## Searching -/

/-- The largest search request that is sent. -/
def maxPacket : Nat := 512

namespace SearchRequest

/-- One request for each search target. -/
def ofConfig (c : Config) : List SearchRequest :=
  c.searchTargets.map fun target => ⟨c.searchAddress, target, c.mx, c.userAgent⟩

/-- The datagram of a search request, cut off if there is no room for all of it. -/
def packet (r : SearchRequest) : Utf8.Bytes :=
  let (buffer, n) := r.write (List.replicate maxPacket 0)
  buffer.take n

end SearchRequest

/-- Starts a query once all search requests have been sent. -/
def Query.start (c : Config) (sends : Utf8.Bytes → Bool) : Except SearchEnd Query :=
  if (SearchRequest.ofConfig c).all fun r => sends r.packet then .ok {} else .error .send

/-! ## Following up -/

/-- What discovery is about to do. -/
inductive Discovery.Stage where
  | asking (g : Get)
  | fetching (r : Announcement)
  | selecting (r : Announcement) (root : Device)
  | done (result : Except SearchEnd (List WanConnection))

/-- A search in progress, with what it has brought so far. -/
structure Discovery where
  query : Query
  stage : Discovery.Stage := .asking .fresh
  /-- The UDNs of the WAN devices met so far. -/
  seen : List Text := []
  found : List WanConnection := []
  /-- The locations of the descriptions that were asked for, in order. -/
  fetched : List Url := []

/-- What happens while discovery goes on. -/
inductive Discovery.Step where
  | datagram (bytes : Utf8.Bytes)
  | finish (e : SearchEnd)
  /-- Discovery's own next step. -/
  | turn

namespace Discovery

/-- What has been found is the result if there is anything and the deadline ended the search. -/
def conclude (found : List WanConnection) (e : SearchEnd) : Except SearchEnd (List WanConnection) :=
  if e = .timedOut && !found.isEmpty then .ok found else .error e

/-- Asks the query for the next answer, and goes on by what it is. What cannot be used is passed
over. -/
def ask (d : Discovery) (g : Get) : Discovery :=
  let (query, poll) := d.query.poll g
  let stage : Stage := match poll with
    | .pending g => .asking g
    | .ready (.announcement r) => .fetching r
    | .ready (.unusable _) => .asking .fresh
    | .ready (.ended e) => .done (conclude d.found e)
  { d with query := query, stage := stage }

/-- Discovery's own next step, where `fetch` gives the description at a location. -/
def turn (fetch : Url → Except DescriptionError Device) (d : Discovery) : Discovery :=
  match d.stage with
  | .asking g => d.ask g
  | .fetching r =>
    let stage : Stage := match fetch r.location with
      | .ok root => .selecting r root
      | .error _ => .asking .fresh
    { d with stage := stage, fetched := d.fetched ++ [r.location] }
  | .selecting r root =>
    let (connections, seen) := select root r d.seen
    { d with stage := .asking .fresh, seen := seen, found := d.found ++ connections }
  | .done _ => d

/-- What happens next: something to the query, or a step of discovery's own. -/
def step (fetch : Url → Except DescriptionError Device) (d : Discovery) : Step → Discovery
  | .datagram bytes => { d with query := d.query.onDatagram bytes }
  | .finish e => { d with query := d.query.finish e }
  | .turn => d.turn fetch

/-- Does some steps, the first one first. -/
def run (fetch : Url → Except DescriptionError Device) (d : Discovery) (steps : List Step) : Discovery :=
  steps.foldl (step fetch) d

/-- How discovery ended, once it has. -/
def result? (d : Discovery) : Option (Except SearchEnd (List WanConnection)) :=
  match d.stage with
  | .done result => some result
  | _ => none

end Discovery

end Gateway
