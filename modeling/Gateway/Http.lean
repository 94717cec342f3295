import Gateway.Config
import Gateway.Url
/-!
# HTTP exchanges

An exchange sends one request over a connection of its own and reads the answer. It goes
through two stages, up to the head of the answer and up to the end of its body. Each time
a stage is looked at, a stop comes before anything that the stage has come to, and before
the stage is begun.
-/
namespace Gateway.Http

inductive Method where
  | get
  | post
  deriving DecidableEq, Repr

/-- A request, whose URL is written out. -/
structure Request where
  method : Method
  url : Text
  headers : List (Text × Text)
  body : Text := []
  deriving DecidableEq, Repr

/-- Of an answer only its status and its body are looked at. -/
structure Response where
  status : Nat
  body : Text
  deriving DecidableEq, Repr

/-! ## Requests -/

/-- The characters of a header's value: no control characters but the tab. -/
def isHeaderChar (c : Char) : Bool := (0x20 ≤ c.toNat && c.toNat ≠ 0x7F) || c = '\t'

/-- Whether a request can be sent at all. -/
def Request.isSendable (r : Request) : Bool := r.headers.all fun h => h.2.all isHeaderChar

/-- The URL that a request for `u` names: always at the endpoint it is sent to. -/
def target (e : Endpoint) (u : Url) : Text := "http://".toList ++ e.text ++ u.requestTarget

/-- The request that fetches what is at `u`. -/
def getRequest (e : Endpoint) (u : Url) : Request where
  method := .get
  url := target e u
  headers := [("Connection".toList, "close".toList)]

/-- The request that calls an action of a service. -/
def callRequest (e : Endpoint) (u : Url) (action body : Text) : Request where
  method := .post
  url := target e u
  headers := [
    ("Content-Type".toList, "text/xml; charset=\"utf-8\"".toList),
    ("Connection".toList, "close".toList),
    ("Cache-Control".toList, "no-cache".toList),
    ("Pragma".toList, "no-cache".toList),
    ("SOAPAction".toList, '"' :: action ++ ['"'])]
  body := body

/-! ## Stages -/

/-- How a stage fails. -/
inductive Failure where
  | timedOut
  /-- No connection could be made. -/
  | unconnected
  | broken
  deriving DecidableEq, Repr

/-- What one look shows: whether there has been a stop, and what the stages have come to
that are over. -/
structure Glimpse where
  stopped : Bool := false
  /-- Connecting, by which the address of this side becomes known. -/
  probe : Option (Except Failure IpAddress) := none
  /-- Sending a request, up to the status of the answer. -/
  head : Option (Except Failure Nat) := none
  body : Option (Except Failure Text) := none

/-- What is done to the network. -/
inductive Contact where
  | connect (e : Endpoint)
  | send (r : Request)
  deriving DecidableEq, Repr

/-- Why there is no answer, by the stage that failed. -/
inductive ExchangeError where
  | connect
  | request
  | response
  | timedOut
  | aborted
  deriving DecidableEq, Repr

/-- What a log says of the error. -/
def ExchangeError.message : ExchangeError → Text
  | .connect => "TCP connect failed".toList
  | .request => "HTTP request failed".toList
  | .response => "failed to read HTTP response".toList
  | .timedOut => "HTTP exchange timed out".toList
  | .aborted => "operation aborted".toList

namespace ExchangeError

/-- Up to the head of an answer, a failure is one of connecting or of the request. -/
def ofSending : Failure → ExchangeError
  | .timedOut => .timedOut
  | .unconnected => .connect
  | .broken => .request

/-- After the head of an answer, a failure is one of the answer. -/
def ofReceiving : Failure → ExchangeError
  | .timedOut => .timedOut
  | .unconnected | .broken => .response

end ExchangeError

/-! ## Exchanges -/

/-- How far an exchange has come. -/
inductive Exchange where
  /-- Up to the head of the answer. -/
  | sending (r : Request) (begun : Bool)
  | receiving (status : Nat)
  | done (result : Except ExchangeError Response)

namespace Exchange

/-- An exchange is over before it begins when the user agent cannot be sent. -/
def start (c : Config) (r : Request) : Exchange :=
  if c.userAgent.all isHeaderChar then .sending r false else .done (.error .request)

/-- Looks at the stage in progress. Gives what it does to the network. -/
def look (x : Exchange) (g : Glimpse) : Exchange × List Contact :=
  match x with
  | .sending r begun =>
    if g.stopped then (.done (.error .aborted), [])
    else if !r.isSendable then (.done (.error .request), [])
    else
      let contacts := if begun then [] else [.send r]
      match g.head with
      | none => (.sending r true, contacts)
      | some (.error e) => (.done (.error (.ofSending e)), contacts)
      | some (.ok status) => (.receiving status, contacts)
  | .receiving status =>
    if g.stopped then (.done (.error .aborted), [])
    else match g.body with
      | none => (.receiving status, [])
      | some (.error e) => (.done (.error (.ofReceiving e)), [])
      | some (.ok body) => (.done (.ok ⟨status, body⟩), [])
  | .done result => (.done result, [])

/-- Looks as often as there is a glimpse. -/
def run : Exchange → List Glimpse → Exchange × List Contact
  | x, [] => (x, [])
  | x, g :: gs =>
    let (x, contacts) := x.look g
    let (x, more) := x.run gs
    (x, contacts ++ more)

/-- How an exchange ended, once it has. -/
def result? : Exchange → Option (Except ExchangeError Response)
  | .done result => some result
  | _ => none

end Exchange

end Gateway.Http
