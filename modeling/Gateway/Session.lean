import Gateway.Http
import Gateway.Reply
import Gateway.Selection
/-!
# Sessions

A session controls one connection of a gateway, by operations that each call an action
of its service. Adding a mapping first connects to the gateway, to learn the address that
the gateway is to forward to. A stop aborts the operations in progress and all later ones.
-/
namespace Gateway

/-! ## Operations -/

/-- What a session can do with its gateway. -/
inductive Operation where
  | externalAddress
  /-- The mapping at a position of the gateway's table. -/
  | mapping (index : UInt32)
  /-- At most `count` mappings of the external ports from `first` to `last`. -/
  | mappings (transport : Transport) (first last count : UInt16)
  | add (transport : Transport) (externalPort internalPort : UInt16) (description : Text) (lease : Duration)
  | delete (transport : Transport) (externalPort : UInt16)
  deriving DecidableEq, Repr

/-- What an operation gives. -/
inductive Value where
  | address (a : IpAddress)
  | mapping (m : Mapping)
  | mappings (ms : List Mapping)
  | done
  deriving DecidableEq, Repr

namespace Operation

def portText (p : UInt16) : Text := Text.decimal p.toNat

/-- The call that carries out an operation. Only to add a mapping does it name `client`,
the address of this side. -/
def call (o : Operation) (client : Text) : Call :=
  match o with
  | .externalAddress => { action := "GetExternalIPAddress".toList }
  | .mapping index =>
    { action := "GetGenericPortMappingEntry".toList
      arguments := [("NewPortMappingIndex".toList, Text.decimal index.toNat)] }
  | .mappings transport first last count =>
    { action := "GetListOfPortMappings".toList
      arguments := [
        ("NewStartPort".toList, portText first),
        ("NewEndPort".toList, portText last),
        ("NewProtocol".toList, transport.text),
        ("NewNumberOfPorts".toList, portText count)] }
  | .add transport externalPort internalPort description lease =>
    { action := "AddPortMapping".toList
      arguments := [
        ("NewRemoteHost".toList, []),
        ("NewExternalPort".toList, portText externalPort),
        ("NewProtocol".toList, transport.text),
        ("NewInternalPort".toList, portText internalPort),
        ("NewInternalClient".toList, client),
        ("NewEnabled".toList, "1".toList),
        ("NewPortMappingDescription".toList, description),
        ("NewLeaseDuration".toList, Text.decimal lease.seconds)] }
  | .delete transport externalPort =>
    { action := "DeletePortMapping".toList
      arguments := [
        ("NewRemoteHost".toList, []),
        ("NewExternalPort".toList, portText externalPort),
        ("NewProtocol".toList, transport.text)] }

/-- What the body of a reply gives. Nothing is asked of a reply to a change. -/
def read (o : Operation) (body : Text) : Except BadReply Value :=
  match o with
  | .externalAddress => (Reply.externalAddress body).map .address
  | .mapping _ => (Reply.mapping body).map .mapping
  | .mappings _ _ _ _ => (Reply.mappings body).map .mappings
  | .add _ _ _ _ _ | .delete _ _ => .ok .done

end Operation

/-! ## Errors -/

/-- Why a call brought no reply. -/
inductive CallError where
  /-- The control URL does not say where to connect. -/
  | host (u : Url)
  | exchange (e : Http.ExchangeError)
  | status (n : Nat)
  deriving DecidableEq, Repr

/-- What a log says of the error. -/
def CallError.message : CallError → Text
  | .host u => "failed to parse IGD host ".toList ++ u.text
  | .exchange .connect => "TCP connect to IGD failed".toList
  | .exchange .request => "failed to send HTTP request".toList
  | .exchange .response => "failed to read HTTP response".toList
  | .exchange .timedOut => "HTTP exchange with IGD timed out".toList
  | .exchange .aborted => "operation aborted".toList
  | .status n => "IGD returned HTTP status ".toList ++ Text.decimal n

def CallError.isAborted (e : CallError) : Bool := e = .exchange .aborted

/-- Why an operation failed. -/
inductive OperationError where
  | host (u : Url)
  /-- The gateway could not be reached to learn the address of this side. -/
  | unreachable
  /-- There was a stop before that address was known. -/
  | aborted
  | call (e : CallError)
  | reply (e : BadReply)
  deriving DecidableEq, Repr

/-- What a log says of the error. -/
def OperationError.message : OperationError → Text
  | .host u => "failed to parse IGD host ".toList ++ u.text
  | .unreachable => "no suitable endpoint to IGD".toList
  | .aborted => "operation aborted".toList
  | .call _ => "SOAP request failed".toList
  | .reply e => e.message

/-! ## Progress -/

/-- A connection that is controlled, until it is stopped. -/
structure Session where
  connection : WanConnection
  config : Config
  isStopped : Bool := false

/-- How far an operation has come. -/
inductive Progress where
  /-- Connecting to the gateway. -/
  | probing (e : Endpoint) (begun : Bool)
  | exchanging (x : Http.Exchange)
  | done (result : Except OperationError Value)

namespace Session

def stop (s : Session) : Session := { s with isStopped := true }

/-- Only a reply with status 200 is read. -/
def conclude (o : Operation) : Except Http.ExchangeError Http.Response → Except OperationError Value
  | .error e => .error (.call (.exchange e))
  | .ok r =>
    if r.status ≠ 200 then .error (.call (.status r.status))
    else (o.read r.body).mapError .reply

/-- An operation that goes on with an exchange, or is over with it. -/
def exchanging (o : Operation) (x : Http.Exchange) : Progress :=
  match x.result? with
  | some result => .done (conclude o result)
  | none => .exchanging x

/-- Calls the service once `client`, the address of this side, is known where it is needed. -/
def exchange (s : Session) (o : Operation) (e : Endpoint) (client : Text) : Progress :=
  let call := o.call client
  let u := s.connection.controlUrl
  let action := s.connection.serviceType ++ '#' :: call.action
  exchanging o (.start s.config (Http.callRequest e u action (call.text s.connection.serviceType)))

/-- The control URL must say where to connect, whatever the operation. -/
def start (s : Session) (o : Operation) : Progress :=
  let u := s.connection.controlUrl
  match o, u.endpoint? with
  | .add _ _ _ _ _, none => .done (.error (.host u))
  | .add _ _ _ _ _, some e => .probing e false
  | _, none => .done (.error (.call (.host u)))
  | o, some e => s.exchange o e []

/-- Looks at the stage in progress. Gives what it does to the network. -/
def look (s : Session) (o : Operation) (p : Progress) (g : Http.Glimpse) : Progress × List Http.Contact :=
  match p with
  | .probing e begun =>
    if g.stopped then (.done (.error .aborted), [])
    else
      let contacts := if begun then [] else [.connect e]
      match g.probe with
      | none => (.probing e true, contacts)
      | some (.error _) => (.done (.error .unreachable), contacts)
      | some (.ok client) => (s.exchange o e client.text, contacts)
  | .exchanging x =>
    let (x, contacts) := x.look g
    (exchanging o x, contacts)
  | .done result => (.done result, [])

/-- Looks as often as there is a glimpse. -/
def run (s : Session) (o : Operation) : Progress → List Http.Glimpse → Progress × List Http.Contact
  | p, [] => (p, [])
  | p, g :: gs =>
    let (p, contacts) := s.look o p g
    let (p, more) := s.run o p gs
    (p, contacts ++ more)

end Session

/-- How an operation ended, once it has. -/
def Progress.result? : Progress → Option (Except OperationError Value)
  | .done result => some result
  | _ => none

end Gateway
