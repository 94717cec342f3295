import Gateway.Net.Address
import Gateway.Text.Quoted
/-!
# URLs

A URL keeps the text it was read from and where in it each part lies:

    [scheme "://"] [userinfo "@"] host [":" port] [path] ["?" query] ["#" fragment]

Any text is a URL. Reading first divides the text into parts and then lays the parts
out again to find their spans, so that the path can be replaced in place. A part
that is absent has an empty span where it would have stood.
-/
namespace Gateway

/-- A range of bytes in a text. -/
structure Span where
  start : Nat
  stop : Nat
  deriving DecidableEq, Repr

namespace Span

/-- The span of an absent part. -/
def emptyAt (n : Nat) : Span := ⟨n, n⟩

def isEmpty (x : Span) : Bool := x.start = x.stop

/-- Where a span that begins at or after `old` lies once what ended at `old` ends at `new`. -/
def rebase (x : Span) (old new : Nat) : Span := ⟨x.start - old + new, x.stop - old + new⟩

end Span

/-- A text, and where its parts lie in it. -/
structure Url where
  buffer : Text
  scheme : Span
  userinfo : Span
  host : Span
  port : Span
  path : Span
  query : Span
  fragment : Span
  deriving DecidableEq, Repr

namespace Url

/-! ## Parts -/

/-- A URL divided into its parts, of which only the host and the path must be there. -/
structure Parts where
  scheme : Option Text
  userinfo : Option Text
  host : Text
  port : Option Text
  path : Text
  query : Option Text
  fragment : Option Text
  deriving DecidableEq, Repr

/-- The characters of a host. -/
def isHostChar (c : Char) : Bool := c != ':' && c != '/'

/-- The characters of a path. -/
def isPathChar (c : Char) : Bool := c != '?' && c != '#'

/-- The characters of user information. -/
def isUserChar (c : Char) : Bool := c != '@' && c != '/'

/-- The scheme ends at the first "://". -/
def splitScheme (s : Text) : Option Text × Text :=
  match Text.cutAt? "://".toList s with
  | some (scheme, rest) => (some scheme, rest)
  | none => (none, s)

/-- An at sign ends the user information if no slash comes before it. -/
def splitUserinfo (s : Text) : Option Text × Text :=
  match s.dropWhile isUserChar with
  | '@' :: rest => (some (s.takeWhile isUserChar), rest)
  | _ => (none, s)

/-- The host ends at a colon or a slash, and a port at a slash. -/
def splitHost (s : Text) : Text × Option Text × Text :=
  let host := s.takeWhile isHostChar
  match s.dropWhile isHostChar with
  | ':' :: rest => (host, some (rest.takeWhile (· != '/')), rest.dropWhile (· != '/'))
  | rest => (host, none, rest)

/-- The path ends at a question mark or a hash, and a query at a hash. -/
def splitPath (s : Text) : Text × Option Text × Option Text :=
  let path := s.takeWhile isPathChar
  match s.dropWhile isPathChar with
  | '?' :: rest =>
    match rest.dropWhile (· != '#') with
    | _ :: fragment => (path, some (rest.takeWhile (· != '#')), some fragment)
    | [] => (path, some rest, none)
  | _ :: fragment => (path, none, some fragment)
  | [] => (path, none, none)

/-- The parts of a text, each taken from the front of what the one before it leaves. -/
def Parts.ofText (s : Text) : Parts :=
  let (scheme, s) := splitScheme s
  let (userinfo, s) := splitUserinfo s
  let (host, port, s) := splitHost s
  let (path, query, fragment) := splitPath s
  ⟨scheme, userinfo, host, port, path, query, fragment⟩

/-! ## Layout -/

/-- The span of a part that stands after a mark of one character, beginning at `n`. -/
def spanAfterMark (n : Nat) : Option Text → Span
  | some part => ⟨n + 1, n + 1 + Text.size part⟩
  | none => .emptyAt n

/-- The spans of the parts of `buffer`. -/
def layOut (buffer : Text) (parts : Parts) : Url :=
  let (scheme, n) : Span × Nat := match parts.scheme with
    | some part => (⟨0, Text.size part⟩, Text.size part + 3)
    | none => (.emptyAt 0, 0)
  let (userinfo, n) : Span × Nat := match parts.userinfo with
    | some part => (⟨n, n + Text.size part⟩, n + Text.size part + 1)
    | none => (.emptyAt n, n)
  let host : Span := ⟨n, n + Text.size parts.host⟩
  let port := spanAfterMark host.stop parts.port
  let path : Span := ⟨port.stop, port.stop + Text.size parts.path⟩
  let query := spanAfterMark path.stop parts.query
  let fragment := spanAfterMark query.stop parts.fragment
  ⟨buffer, scheme, userinfo, host, port, path, query, fragment⟩

/-- The URL that a text is read as. -/
def parse (s : Text) : Url := layOut s (Parts.ofText s)

/-! ## Reading a part -/

/-- The part that a span is of. -/
def get (u : Url) (x : Span) : Text := (Text.slice? x.start x.stop u.buffer).getD []

def schemeText (u : Url) : Text := u.get u.scheme
def userinfoText (u : Url) : Text := u.get u.userinfo
def hostText (u : Url) : Text := u.get u.host
def portText (u : Url) : Text := u.get u.port
def pathText (u : Url) : Text := u.get u.path
def queryText (u : Url) : Text := u.get u.query
def fragmentText (u : Url) : Text := u.get u.fragment

/-- The host, and the port after a colon unless it is empty. -/
def hostAndPort (u : Url) : Text :=
  if u.port.isEmpty then u.hostText else u.get ⟨u.host.start, u.port.stop⟩

/-- The port as a number, if it is one that a port can have. -/
def portNumber? (u : Url) : Option UInt16 :=
  (Text.number? 65536 u.portText).map Nat.toUInt16

/-- Where to connect, if the host is an address and the port, when given, a number.
Without a port it is 443 for https and 80 for any other scheme. -/
def endpoint? (u : Url) : Option Endpoint := do
  let address ← IpAddress.parse? u.hostText
  let port ←
    if u.port.isEmpty then
      some (if Text.sameLetters u.schemeText "https".toList then 443 else 80)
    else u.portNumber?
  return { address, port }

/-- The path, at least a slash, and the query after a question mark unless it is empty. -/
def requestTarget (u : Url) : Text :=
  let path := if u.path.isEmpty then ['/'] else u.pathText
  if u.query.isEmpty then path else path ++ '?' :: u.queryText

/-! ## Changing and showing -/

/-- Puts another path in the place of the old one; the parts behind it move. -/
def replacePath (u : Url) (path : Text) : Url :=
  let front := ((Text.splitAt? u.path.start u.buffer).map (·.1)).getD []
  let rest := ((Text.splitAt? u.path.stop u.buffer).map (·.2)).getD []
  let stop := u.path.start + Text.size path
  { u with
    buffer := front ++ path ++ rest
    path := ⟨u.path.start, stop⟩
    query := u.query.rebase u.path.stop stop
    fragment := u.fragment.rebase u.path.stop stop }

/-- The parts that are not empty, each with its mark. -/
def text (u : Url) : Text :=
  (if u.scheme.isEmpty then [] else u.schemeText ++ "://".toList) ++
  (if u.userinfo.isEmpty then [] else u.userinfoText ++ ['@']) ++
  u.hostText ++
  (if u.port.isEmpty then [] else ':' :: u.portText) ++
  u.pathText ++
  (if u.query.isEmpty then [] else '?' :: u.queryText) ++
  (if u.fragment.isEmpty then [] else '#' :: u.fragmentText)

/-- The buffer as a log shows it. -/
def debugText (u : Url) : Text := "Url(".toList ++ Text.quoted u.buffer ++ [')']

end Url

end Gateway
