import Gateway.Text.Utf8
import Gateway.Url
/-!
# Announcements

A device answers a search with an announcement: an HTTP response without a body.
Of its headers only the last USN, ST and LOCATION count.
-/
namespace Gateway

/-- What is read of a device's answer to a search. -/
structure Announcement where
  /-- What names the device and the kind of thing it announces. -/
  usn : Text
  /-- The device's own part of the USN, which may be empty. -/
  uuid : Text
  /-- Where the device describes itself. -/
  location : Url
  serviceType : Text
  deriving DecidableEq, Repr

/-- Why a datagram is no announcement. -/
inductive BadAnnouncement where
  /-- It is not UTF-8, or its first line is not one of HTTP. -/
  | statusLine (text : Text)
  /-- The status is not 200. -/
  | status (line : Text)
  /-- The location is missing or has no host. -/
  | location (text : Text)
  deriving DecidableEq, Repr

/-- What a log says of the error. -/
def BadAnnouncement.message : BadAnnouncement → Text
  | .statusLine text => "bad SSDP status line ".toList ++ Text.quoted text
  | .status line => "unexpected SSDP status ".toList ++ Text.quoted line
  | .location text => "bad SSDP location ".toList ++ Text.quoted text

/-- What follows the first token that is "uuid" and ends at a colon, up to two colons.
The argument is the token that has been read so far, backwards. -/
def uuidFrom (token : Text) : Text → Text
  | [] => []
  | c :: s =>
    if c = ':' then
      if Text.sameLetters token.reverse "uuid".toList then
        match Text.cutAt? "::".toList s with
        | some (uuid, _) => uuid
        | none => s
      else uuidFrom [] s
    else uuidFrom (c :: token) s

/-- The device's own part of a USN. -/
def uuidOfUsn (usn : Text) : Text := uuidFrom [] usn

namespace Announcement

/-- A line's header name, in capitals, and its value. -/
def header? (line : Text) : Option (Text × Text) :=
  (Text.cutAt? [':'] line).map fun (name, value) => (Text.upper (Text.trim name), Text.trim value)

/-- The last value of a header, empty if there is none. -/
def lastValue (name : Text) (lines : List Text) : Text :=
  (((lines.filterMap header?).filter fun h => h.1 = name).getLast?.map (·.2)).getD []

/-- The announcement in a datagram that is text. -/
def ofText (s : Text) : Except BadAnnouncement Announcement :=
  let lines := Text.lines s
  let status := lines.headD []
  let headers := lines.tail
  if !Text.sameLetters (status.take 4) "http".toList then .error (.statusLine status)
  else if (Text.words status)[1]? ≠ some "200".toList then .error (.status status)
  else
    let location := lastValue "LOCATION".toList headers
    let url := Url.parse location
    if url.hostText = [] then .error (.location location)
    else
      let usn := lastValue "USN".toList headers
      .ok ⟨usn, uuidOfUsn usn, url, lastValue "ST".toList headers⟩

/-- The announcement in a datagram. -/
def parse (datagram : Utf8.Bytes) : Except BadAnnouncement Announcement :=
  match Utf8.decode? datagram with
  | some s => ofText s
  | none => .error (.statusLine (Utf8.decodeLossy datagram))

/-- How a log shows an announcement. -/
def text (r : Announcement) : Text :=
  "(ssdp::response uuid:".toList ++ r.uuid ++ " url:".toList ++ r.location.text ++
    " service_type:".toList ++ r.serviceType ++ [')']

end Announcement

end Gateway
