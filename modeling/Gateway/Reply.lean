import Gateway.Mapping
import Gateway.Soap
import Gateway.Xml.Document
/-!
# Replies

What the replies to calls say. A listing of mappings is a document of its own, which
stands escaped in the reply; rows of it that are not mappings are left out.
-/
namespace Gateway

/-- Why a reply cannot be used. -/
inductive BadReply where
  | notXml
  /-- Something that the reply must say is missing or malformed. -/
  | incomplete
  | address (text : Text)
  deriving DecidableEq, Repr

/-- What a log says of the error. -/
def BadReply.message : BadReply → Text
  | .notXml => "invalid XML body".toList
  | .incomplete => "invalid response".toList
  | .address text => "failed to parse external IP address ".toList ++ Text.quoted text

namespace Reply

/-- The document of a reply, and what `read` finds in the answer to an action. -/
def answer {α : Type} (action : Text) (read : Xml.Element → Option α) (body : Text) : Except BadReply α :=
  match Xml.parse body with
  | none => .error .notXml
  | some document =>
    match (replyTo? action document).bind read with
    | none => .error .incomplete
    | some a => .ok a

/-- The address that the gateway has outside. -/
def externalAddress (body : Text) : Except BadReply IpAddress := do
  let text ← answer "GetExternalIPAddress".toList (·.textAt? "NewExternalIPAddress".toList) body
  match IpAddress.parse? text with
  | some address => .ok address
  | none => .error (.address text)

/-- The mapping in a reply with one mapping. -/
def mapping (body : Text) : Except BadReply Mapping :=
  answer "GetGenericPortMappingEntry".toList (Mapping.ofElement? Mapping.replyFields) body

/-- The mappings in the rows of a listing. -/
def rows (list : Xml.Element) : List Mapping :=
  (list.matching (.any "PortMappingEntry".toList)).filterMap (Mapping.ofElement? Mapping.rowFields)

/-- The mappings in a listing, which must itself be a document with the right root. -/
def mappings (body : Text) : Except BadReply (List Mapping) := do
  let listing ← answer "GetListOfPortMappings".toList (·.textAt? "NewPortListing".toList) body
  match Xml.parse listing with
  | none => .error .incomplete
  | some list => if list.name = "PortMappingList".toList then .ok (rows list) else .error .incomplete

end Reply

end Gateway
