import Gateway.Config
import Gateway.Text.Quoted
import Gateway.Xml.Path
/-!
# Port mappings

A mapping forwards what comes in at an external port to a client inside, at an internal
port. Gateways describe one by seven fields, which have other names in a reply of its own
than in a listing.
-/
namespace Gateway

/-- What a mapping forwards. -/
inductive Transport where
  | tcp
  | udp
  deriving DecidableEq, Repr

namespace Transport

/-- The name that a gateway is given. -/
def text : Transport → Text
  | .tcp => "TCP".toList
  | .udp => "UDP".toList

/-- The name may be in any case of letters. -/
def ofText? (s : Text) : Option Transport :=
  if Text.sameLetters s "TCP".toList then some .tcp
  else if Text.sameLetters s "UDP".toList then some .udp
  else none

/-- What is said of a name that `ofText?` does not know. -/
def unknownMessage (s : Text) : Text := "unknown protocol ".toList ++ Text.quoted s

end Transport

/-- A port mapping, as a gateway describes it. -/
structure Mapping where
  description : Text
  externalPort : UInt16
  internalPort : UInt16
  lease : Duration
  transport : Transport
  internalClient : IpAddress
  enabled : Bool
  deriving DecidableEq, Repr

namespace Mapping

/-- The paths to the fields of a mapping. -/
structure Fields where
  description : Text
  externalPort : Text
  internalPort : Text
  lease : Text
  transport : Text
  internalClient : Text
  enabled : Text

/-- The names of the fields in a reply with one mapping. -/
def replyFields : Fields where
  description := "NewPortMappingDescription".toList
  externalPort := "NewExternalPort".toList
  internalPort := "NewInternalPort".toList
  lease := "NewLeaseDuration".toList
  transport := "NewProtocol".toList
  internalClient := "NewInternalClient".toList
  enabled := "NewEnabled".toList

/-- The names of the fields in a row of a listing, under whatever qualifiers. -/
def rowFields : Fields where
  description := "*:NewDescription".toList
  externalPort := "*:NewExternalPort".toList
  internalPort := "*:NewInternalPort".toList
  lease := "*:NewLeaseTime".toList
  transport := "*:NewProtocol".toList
  internalClient := "*:NewInternalClient".toList
  enabled := "*:NewEnabled".toList

/-- A lease counts seconds. -/
def ofElement? (fields : Fields) (e : Xml.Element) : Option Mapping := do
  let description ← e.textAt? fields.description
  let externalPort ← e.portAt? fields.externalPort
  let internalPort ← e.portAt? fields.internalPort
  let lease ← e.numberAt? 0x10000000000000000 fields.lease
  let transport ← (e.textAt? fields.transport).bind Transport.ofText?
  let internalClient ← e.addressAt? fields.internalClient
  let enabled ← e.flagAt? fields.enabled
  return { description, externalPort, internalPort, lease := .ofSeconds lease, transport, internalClient, enabled }

end Mapping

end Gateway
