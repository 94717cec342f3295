import Gateway.Xml.Markup
import Gateway.Xml.Path
/-!
# Calls

A service is called by an envelope that names the action and its arguments in order. The
reply holds an element named for the action, under whatever qualifiers.
-/
namespace Gateway

/-- An action of a service with its arguments. -/
structure Call where
  action : Text
  arguments : List (Text × Text) := []

namespace Call

open Xml (Markup)

/-- The namespace of envelopes. -/
def envelopeUri : Text := "http://schemas.xmlsoap.org/soap/envelope/".toList

/-- The encoding style of arguments. -/
def encodingUri : Text := "http://schemas.xmlsoap.org/soap/encoding/".toList

/-- The element that calls an action of a service of the given type. -/
def toMarkup (c : Call) (serviceType : Text) : Markup :=
  .element ("u:".toList ++ c.action) [("xmlns:u".toList, serviceType)]
    (c.arguments.map fun a => .field a.1 a.2)

/-- The envelope of a call, with nothing but its element in the body. -/
def envelope (c : Call) (serviceType : Text) : Markup :=
  .element "s:Envelope".toList
    [("xmlns:s".toList, envelopeUri), ("s:encodingStyle".toList, encodingUri)]
    [.element "s:Body".toList [] [c.toMarkup serviceType]]

/-- A call as it is sent. -/
def text (c : Call) (serviceType : Text) : Text := (c.envelope serviceType).document

end Call

/-- The element of a reply that answers an action. -/
def replyTo? (action : Text) (document : Xml.Element) : Option Xml.Element :=
  document.find? ("*:Envelope.*:Body.*:".toList ++ action ++ "Response".toList)

end Gateway
