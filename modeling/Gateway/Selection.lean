import Gateway.Config
import Gateway.Device
import Gateway.Search.Announcement
/-!
# Finding the connections of a gateway

A gateway's root device lists WAN devices, these list WAN connection devices, and those
have the services that control a connection. Every type on the way down must be of the
root's own version. A WAN device counts only when its UDN is met for the first time in
a search, whether or not it turns out to have any services.
-/
namespace Gateway

/-! ## Types -/

/-- The version of a gateway's root device, if it is one. -/
def Version.ofGatewayType? (deviceType : Text) : Option Version :=
  if deviceType = gatewayType .one then some .one
  else if deviceType = gatewayType .two then some .two
  else none

/-- The device type of a WAN device. -/
def wanDeviceType (v : Version) : Text := "urn:schemas-upnp-org:device:WANDevice:".toList ++ v.text

/-- The device type of a WAN connection device. -/
def connectionDeviceType (v : Version) : Text :=
  "urn:schemas-upnp-org:device:WANConnectionDevice:".toList ++ v.text

/-- The type of a service that controls an IP connection. -/
def ipServiceType (v : Version) : Text :=
  "urn:schemas-upnp-org:service:WANIPConnection:".toList ++ v.text

/-- The type of a service that controls a PPP connection. -/
def pppServiceType (v : Version) : Text :=
  "urn:schemas-upnp-org:service:WANPPPConnection:".toList ++ v.text

/-! ## Connections -/

/-- A service that controls a WAN connection of a gateway. -/
structure WanConnection where
  /-- The gateway's own part of the USN that it answered a search with. -/
  uuid : Text
  friendlyName : Text
  /-- The WAN device that the service belongs to. -/
  device : Device
  serviceId : Text
  /-- Where calls are sent. -/
  controlUrl : Url
  serviceType : Text

namespace WanConnection

def isVersion2 (c : WanConnection) : Bool := ":2".toList.isSuffixOf c.serviceType

/-- The host of a control URL is that of the description, whatever the description says. -/
def ofService (answer : Announcement) (root device : Device) (s : Service) : WanConnection :=
  { uuid := answer.uuid
    friendlyName := root.friendlyName
    device := device
    serviceId := s.id
    controlUrl := answer.location.replacePath s.controlUrl.pathText
    serviceType := s.serviceType }

end WanConnection

/-! ## Selection -/

/-- The services that control the connections of a WAN device. -/
def Device.connectionServices (v : Version) (d : Device) : List Service :=
  (d.devices.filter fun c => c.deviceType = connectionDeviceType v).flatMap fun c =>
    c.services.filter fun s => s.serviceType = ipServiceType v || s.serviceType = pppServiceType v

/-- The WAN devices among `devices` whose UDNs are met for the first time, and all UDNs
met so far. -/
def newWanDevices (v : Version) : List Device → List Text → List Device × List Text
  | [], seen => ([], seen)
  | d :: ds, seen =>
    if d.deviceType = wanDeviceType v && !seen.contains d.udn then
      let (found, seen) := newWanDevices v ds (seen ++ [d.udn])
      (d :: found, seen)
    else newWanDevices v ds seen

/-- The connections that a description adds to a search in which the WAN devices `seen`
have been met, and the WAN devices met after it. -/
def select (root : Device) (answer : Announcement) (seen : List Text) : List WanConnection × List Text :=
  match Version.ofGatewayType? root.deviceType with
  | none => ([], seen)
  | some v =>
    let (devices, seen) := newWanDevices v root.devices seen
    (devices.flatMap fun d => (d.connectionServices v).map (.ofService answer root d), seen)

end Gateway
