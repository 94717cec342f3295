import Gateway.Net.Address
/-!
# Settings

Lengths of time, and the settings of a search and of the exchanges that follow it.
-/
namespace Gateway

/-- A length of time, in nanoseconds. -/
structure Duration where
  nanoseconds : Nat
  deriving DecidableEq, Repr

namespace Duration

/-- The nanoseconds of a second. -/
def perSecond : Nat := 1000000000

def ofSeconds (n : Nat) : Duration := ⟨n * perSecond⟩

def ofMilliseconds (n : Nat) : Duration := ⟨n * 1000000⟩

/-- Whole seconds. -/
def seconds (d : Duration) : Nat := d.nanoseconds / perSecond

/-- Nanoseconds beyond the whole seconds. -/
def subsecond (d : Duration) : Nat := d.nanoseconds % perSecond

/-- Whole milliseconds. -/
def milliseconds (d : Duration) : Nat := d.nanoseconds / 1000000

/-- The sum of two lengths, if its seconds fit in 64 bits. -/
def add? (d e : Duration) : Option Duration :=
  if d.nanoseconds + e.nanoseconds < 0x10000000000000000 * perSecond then some ⟨d.nanoseconds + e.nanoseconds⟩ else none

end Duration

/-- The versions of the Internet Gateway Device that the library knows. -/
inductive Version where
  | one
  | two
  deriving DecidableEq, Repr

/-- The digit that types end with. -/
def Version.text : Version → Text
  | .one => ['1']
  | .two => ['2']

/-- The device type of a gateway's root device. -/
def gatewayType (v : Version) : Text :=
  "urn:schemas-upnp-org:device:InternetGatewayDevice:".toList ++ v.text

/-- What a program may set, with what is set by default. -/
structure Config where
  /-- One M-SEARCH is sent for each. -/
  searchTargets : List Text := [gatewayType .one, gatewayType .two]
  /-- How long devices may wait before they answer. -/
  searchWait : Duration := .ofSeconds 2
  /-- How much longer to listen for late answers. -/
  grace : Duration := .ofMilliseconds 200
  /-- Where searches are sent: by default the group that UPnP devices listen to. -/
  searchAddress : Endpoint := ⟨.v4 ⟨239, 255, 255, 250⟩, 1900, 0⟩
  /-- The limit for each exchange with a gateway. -/
  httpTimeout : Duration := .ofSeconds 5
  userAgent : Text := "cotton-igd/0.1.0 UPnP/1.1".toList

namespace Config

/-- The longest wait, in whole seconds and at least one, that a search allows a device. -/
def mx (c : Config) : Nat := max c.searchWait.seconds 1

/-- How long a search listens, if that is a length of time at all. -/
def searchDeadline? (c : Config) : Option Duration := c.searchWait.add? c.grace

end Config

end Gateway
