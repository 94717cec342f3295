import Gateway.Table
import Gateway.Text.Basic
import Gateway.Text.Numeral
import Gateway.Text.Unprintable
import Gateway.Text.Quoted
import Gateway.Text.Utf8
import Gateway.Net.Address
import Gateway.Url
import Gateway.Config
import Gateway.Signal.Registry
import Gateway.Signal.Condvar
import Gateway.Signal.World
import Gateway.Signal.Run
import Gateway.Xml.Character
import Gateway.Xml.Tree
import Gateway.Xml.Reader
import Gateway.Xml.Step
import Gateway.Xml.Document
import Gateway.Xml.Path
import Gateway.Xml.Markup
import Gateway.Search.Request
import Gateway.Search.Announcement
import Gateway.Search.Query
import Gateway.Device
import Gateway.Selection
import Gateway.Soap
import Gateway.Mapping
import Gateway.Reply
import Gateway.Http
import Gateway.Session
import Gateway.Discovery
import Gateway.Proofs.Enumeration
import Gateway.Proofs.Selection
import Gateway.Proofs.Search.Inbox
import Gateway.Proofs.Search.Delivery
import Gateway.Proofs.Discovery
import Gateway.Proofs.Search.Wakeup
import Gateway.Proofs.Table
import Gateway.Proofs.Signal.Slots
import Gateway.Proofs.Signal.Mirror
import Gateway.Proofs.Signal.Moment
import Gateway.Proofs.Signal.Move
import Gateway.Proofs.Signal.Lookup
import Gateway.Proofs.Signal.Tickets
import Gateway.Proofs.Signal.Wiring
import Gateway.Proofs.Signal.Rewires
import Gateway.Proofs.Signal.Once
import Gateway.Proofs.Signal.Signalled
import Gateway.Proofs.Signal.Holders
import Gateway.Proofs.Signal.Progress
import Gateway.Proofs.Signal.Refinement
import Gateway.Proofs.Signal.Disconnection
import Gateway.Proofs.Signal.Firing
import Gateway.Proofs.Signal.Origins
import Gateway.Proofs.Signal.Children
import Gateway.Proofs.Signal.Observers
import Gateway.Proofs.Session
import Gateway.Proofs.Signal.Waiting
import Gateway.Proofs.Signal.Registrations
import Gateway.Proofs.Signal.Verdict
import Gateway.Proofs.Signal.Outcomes
import Gateway.Proofs.Signal.Cascade
import Gateway.Proofs.Signal.Trees
import Gateway.Proofs.Signal.DepthFirst
import Gateway.Proofs.Signal.Nesting
import Gateway.Proofs.Text
import Gateway.Proofs.Url.Layout
import Gateway.Proofs.Url.Grammar
import Gateway.Proofs.Url.RoundTrip
import Gateway.Proofs.Url.Replacement
import Gateway.Proofs.Net.Address
import Gateway.Proofs.Url.Target
import Gateway.Proofs.Control
import Gateway.Proofs.Xml.Reading
import Gateway.Proofs.Xml.RoundTrip
import Gateway.Proofs.Calls
import Gateway.Proofs.Xml.Fields
import Gateway.Proofs.Xml.Names
import Gateway.Proofs.Xml.Path
import Gateway.Proofs.Mappings
import Gateway.Proofs.Listing
import Gateway.Proofs.Description
import Gateway.Proofs.Rediscovery
import Gateway.Proofs.Search.Ending
import Gateway.Proofs.Search.Precedence
import Gateway.Proofs.Url.Endpoint
import Gateway.Proofs.Url.Reference
import Gateway.Proofs.ControlTarget
import Gateway.Proofs.Leniency
import Gateway.Proofs.Utf8
import Gateway.Proofs.Search.Request
import Gateway.Proofs.Lease
import Gateway.Proofs.Search.Announcement
import Gateway.Proofs.Search.Usn
