import Gateway.Search.Announcement
import Gateway.Signal.Condvar
/-!
# Queries

A query gathers what devices send in an inbox and hands it out one at a time. The
receiver puts datagrams in and at last the reason why the search ended; each time it
first changes the inbox and then notifies whoever waits. The consumer looks into the
inbox and, if there is nothing for it, starts to wait in the same step.
-/
namespace Gateway

/-- Why a search ended. -/
inductive SearchEnd where
  | socket
  | send
  | receive
  | timedOut
  | aborted
  deriving DecidableEq, Repr

/-- What a log says of the end. -/
def SearchEnd.message : SearchEnd → Text
  | .socket => "failed to set up SSDP socket".toList
  | .send => "failed to send M-SEARCH".toList
  | .receive => "failed to receive SSDP response".toList
  | .timedOut => "SSDP search timed out".toList
  | .aborted => "operation aborted".toList

/-- What a query hands out. -/
inductive Answer where
  | announcement (r : Announcement)
  /-- One datagram could not be used, and the query goes on. -/
  | unusable (e : BadAnnouncement)
  | ended (e : SearchEnd)
  deriving DecidableEq, Repr

/-- What the consumer is told of a datagram. -/
def Answer.ofReceived : Except BadAnnouncement Announcement → Answer
  | .ok r => .announcement r
  | .error e => .unusable e

/-! ## The inbox -/

/-- What has come for the consumer and has not been handed out. -/
structure Inbox where
  queue : List (Except BadAnnouncement Announcement) := []
  /-- The USNs of the announcements that were taken in. -/
  seen : List Text := []
  stopped : Bool := false
  ending : Option SearchEnd := none

namespace Inbox

/-- Takes in a datagram, unless it announces a USN that was announced before. Says
whether it was taken in. -/
def receive (b : Inbox) (datagram : Utf8.Bytes) : Inbox × Bool :=
  let received := Announcement.parse datagram
  match received with
  | .ok r =>
    if r.usn ∈ b.seen then (b, false)
    else ({ b with seen := b.seen ++ [r.usn], queue := b.queue ++ [received] }, true)
  | .error _ => ({ b with queue := b.queue ++ [received] }, true)

/-- Records why the search ended. Only the first reason counts, and that it was
aborted if it had been stopped. -/
def finish (b : Inbox) (e : SearchEnd) : Inbox :=
  match b.ending with
  | some _ => b
  | none => { b with ending := some (if b.stopped then .aborted else e) }

/-- What there is for the consumer: after a stop nothing but that, otherwise what is
queued, and then the end of the search. -/
def take? (b : Inbox) : Option (Answer × Inbox) :=
  if b.stopped then some (.ended .aborted, b)
  else match b.queue with
    | received :: queue => some (.ofReceived received, { b with queue := queue })
    | [] => b.ending.map fun e => (.ended e, b)

end Inbox

/-! ## The query -/

/-- An inbox, and those who wait for a change of it. -/
structure Query where
  inbox : Inbox := {}
  condvar : Signal.Condvar Unit := {}

/-- A consumer's request for an answer: not looked at yet, or waiting under a ticket. -/
inductive Get where
  | fresh
  | waiting (ticket : Nat)
  deriving DecidableEq, Repr

/-- What a poll gives: the answer, or the request to poll again. -/
inductive Poll where
  | ready (a : Answer)
  | pending (g : Get)
  deriving DecidableEq, Repr

namespace Query

/-- Lets everyone who waits look again. -/
def notify (q : Query) : Query := { q with condvar := q.condvar.release.2 }

/-- A duplicate is no reason to notify. -/
def onDatagram (q : Query) (datagram : Utf8.Bytes) : Query :=
  let (inbox, isNew) := q.inbox.receive datagram
  let q := { q with inbox := inbox }
  if isNew then q.notify else q

/-- The receiver is done with the search. -/
def finish (q : Query) (e : SearchEnd) : Query :=
  { q with inbox := q.inbox.finish e }.notify

/-- Ends the query for its consumer; the receiver is told to stop as well. -/
def stop (q : Query) : Query := { q with inbox := { q.inbox with stopped := true } }

/-- Takes what there is for the consumer, or starts to wait. -/
def check (q : Query) : Query × Poll :=
  match q.inbox.take? with
  | some (answer, inbox) => ({ q with inbox := inbox }, .ready answer)
  | none =>
    let (condvar, ticket) := q.condvar.register ()
    ({ q with condvar := condvar }, .pending (.waiting ticket))

/-- Whether a request has been let go since it was last polled. -/
def isWoken (q : Query) : Get → Bool
  | .fresh => false
  | .waiting ticket => !q.condvar.waits ticket

/-- One that still waits goes on waiting, and any other looks into the inbox. -/
def poll (q : Query) (g : Get) : Query × Poll :=
  match g with
  | .fresh => q.check
  | .waiting ticket => if q.condvar.waits ticket then (q, .pending g) else q.check

/-- Gives up a request. -/
def abandon (q : Query) : Get → Query
  | .fresh => q
  | .waiting ticket => { q with condvar := q.condvar.withdraw ticket }

end Query

end Gateway
