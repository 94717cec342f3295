import Gateway.Table
import Gateway.Text.Numeral
import Gateway.Signal.Condvar
import Gateway.Signal.Registry
/-!
# Tokens, connections, condition variables and futures

A cancellation token counts its firings and holds the callbacks connected to it.
A child token fires when its parent does. A condition variable holds waits. A future
stands for what is not decided yet: the firing of a token, or the end of a wait.

Programs name these objects, and a callback is a script: a list of commands that may
use any of them. `World` holds the objects that are alive, by number, and the
numbers that the names stand for.
-/
namespace Gateway.Signal

/-- What a program calls an object by. Objects of different kinds may share a name. -/
abbrev Name := Text

/-- What a program can do. -/
inductive Command where
  /-- A new token, the child of another if `parent` names one. -/
  | token (name : Name) (parent : Option Name)
  | fire (token : Name)
  /-- A callback that runs `script` at the token's next firing. -/
  | connect (token name : Name) (script : List Command)
  /-- A future for the firing of a token, which is connected when it is first polled. -/
  | cancelled (token name : Name)
  | condvar (name : Name)
  | notify (condvar : Name)
  /-- A wait for the next notification, or for the firing of a token if `token` names one. -/
  | wait (condvar name : Name) (token : Option Name)
  | poll (name : Name)
  | drop (name : Name)
  | inspect (name : Name)
  /-- A command that means nothing. -/
  | unknown

/-- The kinds of objects that a command may ask for in vain. -/
inductive Kind where
  | token
  | condvar
  | future
  deriving DecidableEq, Repr

/-- What a command gives back. -/
inductive Result where
  | done
  | pending
  | ok
  | aborted
  /-- The future had ended before and was not polled. -/
  | completed
  /-- There is nothing of that name. -/
  | nothing
  | shown (text : Text)
  | noSuch (kind : Kind)
  | unknown
  deriving DecidableEq, Repr

/-- What can be seen while commands run. -/
inductive Event where
  | called (callback : Name)
  /-- A command of a callback's script gave something back. -/
  | returned (callback : Name) (result : Result)
  | woken (future : Name)
  deriving DecidableEq, Repr

/-- What a firing does for one registration. -/
inductive Callback where
  | script (connection : Nat) (name : Name) (commands : List Command)
  | fireChild (token : Nat)
  | abortWait (condvar ticket : Nat)
  | complete (future : Nat)

/-- Something left to do. -/
inductive Task where
  /-- A command, of the script of the callback `within` if there is one. -/
  | run (within : Option Name) (command : Command)
  | invoke (callback : Callback)
  /-- The end of a firing, which may have held its token. -/
  | finish (held : Option Nat)

/-- A registration with a token. -/
structure Link where
  token : Nat
  key : Key

/-- A cancellation token. -/
structure Token (R : Type → Type) where
  count : Nat := 0
  registry : R Callback
  parent : Option Link := none
  /-- How many keep the token alive: its name, futures for it, firings of it. -/
  holders : Nat := 1

/-- How many callbacks are connected to a token. -/
def Token.size {R : Type → Type} [Registry R] (t : Token R) : Nat := (Registry.toList t.registry).length

/-- Whether a token has been fired at least once. -/
def Token.isFired {R : Type → Type} (t : Token R) : Bool := 0 < t.count

/-- A script connected to a token, and how often it has been called. -/
structure Connection where
  link : Link
  count : Nat := 0

/-- How a future ends. -/
inductive Outcome where
  | ok
  | aborted
  deriving DecidableEq, Repr

/-- What a future waits for. -/
inductive Source where
  /-- The firing of a token, with the registration that the first poll made. -/
  | firing (token : Nat) (link : Option Link)
  /-- A wait, with the registration that lets a firing abort it. -/
  | wait (condvar ticket : Nat) (link : Option Link)

/-- What is not decided yet, for someone to poll. -/
structure Future where
  source : Source
  outcome : Option Outcome := none
  /-- Who is woken when there is an outcome: none, unless the last poll found none. -/
  watcher : Option Name := none
  completed : Bool := false

/-- All objects that are alive, for one kind of registry. -/
structure World (R : Type → Type) where
  tokens : Table Nat (Token R) := {}
  connections : Table Nat Connection := {}
  condvars : Table Nat (Condvar Nat) := {}
  futures : Table Nat Future := {}
  tokenNames : Table Name Nat := {}
  connectionNames : Table Name Nat := {}
  condvarNames : Table Name Nat := {}
  futureNames : Table Name Nat := {}
  /-- The number of the next object. -/
  next : Nat := 0
  /-- What has been seen, the latest first. -/
  log : List Event := []

namespace World

variable {R : Type → Type}

/-- The token of a name, with its number. -/
def token? (w : World R) (name : Name) : Option (Nat × Token R) := do
  let n ← w.tokenNames.get? name
  let t ← w.tokens.get? n
  return (n, t)

/-- The connection of a name, with its number. -/
def connection? (w : World R) (name : Name) : Option (Nat × Connection) := do
  let n ← w.connectionNames.get? name
  let c ← w.connections.get? n
  return (n, c)

/-- The condition variable of a name, with its number. -/
def condvar? (w : World R) (name : Name) : Option (Nat × Condvar Nat) := do
  let n ← w.condvarNames.get? name
  let v ← w.condvars.get? n
  return (n, v)

/-- The future of a name, with its number. -/
def future? (w : World R) (name : Name) : Option (Nat × Future) := do
  let n ← w.futureNames.get? name
  let f ← w.futures.get? n
  return (n, f)

/-- Adds to what has been seen. -/
def note (w : World R) (e : Event) : World R := { w with log := e :: w.log }

end World

end Gateway.Signal
