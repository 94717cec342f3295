import Gateway.Signal.World
/-!
# Running commands

A command acts at once, except that a firing leaves the callbacks it took to be
invoked one after another, and a callback's script may fire again. What is left to
do is a list of tasks, the next one first. Each task uses up weight: that of a
command counts the callbacks it may connect and what their scripts may do. So the
weight of the tasks and of everything connected bounds how long a run takes.
-/
namespace Gateway.Signal

namespace World

variable {R : Type → Type} [Registry R]

/-! ## Registrations -/

/-- Connects a callback to the token `t`, whose number is `n`. -/
def register (w : World R) (n : Nat) (t : Token R) (cb : Callback) : World R × Link :=
  let (registry, key) := Registry.insert t.registry cb
  ({ w with tokens := w.tokens.insert n { t with registry := registry } }, ⟨n, key⟩)

/-- Disconnects a callback, unless it has been taken by a firing or its token is gone. -/
def unlink (w : World R) (l : Link) : World R :=
  { w with tokens := w.tokens.modify l.token fun t => { t with registry := Registry.remove t.registry l.key } }

/-- Disconnects the callback of a registration that there need not be. -/
def unlink? (w : World R) (l : Option Link) : World R :=
  match l with
  | some l => w.unlink l
  | none => w

/-- Holds a token, so that it stays alive. -/
def hold (w : World R) (n : Nat) : World R :=
  { w with tokens := w.tokens.modify n fun t => { t with holders := t.holders + 1 } }

/-- Gives up one hold on a token. The last one drops the token and detaches it from its parent. -/
def release (w : World R) (n : Nat) : World R :=
  match w.tokens.get? n with
  | none => w
  | some t =>
    if t.holders ≤ 1 then { w with tokens := w.tokens.erase n }.unlink? t.parent
    else { w with tokens := w.tokens.insert n { t with holders := t.holders - 1 } }

/-! ## Outcomes -/

/-- Decides a future, unless it is decided or gone, and wakes its watcher. -/
def deliver (w : World R) (f : Nat) (o : Outcome) : World R :=
  match w.futures.get? f with
  | some future =>
    if future.outcome.isSome then w
    else
      let w := { w with futures := w.futures.insert f { future with outcome := some o, watcher := none } }
      match future.watcher with
      | some name => w.note (.woken name)
      | none => w
  | none => w

/-- Aborts a wait, unless it has been released or its variable is gone. -/
def abortWait (w : World R) (v ticket : Nat) : World R :=
  match w.condvars.get? v with
  | none => w
  | some cv =>
    match cv.owner? ticket with
    | none => w
    | some f => { w with condvars := w.condvars.insert v (cv.withdraw ticket) }.deliver f .aborted

/-- Lets everyone who waits go, in order. -/
def releaseAll (w : World R) (v : Nat) (o : Outcome) : World R :=
  match w.condvars.get? v with
  | none => w
  | some cv =>
    let (owners, cv) := cv.release
    owners.foldl (fun w f => w.deliver f o) { w with condvars := w.condvars.insert v cv }

/-! ## Dropping -/

/-- Its callback is disconnected. -/
def dropConnection (w : World R) (c : Nat) : World R :=
  match w.connections.get? c with
  | none => w
  | some connection => { w with connections := w.connections.erase c }.unlink connection.link

/-- Those who still wait are aborted. -/
def dropCondvar (w : World R) (v : Nat) : World R :=
  let w := w.releaseAll v .aborted
  { w with condvars := w.condvars.erase v }

/-- A wait is withdrawn first, at which its watcher is woken. -/
def dropFuture (w : World R) (f : Nat) : World R :=
  match w.futures.get? f with
  | none => w
  | some future =>
    match future.source with
    | .firing n link =>
      let w := { w with futures := w.futures.erase f }
      if future.completed then w else (w.unlink? link).release n
    | .wait v ticket link =>
      let w := w.abortWait v ticket
      { w with futures := w.futures.erase f }.unlink? link

/-! ## Naming

An object that takes the name of another of its kind is made before that one is
dropped. -/

def nameToken (w : World R) (name : Name) (n : Nat) : World R :=
  let old := w.tokenNames.get? name
  let w := { w with tokenNames := w.tokenNames.insert name n }
  match old with
  | some m => w.release m
  | none => w

def nameConnection (w : World R) (name : Name) (c : Nat) : World R :=
  let old := w.connectionNames.get? name
  let w := { w with connectionNames := w.connectionNames.insert name c }
  match old with
  | some d => w.dropConnection d
  | none => w

def nameCondvar (w : World R) (name : Name) (v : Nat) : World R :=
  let old := w.condvarNames.get? name
  let w := { w with condvarNames := w.condvarNames.insert name v }
  match old with
  | some u => w.dropCondvar u
  | none => w

def nameFuture (w : World R) (name : Name) (f : Nat) : World R :=
  let old := w.futureNames.get? name
  let w := { w with futureNames := w.futureNames.insert name f }
  match old with
  | some g => w.dropFuture g
  | none => w

/-! ## Commands -/

/-- Counts a firing of a token and takes everything connected to it. -/
def takeAll (w : World R) (n : Nat) : World R × List Callback :=
  match w.tokens.get? n with
  | none => (w, [])
  | some t =>
    ({ w with tokens := w.tokens.insert n { t with count := t.count + 1, registry := Registry.clear t.registry } },
      Registry.toList t.registry)

/-- A child of a token that has fired fires at once, when nothing is connected to it yet. -/
def makeToken (w : World R) (name : Name) (parent : Option Name) : World R :=
  let n := w.next
  let w := { w with next := n + 1 }
  let w := match parent.bind w.token? with
    | none => { w with tokens := w.tokens.insert n { registry := Registry.empty } }
    | some (p, t) =>
      let (w, link) := w.register p t (.fireChild n)
      let child : Token R :=
        { registry := Registry.empty, parent := some link, count := if t.isFired then 1 else 0 }
      { w with tokens := w.tokens.insert n child }
  w.nameToken name n

/-- Connects a script to the token `t`, whose number is `n`. -/
def connect (w : World R) (n : Nat) (t : Token R) (name : Name) (script : List Command) : World R :=
  let c := w.next
  let (w, link) := { w with next := c + 1 }.register n t (.script c name script)
  { w with connections := w.connections.insert c { link := link } }.nameConnection name c

/-- Starts a wait. If the token that may abort it has fired, it is aborted at once. -/
def makeWait (w : World R) (v : Nat) (cv : Condvar Nat) (name : Name) (token : Option (Nat × Token R)) :
    World R :=
  let f := w.next
  let (cv, ticket) := cv.register f
  let w := { w with next := f + 1, condvars := w.condvars.insert v cv }
  let w := match token with
    | none => { w with futures := w.futures.insert f { source := .wait v ticket none } }
    | some (n, t) =>
      let (w, link) := w.register n t (.abortWait v ticket)
      let w := { w with futures := w.futures.insert f { source := .wait v ticket (some link) } }
      if t.isFired then w.abortWait v ticket else w
  w.nameFuture name f

/-- Polls a future. The first poll of one for a firing connects to the token, and
disconnects again if the token has fired. -/
def pollFuture (w : World R) (name : Name) (f : Nat) (future : Future) : World R × Result :=
  let wait := fun (w : World R) (future : Future) =>
    ({ w with futures := w.futures.insert f { future with watcher := some name } }, Result.pending)
  let complete := fun (w : World R) =>
    { w with futures := w.futures.insert f { future with completed := true } }
  if future.completed then (w, .completed)
  else
    match future.source, future.outcome with
    | .firing n none, _ =>
      match w.tokens.get? n with
      | none => (w, .pending)
      | some t =>
        let (w, link) := w.register n t (.complete f)
        if t.isFired then ((complete (w.unlink link)).release n, .ok)
        else wait w { future with source := .firing n (some link) }
    | .firing n (some link), some _ => ((complete (w.unlink link)).release n, .ok)
    | .wait _ _ _, some .ok => (complete w, .ok)
    | .wait _ _ _, some .aborted => (complete w, .aborted)
    | _, none => wait w future

/-- Drops what has a name, of every kind. -/
def dropNamed (w : World R) (name : Name) : World R × Result :=
  let token := w.tokenNames.get? name
  let connection := w.connectionNames.get? name
  let condvar := w.condvarNames.get? name
  let future := w.futureNames.get? name
  let w := match token with
    | some n => { w with tokenNames := w.tokenNames.erase name }.release n
    | none => w
  let w := match connection with
    | some c => { w with connectionNames := w.connectionNames.erase name }.dropConnection c
    | none => w
  let w := match condvar with
    | some v => { w with condvarNames := w.condvarNames.erase name }.dropCondvar v
    | none => w
  let w := match future with
    | some f => { w with futureNames := w.futureNames.erase name }.dropFuture f
    | none => w
  let found := token.isSome || connection.isSome || condvar.isSome || future.isSome
  (w, if found then .done else .nothing)

/-- The counts of the first object that has a name. -/
def inspect (w : World R) (name : Name) : Result :=
  match w.token? name, w.connection? name, w.condvar? name with
  | some (_, t), _, _ =>
    .shown ("Cancel \x7b call_count: ".toList ++ Text.decimal t.count ++
      ", connections: ".toList ++ Text.decimal t.size ++ " \x7d".toList)
  | none, some (_, c), _ =>
    .shown ("Connection \x7b call_count: ".toList ++ Text.decimal c.count ++ " \x7d".toList)
  | none, none, some (_, v) =>
    .shown ("ConditionVariable \x7b waiters: ".toList ++ Text.decimal v.count ++ " \x7d".toList)
  | none, none, none => .nothing

/-- Carries out a command, up to the callbacks that a firing is to invoke. -/
def execute (w : World R) : Command → World R × List Task × Result
  | .token name parent => (w.makeToken name parent, [], .done)
  | .fire name =>
    match w.token? name with
    | none => (w, [], .noSuch .token)
    | some (n, _) =>
      let (w, callbacks) := (w.hold n).takeAll n
      (w, callbacks.map .invoke ++ [.finish (some n)], .done)
  | .connect token name script =>
    match w.token? token with
    | none => (w, [], .noSuch .token)
    | some (n, t) => (w.connect n t name script, [], .done)
  | .cancelled token name =>
    match w.token? token with
    | none => (w, [], .noSuch .token)
    | some (n, _) =>
      let f := w.next
      let w := { w.hold n with next := f + 1 }
      ({ w with futures := w.futures.insert f { source := .firing n none } }.nameFuture name f, [], .done)
  | .condvar name =>
    let v := w.next
    ({ w with next := v + 1, condvars := w.condvars.insert v {} }.nameCondvar name v, [], .done)
  | .notify name =>
    match w.condvar? name with
    | none => (w, [], .noSuch .condvar)
    | some (v, _) => (w.releaseAll v .ok, [], .done)
  | .wait condvar name token =>
    match w.condvar? condvar with
    | none => (w, [], .noSuch .condvar)
    | some (v, cv) => (w.makeWait v cv name (token.bind w.token?), [], .done)
  | .poll name =>
    match w.future? name with
    | none => (w, [], .noSuch .future)
    | some (f, future) =>
      let (w, result) := w.pollFuture name f future
      (w, [], result)
  | .drop name =>
    let (w, result) := w.dropNamed name
    (w, [], result)
  | .inspect name => (w, [], w.inspect name)
  | .unknown => (w, [], .unknown)

/-! ## Runs -/

/-- What a command of a script gives back is logged unless it is nothing of note. -/
def noteResult (w : World R) (within : Option Name) (result : Result) : World R :=
  match within with
  | some name => if result = .done then w else w.note (.returned name result)
  | none => w

/-- Does one task. Gives what it leaves to do before anything else. -/
def step (w : World R) : Task → World R × List Task
  | .run within command =>
    let (w, tasks, result) := w.execute command
    (w.noteResult within result, tasks)
  | .invoke (.script c name commands) =>
    let counted := w.connections.modify c fun connection => { connection with count := connection.count + 1 }
    ({ w with connections := counted }.note (.called name), commands.map (.run (some name)))
  | .invoke (.fireChild n) =>
    match w.tokens.get? n with
    | none => (w, [])
    | some _ =>
      let (w, callbacks) := w.takeAll n
      (w, callbacks.map .invoke ++ [.finish none])
  | .invoke (.abortWait v ticket) => (w.abortWait v ticket, [])
  | .invoke (.complete f) => (w.deliver f .ok, [])
  | .finish (some n) => (w.release n, [])
  | .finish none => (w, [])

/-- Does at most `n` tasks. Gives what is then left to do. -/
def runTasks : (n : Nat) → World R → List Task → World R × List Task
  | 0, w, tasks => (w, tasks)
  | _ + 1, w, [] => (w, [])
  | n + 1, w, task :: rest =>
    let (w, more) := w.step task
    runTasks n w (more ++ rest)

end World

/-! ## Weights -/

mutual

/-- One for the command itself, and the weight of what it may connect or leave to do. -/
def Command.weight : Command → Nat
  | .token _ _ => 3
  | .fire _ => 2
  | .connect _ _ script => 2 + Command.weights script
  | .wait _ _ _ => 2
  | .poll _ => 2
  | .cancelled _ _ | .condvar _ | .notify _ | .drop _ | .inspect _ | .unknown => 1

/-- The weight of a script. -/
def Command.weights : List Command → Nat
  | [] => 0
  | c :: cs => c.weight + Command.weights cs

end

/-- One for the invocation itself, and the weight of what it may leave to do. What a firing takes
has its weight in the world already. -/
def Callback.weight : Callback → Nat
  | .script _ _ commands => 1 + Command.weights commands
  | .fireChild _ => 2
  | .abortWait _ _ => 1
  | .complete _ => 1

/-- The weight of a single task. -/
def Task.weight : Task → Nat
  | .run _ command => command.weight
  | .invoke callback => callback.weight
  | .finish _ => 1

/-- The weight of some callbacks. -/
def weigh (cbs : List Callback) : Nat := @List.sum Nat _ Zero.ofOfNat0 (cbs.map Callback.weight)

/-- The weight of some tasks. -/
def Task.weights (tasks : List Task) : Nat := @List.sum Nat _ Zero.ofOfNat0 (tasks.map Task.weight)

namespace World

variable {R : Type → Type} [Registry R]

/-- The weight of everything connected. -/
def weight (w : World R) : Nat := w.tokens.sum fun t => weigh (Registry.toList t.registry)

/-- As many tasks as can be done before nothing is left to do: each of them uses up weight. -/
def fuel (w : World R) (tasks : List Task) : Nat := Task.weights tasks + w.weight

/-- Carries out a command and all that follows from it. Nothing is then left to do. -/
def perform (w : World R) (command : Command) : World R × Result :=
  let (w, tasks, result) := w.execute command
  ((runTasks (w.fuel tasks) w tasks).1, result)

/-- The world after some commands, the first one first. -/
def performAll (w : World R) (commands : List Command) : World R :=
  commands.foldl (fun w c => (w.perform c).1) w

end World

end Gateway.Signal
