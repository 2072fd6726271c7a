import GameMacros.Engine.Basic
import GameMacros.Engine.Execution
import GameMacros.Engine.Sleep

/-!
# The machine

The machine is the engine at work on a host: the engine, the world and what the call that executes
the queue is doing. It moves in three ways: by a step of its own, which takes no time; by a call
that controls the engine; and by letting the clock run while it sleeps.
-/

namespace GameMacros

/-- A command under way that sleeps. What it changes is kept in a copy of its activation. -/
structure InFlight where
  activation : Activation
  command : Command
  callee : Option Program
  pause : Pause
  /-- The stops before the command started. -/
  seen : Nat
  deriving DecidableEq, Repr

/-- What the call that executes the queue is doing. -/
inductive Task where
  /-- It is about to choose the next command. -/
  | ready
  /-- Its command sleeps until a time. -/
  | suspended (flight : InFlight) (wakeAt : Nat)
  /-- It waits to be told that there is something to do. -/
  | parked
  /-- It has returned, or there was none. -/
  | ended
  deriving DecidableEq, Repr

/-- When the call that executes the queue returns. -/
inductive Mode where
  /-- When there is nothing to do. -/
  | untilIdle
  /-- When the engine is shut down. -/
  | serving
  deriving DecidableEq, Repr

/-- The engine at work on a host with states `σ`. -/
structure Machine (σ : Type) where
  engine : Engine
  world : World σ
  mode : Mode := .untilIdle
  task : Task := .ended

namespace Machine

variable {σ : Type}

/-- What commands are executed with. -/
def scope (machine : Machine σ) (host : Host σ) : Execution.Scope σ where
  host
  settings := machine.engine.settings
  reader := machine.engine.reader

/-- A call that executes the queue has been made. -/
def launch (machine : Machine σ) (mode : Mode) : Machine σ :=
  { machine with mode, task := .ready }

/-- Reports a failure. -/
def report (host : Host σ) (settings : Settings) (name : String) (failure : CommandFailure)
    (world : World σ) : World σ :=
  let world := world.perform host (.reportError s!"{name}: {failure.message}")
  let beeps := if settings.noisyErrors then settings.beepCount else 0
  (List.replicate beeps (Effect.beep settings.beepFrequency settings.beepDuration)).foldl
    (fun world effect => world.perform host effect) world

/-- Goes on from where a piece of a command has led. -/
def settle (machine : Machine σ) (host : Host σ) (activation : Activation) (command : Command)
    (callee : Option Program) (seen : Nat) (standing : Standing) : Machine σ :=
  match standing with
  | .finished =>
    { machine with engine := machine.engine.commit activation callee, task := .ready }
  | .failed failure =>
    { machine with
      engine := machine.engine.halt
      world := report host machine.engine.settings activation.name failure machine.world
      task := .ready }
  | .asleep ms pause =>
    let wakeAt := machine.world.now + Sleep.granted ms
    { machine with
      engine := machine.engine.noteAsleep
      world := machine.world.drawn pause.draws
      task := .suspended { activation, command, callee, pause, seen } wakeAt }

/-- Starts the next command of an activation. -/
def begin (machine : Machine σ) (host : Host σ) (activation : Activation) : Machine σ :=
  match activation.current? with
  | none => machine
  | some command =>
    let started := Execution.start (machine.scope host) command activation machine.world
    settle { machine with world := started.world } host started.activation command started.callee
      machine.engine.signal.count started.standing

/-- Has nothing to do for now. -/
def rest (machine : Machine σ) : Machine σ :=
  match machine.mode, machine.engine.wake with
  | .untilIdle, _ => { machine with task := .ended }
  | .serving, .permit => { machine with engine := { machine.engine with wake := .quiet } }
  | .serving, _ =>
    { machine with engine := { machine.engine with wake := .parked }, task := .parked }

/-- Chooses the next command and starts it. -/
def choose (machine : Machine σ) (host : Host σ) : Machine σ :=
  let (engine, job) := machine.engine.nextJob
  let chosen := { machine with engine }
  match job with
  | .run activation => chosen.begin host activation
  | .idle => chosen.rest
  | .shutDown => { chosen with task := .ended }

/-- Wakes a command, at the end of its pause or because it was stopped. A command that was stopped
comes to nothing. -/
def wake (machine : Machine σ) (host : Host σ) (flight : InFlight) : Machine σ :=
  let awake := { machine with engine := machine.engine.noteAwake, task := .ready }
  if machine.engine.signal.stoppedSince flight.seen then awake
  else
    let (world, standing) :=
      Execution.resume (awake.scope host) flight.command flight.pause awake.world
    settle { awake with world } host flight.activation flight.command flight.callee flight.seen
      standing

/-- A step of the machine, if there is something to do at this time. -/
def step? (machine : Machine σ) (host : Host σ) : Option (Machine σ) :=
  match machine.task with
  | .ready => some (machine.choose host)
  | .suspended flight wakeAt =>
    if machine.engine.signal.stoppedSince flight.seen || wakeAt ≤ machine.world.now then
      some (machine.wake host flight)
    else none
  | .parked =>
    if machine.engine.wake = .parked then none else some { machine with task := .ready }
  | .ended => none

/-- When the sleeping command wakes. -/
def wakeTime? (machine : Machine σ) : Option Nat :=
  match machine.task with
  | .suspended _ wakeAt => some wakeAt
  | .ready | .parked | .ended => none

/-- Lets the clock run to a time. -/
def waitUntil (machine : Machine σ) (time : Nat) : Machine σ :=
  { machine with world := machine.world.waitUntil time }

end Machine

end GameMacros
