import GameMacros.Engine.Activation
import GameMacros.Engine.Failure
import GameMacros.Engine.StopSignal

/-!
# The engine

The engine holds a queue of activations and executes them one command at a time, always for the
activation at the front. It can be paused, stepped, stopped and shut down, at once or, for pausing
and stopping, at the next loop boundary. This module has the state of the engine, the calls that
control it, the choice of the next command, and what happens to the queue when a command ends.
-/

namespace GameMacros

/-- What the engine is doing. Only a stopped engine has an empty queue. -/
inductive RunState where
  | stopped
  /-- The command under way sleeps. -/
  | waiting
  | paused
  | running
  deriving DecidableEq, Repr

/-- How the server, which executes what is queued, learns that there may be something to do. -/
inductive Wake where
  | quiet
  /-- A wake-up that the server has not taken yet. -/
  | permit
  /-- The server sleeps until it is woken. -/
  | parked
  deriving DecidableEq, Repr

/-- A wake-up. It wakes the server if that sleeps, and is kept for it otherwise. -/
def Wake.notify : Wake → Wake
  | .parked => .quiet
  | .quiet | .permit => .permit

/-- The engine. -/
structure Engine where
  settings : Settings
  reader : LineReader
  queue : List Activation := []
  runState : RunState := .stopped
  loggedIn : Bool := true
  /-- Pause at the next loop boundary. -/
  pauseAtLoop : Bool := false
  /-- Stop at the next loop boundary. -/
  stopAtLoop : Bool := false
  /-- Execute one command although paused. -/
  stepPending : Bool := false
  isShutDown : Bool := false
  signal : StopSignal := {}
  wake : Wake := .quiet
  /-- No activation has had this number or a greater one. -/
  nextId : Nat := 0
  deriving Repr

namespace Engine

/-- A new engine. -/
def ofSettings (settings : Settings) : Engine :=
  { settings, reader := .ofSettings settings }

/-- Discards the queue and all that was asked for later. -/
def halt (engine : Engine) : Engine :=
  { engine with
    queue := []
    runState := .stopped
    pauseAtLoop := false
    stopAtLoop := false
    stepPending := false }

/-- Tells the server that there may be something to do. -/
def notify (engine : Engine) : Engine :=
  { engine with wake := engine.wake.notify }

/-! ## Control -/

/-- Queues an activation of a program. A stopped engine starts. -/
def push (engine : Engine) (program : Program) : Engine :=
  let queued := { engine with
    queue := engine.queue ++ [.ofProgram engine.nextId program]
    nextId := engine.nextId + 1 }
  if engine.runState = .stopped then
    { queued with runState := .running, pauseAtLoop := false, stopAtLoop := false }
  else queued

/-- Queues a macro, with another count for its last loop if one is given. -/
def enqueue (engine : Engine) (saved : SavedMacro) (loops : Option Nat) :
    Except QueueFailure Engine :=
  match saved.program engine.settings engine.reader loops with
  | .error error => .error (.badMacro saved.name error)
  | .ok program => if engine.isShutDown then .error .shutDown else .ok (engine.push program).notify

/-- Queues the macro of a library with this name. -/
def enqueueByName (engine : Engine) (library : Library) (name : String) (loops : Option Nat) :
    Except QueueFailure Engine :=
  match library.find name with
  | .error error => .error (.noSuchMacro error)
  | .ok saved => engine.enqueue saved loops

/-- Pauses now, or at the next loop boundary. -/
def pause (engine : Engine) (atLoop : Bool) : Engine :=
  if atLoop then { engine with pauseAtLoop := true }
  else
    match engine.runState with
    | .running | .waiting => { engine with runState := .paused, stepPending := false }
    | .stopped | .paused => engine

/-- Goes on after a pause. -/
def resume (engine : Engine) : Engine :=
  if engine.runState = .paused then
    { engine with runState := .running, pauseAtLoop := false, stepPending := false }.notify
  else engine

/-- Allows a paused engine one command. -/
def stepOnce (engine : Engine) : Engine :=
  if engine.runState = .paused then { engine with stepPending := true }.notify else engine

/-- Stops now, or at the next loop boundary. -/
def stop (engine : Engine) (atLoop : Bool) : Engine :=
  if atLoop then { engine with stopAtLoop := true }
  else { engine.halt with signal := engine.signal.trigger }.notify

/-- Notes whether there is a game to play. Nothing is executed while there is none. -/
def setLoggedIn (engine : Engine) (loggedIn : Bool) : Engine :=
  if engine.loggedIn = loggedIn then engine else { engine with loggedIn }.notify

/-- Stops for good. -/
def shutDown (engine : Engine) : Engine :=
  { engine.halt with isShutDown := true, signal := engine.signal.trigger }.notify

/-! ## Execution -/

/-- What the engine does next. -/
inductive Job where
  | run (activation : Activation)
  | idle
  | shutDown
  deriving DecidableEq, Repr

/-- Drops what is finished from the front of the queue. -/
def dropFinished (engine : Engine) : Engine :=
  { engine with queue := engine.queue.dropWhile Activation.isFinished }

/-- Applies a pause that was asked for at a loop boundary. -/
def latchPause (engine : Engine) : Engine :=
  { engine with
    pauseAtLoop := false
    runState :=
      match engine.runState with
      | .running | .waiting => .paused
      | .stopped | .paused => engine.runState }

/-- Lets a command of the activation start, unless the engine is paused and no step is allowed. -/
def allowStart (engine : Engine) (front : Activation) : Engine × Job :=
  if engine.runState = .paused then
    if engine.stepPending then ({ engine with stepPending := false }, .run front)
    else (engine, .idle)
  else (engine, .run front)

/-- Chooses the next command. -/
def nextJob (engine : Engine) : Engine × Job :=
  if engine.isShutDown then (engine, .shutDown)
  else if !engine.loggedIn then (engine, .idle)
  else
    let engine := engine.dropFinished
    match engine.queue with
    | [] => (if engine.runState = .stopped then engine else engine.halt, .idle)
    | front :: _ =>
      if engine.runState = .stopped then (engine, .idle)
      else if front.atLoopBoundary && engine.stopAtLoop then (engine.halt, .idle)
      else if front.atLoopBoundary && engine.pauseAtLoop then engine.latchPause.allowStart front
      else engine.allowStart front

/-- Notes that the command under way goes to sleep. -/
def noteAsleep (engine : Engine) : Engine :=
  if engine.runState = .running then { engine with runState := .waiting } else engine

/-- Notes that the command under way wakes. -/
def noteAwake (engine : Engine) : Engine :=
  if engine.runState = .waiting then { engine with runState := .running } else engine

/-- Ends a command: the activation moves on and the program that it calls comes in front of it. An
activation that has left the queue meanwhile stays away, and so does the program. -/
def commit (engine : Engine) (activation : Activation) (callee : Option Program) : Engine :=
  match engine.queue with
  | [] => engine
  | front :: others =>
    if front.id = activation.id then
      let queue := activation.advance :: others
      match callee with
      | none => { engine with queue }
      | some program =>
        { engine with
          queue := .ofProgram engine.nextId program :: queue
          nextId := engine.nextId + 1 }
    else engine

/-! ## Display -/

/-- The label of a state. -/
def stateLabel : RunState → String
  | .stopped => "Stopped"
  | .waiting => "Waiting"
  | .paused => "Paused"
  | .running => "Running"

/-- What the engine is doing, as shown to the user. -/
def stateText (engine : Engine) : String :=
  if engine.loggedIn then stateLabel engine.runState else "Not Logged In"

/-- What the engine is doing or about to do, as shown to the user. -/
def status (engine : Engine) : String :=
  if !engine.loggedIn then "Not Logged In"
  else if engine.stopAtLoop then "Stopping Soon"
  else if engine.pauseAtLoop then "Pausing Soon"
  else stateLabel engine.runState

/-- A summary for diagnostics. -/
def summary (engine : Engine) : String :=
  let state := if engine.loggedIn then stateLabel engine.runState else "NotLoggedIn"
  "MacroEngine \x7b state: " ++ state ++ ", .. \x7d"

end Engine

end GameMacros
