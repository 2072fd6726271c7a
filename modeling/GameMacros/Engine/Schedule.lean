import GameMacros.Engine.Machine

/-!
# Schedules

A schedule is a list of calls that control the engine, each with the time at which it is made. A run
of the machine under a schedule lets the machine work as long as it can, makes the calls that are
due, and lets the clock run to the next thing that happens.
-/

namespace GameMacros

/-- A call that controls the engine. `look` and `summary` only look at it. -/
inductive Call where
  | enqueue (saved : SavedMacro) (loops : Option Nat)
  | enqueueByName (name : String) (loops : Option Nat)
  | pause (atLoop : Bool)
  | resume
  | stepOnce
  | stop (atLoop : Bool)
  | login
  | logout
  | shutDown
  | look
  | summary
  deriving DecidableEq, Repr

/-- What a call answers. -/
inductive Call.Answer where
  | done
  | queued
  | refused (failure : QueueFailure)
  | text (text : String)
  deriving DecidableEq, Repr

/-- The calls to come, each with its time, in the order of time. -/
abbrev Schedule := List (Nat × Call)

/-- What can be seen of the engine right after a call. -/
structure Observation where
  answer : Call.Answer
  time : Nat
  state : String
  status : String
  /-- For each activation its name, its place and how many commands it has. -/
  queue : List (String × Nat × Nat)
  deriving DecidableEq, Repr

namespace Engine

/-- The engine after a call, and the answer. -/
def handle (engine : Engine) (library : Library) : Call → Engine × Call.Answer
  | .enqueue saved loops =>
    match engine.enqueue saved loops with
    | .ok queued => (queued, .queued)
    | .error failure => (engine, .refused failure)
  | .enqueueByName name loops =>
    match engine.enqueueByName library name loops with
    | .ok queued => (queued, .queued)
    | .error failure => (engine, .refused failure)
  | .pause atLoop => (engine.pause atLoop, .done)
  | .resume => (engine.resume, .done)
  | .stepOnce => (engine.stepOnce, .done)
  | .stop atLoop => (engine.stop atLoop, .done)
  | .login => (engine.setLoggedIn true, .done)
  | .logout => (engine.setLoggedIn false, .done)
  | .shutDown => (engine.shutDown, .done)
  | .look => (engine, .done)
  | .summary => (engine, .text engine.summary)

/-- What can be seen of the engine. -/
def observe (engine : Engine) (answer : Call.Answer) (time : Nat) : Observation where
  answer
  time
  state := engine.stateText
  status := engine.status
  queue := engine.queue.map fun activation => (activation.name, activation.step, activation.size)

end Engine

namespace Machine

variable {σ : Type}

/-- Makes a call. -/
def handle (machine : Machine σ) (library : Library) (call : Call) : Machine σ × Observation :=
  let (engine, answer) := machine.engine.handle library call
  ({ machine with engine }, engine.observe answer machine.world.now)

/-- Makes the calls that are due, one right after the other. Gives the calls that are left and the
observations. -/
def handleDue (library : Library) :
    Schedule → Machine σ → Machine σ × Schedule × List Observation
  | [], machine => (machine, [], [])
  | (time, call) :: later, machine =>
    if time ≤ machine.world.now then
      let (handled, observation) := machine.handle library call
      let (last, left, observations) := handleDue library later handled
      (last, left, observation :: observations)
    else (machine, (time, call) :: later, [])

/-- The time of the next thing that happens to a machine that has nothing to do for now. -/
def nextTime? (machine : Machine σ) (schedule : Schedule) : Option Nat :=
  match machine.wakeTime?, schedule with
  | none, [] => none
  | some wakeAt, [] => some wakeAt
  | none, (time, _) :: _ => some time
  | some wakeAt, (time, _) :: _ => some (min wakeAt time)

/-- A run under a schedule, of at most `fuel` moves. Gives `none` if these do not suffice, and
otherwise the machine at the end and the observations. -/
def run? (host : Host σ) (library : Library) :
    (fuel : Nat) → Schedule → Machine σ → Option (Machine σ × List Observation)
  | 0, _, _ => none
  | fuel + 1, schedule, machine =>
    match machine.step? host with
    | some next => run? host library fuel schedule next
    | none =>
      let (handled, left, observations) := handleDue library schedule machine
      if left.length < schedule.length then
        (run? host library fuel left handled).map fun (last, others) =>
          (last, observations ++ others)
      else
        match machine.nextTime? schedule with
        | none => some (machine, [])
        | some time => run? host library fuel schedule (machine.waitUntil time)

/-- Lets the machine work up to a time, in at most `fuel` moves. -/
def catchUp (host : Host σ) (time : Nat) : (fuel : Nat) → Machine σ → Machine σ
  | 0, machine => machine
  | fuel + 1, machine =>
    match machine.step? host with
    | some next => catchUp host time fuel next
    | none =>
      let resting := machine.waitUntil (min time (machine.wakeTime?.getD time))
      if resting.wakeTime?.any (· ≤ time) then catchUp host time fuel resting else resting

/-- The schedule of a server: it is shut down right after the last call. -/
def serverSchedule (start : Nat) (calls : Schedule) : Schedule :=
  calls ++ [((calls.getLast?.map (·.1)).getD start, .shutDown)]

/-- Executes the queue until there is nothing to do, under a schedule. -/
def runUntilIdle? (host : Host σ) (library : Library) (fuel : Nat) (calls : Schedule)
    (machine : Machine σ) : Option (Machine σ × List Observation) :=
  run? host library fuel calls (machine.launch .untilIdle)

/-- Serves under a schedule, until it is shut down after the last call. The observations are those
of the calls in the schedule. -/
def serve? (host : Host σ) (library : Library) (fuel : Nat) (calls : Schedule)
    (machine : Machine σ) : Option (Machine σ × List Observation) :=
  (run? host library fuel (serverSchedule machine.world.now calls) (machine.launch .serving)).map
    fun (last, observations) => (last, observations.dropLast)

end Machine

end GameMacros
