import GameMacros.Script.Program

/-!
# Activations

An activation is one run of a program: its commands, the place in them, and what remains of its
loops and craft gates. The place moves only when a command has ended, so a command that is broken
off leaves no trace.
-/

namespace GameMacros

/-- What remains of each loop and craft gate, by the place of its command. Places are distinct. -/
abbrev Counters := List (Nat × Nat)

namespace Counters

/-- What remains at a place, if it was counted before. -/
def get? (counters : Counters) (place : Nat) : Option Nat :=
  (counters.find? (·.1 == place)).map (·.2)

/-- Forgets a place. -/
def erase (counters : Counters) (place : Nat) : Counters :=
  counters.filter (·.1 != place)

/-- Notes what remains at a place. -/
def set (counters : Counters) (place remaining : Nat) : Counters :=
  (place, remaining) :: counters.erase place

end Counters

/-- One run of a program. -/
structure Activation where
  id : Nat
  name : String
  commands : List Command
  step : Nat := 0
  nextStep : Option Nat := none
  finished : Bool := false
  counters : Counters := []
  deriving DecidableEq, Repr

namespace Activation

/-- A program that is about to start. -/
def ofProgram (id : Nat) (program : Program) : Activation where
  id
  name := program.name
  commands := program.commands

/-- How many commands there are. -/
def size (activation : Activation) : Nat :=
  activation.commands.length

/-- The command to be executed next. -/
def current? (activation : Activation) : Option Command :=
  if activation.finished then none else activation.commands[activation.step]?

/-- No command is left. -/
def isFinished (activation : Activation) : Bool :=
  activation.finished || activation.size ≤ activation.step

/-- The next command is a loop or a craft gate. -/
def atLoopBoundary (activation : Activation) : Bool :=
  activation.current?.any Command.isLoopBoundary

/-- Goes on at another place when the current command has ended. -/
def jumpTo (activation : Activation) (place : Nat) : Activation :=
  { activation with nextStep := some place }

/-- Ends the activation with the current command. -/
def finish (activation : Activation) : Activation :=
  { activation with finished := true }

/-- Moves past the current command. -/
def advance (activation : Activation) : Activation :=
  { activation with
    step := activation.nextStep.getD (activation.step + 1)
    nextStep := none }

/-- What remains at a place that starts with `initial`. -/
def remaining (activation : Activation) (place initial : Nat) : Nat :=
  (activation.counters.get? place).getD initial

/-- Notes what remains at a place. -/
def setRemaining (activation : Activation) (place remaining : Nat) : Activation :=
  { activation with counters := activation.counters.set place remaining }

/-- Starts counting at a place, unless it is being counted. -/
def count (activation : Activation) (place initial : Nat) : Activation :=
  activation.setRemaining place (activation.remaining place initial)

/-- Forgets what remains at a place, so that it starts anew. -/
def forget (activation : Activation) (place : Nat) : Activation :=
  { activation with counters := activation.counters.erase place }

end Activation

end GameMacros
