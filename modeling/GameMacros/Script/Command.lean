import GameMacros.Script.KeyCombo
import GameMacros.Script.Modifiers

/-!
# Commands

A command is one line of a macro, ready to be executed: what it does, how long it waits, and the
line as it was written.
-/

namespace GameMacros

/-- Attributes of the crafter. -/
structure CraftStats where
  craftsmanship : Nat := 0
  control : Nat := 0
  cp : Nat := 0
  deriving DecidableEq, Repr

/-- Every attribute reaches the one asked for. -/
def CraftStats.reach (stats wanted : CraftStats) : Bool :=
  wanted.craftsmanship ≤ stats.craftsmanship && wanted.control ≤ stats.control &&
    wanted.cp ≤ stats.cp

/-- What a command waits for before the macro goes on. -/
inductive Requirement where
  | status (name : String)
  | quality (least : Nat)
  | repair
  | spiritbond (within : Option Binary32)
  | stats (least : CraftStats)
  deriving DecidableEq, Repr

namespace Requirement

/-- The verb that asks for the requirement. -/
def verb : Requirement → Verb
  | .status _ => .require
  | .quality _ => .requireQuality
  | .repair => .requireRepair
  | .spiritbond _ => .requireSpiritbond
  | .stats _ => .requireStats

/-- What is reported as not met. -/
def description : Requirement → String
  | .status name => s!"status \"{name}\""
  | .quality least => s!"quality {least}"
  | .repair => "repair"
  | .spiritbond _ => "spiritbond"
  | .stats least => s!"stats {least.craftsmanship}/{least.control}/{least.cp}"

end Requirement

namespace Command

/-- What a command does. A loop without a count goes on forever. -/
inductive Kind where
  | action (name : String) (unsafeAction : Bool) (condition : Option Condition)
  | click (name : String)
  | keys (motion : KeyMotion) (combo : KeyCombo)
  | target (name : String)
  | recipe (lowercaseName : String)
  | item (name : String) (hq : Bool)
  | require (requirement : Requirement)
  | loop (count : Option Nat)
  | craft (count : Nat)
  | wait
  | runMacro (name : String)
  | waitAddon (name : String)
  | native (line : String)
  deriving DecidableEq, Repr

/-- The verb of a kind of command. -/
def Kind.verb : Kind → Verb
  | .action .. => .action
  | .click _ => .click
  | .keys .press _ => .send
  | .keys .hold _ => .hold
  | .keys .release _ => .release
  | .target _ => .target
  | .recipe _ => .recipe
  | .item .. => .item
  | .require requirement => requirement.verb
  | .loop _ => .loop
  | .craft _ => .craft
  | .wait => .wait
  | .runMacro _ => .runMacro
  | .waitAddon _ => .waitAddon
  | .native _ => .native

end Command

/-- One executable line of a macro. -/
structure Command where
  text : String
  kind : Command.Kind
  wait : Wait := .zero
  maxWait : Nat := Modifiers.defaultMaxWait
  index : Option Nat := none
  echo : Bool := false
  deriving DecidableEq, Repr

namespace Command

/-- The verb of a command. -/
def verb (command : Command) : Verb :=
  command.kind.verb

/-- Loops and craft gates are the places where a macro can be asked to pause or stop later. -/
def isLoopBoundary (command : Command) : Bool :=
  match command.kind with
  | .loop _ | .craft _ => true
  | _ => false

end Command

end GameMacros
