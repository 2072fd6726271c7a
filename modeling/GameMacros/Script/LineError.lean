import GameMacros.Script.Verb

/-!
# Errors in macro lines

Every error of a line names the line it is about. In a whole macro the number of the line comes in
front.
-/

namespace GameMacros

/-- The modifiers that carry a value. -/
inductive ValuedModifier where
  | wait
  | maxWait
  | condition
  | index
  deriving DecidableEq, Repr

/-- The name of a modifier between its brackets. -/
def ValuedModifier.name : ValuedModifier → String
  | .wait => "wait"
  | .maxWait => "maxwait"
  | .condition => "condition"
  | .index => "index"

/-- Why a line is no command. -/
inductive LineError where
  | unknownCommand (line : String)
  | malformedModifier (modifier : ValuedModifier) (line : String)
  | invalidKey (key line : String)
  | invalidArgument (verb : Verb) (line : String)
  deriving DecidableEq, Repr

namespace LineError

/-- The line at fault. -/
def line : LineError → String
  | .unknownCommand line | .malformedModifier _ line | .invalidKey _ line
  | .invalidArgument _ line => line

/-- The wording of the error. -/
def message : LineError → String
  | .unknownCommand line => s!"unknown command: {line}"
  | .malformedModifier modifier line => s!"malformed <{modifier.name}> modifier: {line}"
  | .invalidKey key line => "unknown key '" ++ key ++ "': " ++ line
  | .invalidArgument verb line => s!"invalid /{verb.name} syntax: {line}"

end LineError

/-- The first error of a macro and the number of its line, counted from one. -/
structure ScriptError where
  lineNumber : Nat
  cause : LineError
  deriving DecidableEq, Repr

/-- The wording of the error. -/
def ScriptError.message (error : ScriptError) : String :=
  s!"line {error.lineNumber}: {error.cause.message}"

end GameMacros
