import GameMacros.Library.SavedMacro
import GameMacros.Script.Command

/-!
# Failures

Why a command or a call comes to nothing. A command that fails ends everything that is queued; a
macro that cannot be queued changes nothing.
-/

namespace GameMacros

/-- Why a command failed. -/
inductive CommandFailure where
  | clickNotFound (name : String)
  | targetNotFound (name : String)
  | recipeNotFound (name : String)
  | synthesisOpen
  | itemNotFound (name : String)
  | actionTimeout (name : String) (attempts : Nat)
  | requirementTimeout (requirement : Requirement) (waited : Nat)
  | addonTimeout (name : String) (waited : Nat)
  | noSuchMacro (error : LookupError)
  | badMacro (error : ScriptError)
  | refused (reason : String)
  deriving DecidableEq, Repr

/-- The wording of the failure. -/
def CommandFailure.message : CommandFailure → String
  | .clickNotFound name => s!"click not found: {name}"
  | .targetNotFound name => s!"could not find target: {name}"
  | .recipeNotFound name => s!"recipe not found: {name}"
  | .synthesisOpen => "/recipe cannot be used while the Synthesis window is open"
  | .itemNotFound name => s!"item not found: {name}"
  | .actionTimeout name attempts =>
    s!"did not receive a timely response for \"{name}\" after {attempts} attempt(s)"
  | .requirementTimeout requirement waited =>
    s!"{requirement.description} not met within {waited} ms"
  | .addonTimeout name waited => s!"addon \"{name}\" not ready within {waited} ms"
  | .noSuchMacro error => s!"runmacro: {error.message}"
  | .badMacro error => s!"runmacro: {error.message}"
  | .refused reason => reason

/-- Why a macro could not be queued. -/
inductive QueueFailure where
  | badMacro (name : String) (error : ScriptError)
  | noSuchMacro (error : LookupError)
  | shutDown
  deriving DecidableEq, Repr

/-- The wording of the failure. -/
def QueueFailure.message : QueueFailure → String
  | .badMacro name error => s!"syntax error in \"{name}\": {error.message}"
  | .noSuchMacro error => error.message
  | .shutDown => "the engine has shut down"

end GameMacros
