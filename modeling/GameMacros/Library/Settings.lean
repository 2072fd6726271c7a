/-!
# Settings

What a user can choose about the engine. Every choice has a default.
-/

namespace GameMacros

namespace CraftLoop

/-- Stands for the macro in a craft-loop template. -/
def macroPlaceholder : String := "\x7b\x7bmacro\x7d\x7d"

/-- Stands for the count in a craft-loop template. -/
def countPlaceholder : String := "\x7b\x7bcount\x7d\x7d"

/-- The template used when none was saved. -/
def defaultTemplate : String :=
  "/craft " ++ countPlaceholder ++ "\n/waitaddon \"RecipeNote\" <maxwait.5>\n" ++
  "/click \"synthesize\"\n/waitaddon \"Synthesis\" <maxwait.5>\n" ++ macroPlaceholder ++ "\n/loop"

end CraftLoop

/-- The user's choices. -/
structure Settings where
  /-- Skip crafting actions when not crafting. -/
  craftSkip : Bool := true
  /-- Wait for crafting actions to complete, whatever the line says about waiting. -/
  smartWait : Bool := false
  /-- Skip actions that raise quality when high quality is already certain. -/
  qualitySkip : Bool := true
  /-- A loop count is the number of passes rather than the number of repeats. -/
  loopTotal : Bool := false
  /-- Always print what remains of a loop or a craft gate. -/
  loopEcho : Bool := false
  /-- How often an action without a timely response is tried again. -/
  maxTimeoutRetries : Nat := 0
  /-- Wrap craft loops in the template rather than in the standard lines. -/
  useCraftLoopTemplate : Bool := false
  craftLoopTemplate : String := CraftLoop.defaultTemplate
  /-- The standard craft loop starts from the crafting log rather than the synthesis window. -/
  craftLoopFromRecipeNote : Bool := true
  craftLoopEcho : Bool := false
  /-- How many seconds the standard craft loop waits for a window. -/
  craftLoopMaxWait : Nat := 5
  noisyErrors : Bool := false
  beepFrequency : Nat := 900
  beepDuration : Nat := 250
  beepCount : Nat := 3
  /-- Look for targets rather than leaving them to the game. -/
  useEngineTargeting : Bool := true
  stopMacroIfTargetNotFound : Bool := true
  /-- The verbs handed to the game unchanged. -/
  nativeCommands : List String := [
    "action", "alliance", "a", "assist", "as", "bm", "clearlog", "clog", "e", "echo", "em", "emote",
    "fc", "focustarget", "ft", "freecompany", "gearset", "gs", "l", "linkshell", "macrocancel",
    "macroerror", "macroicon", "micon", "macrolock", "mlock", "marking", "mk", "minion", "mount",
    "p", "party", "s", "say", "sh", "shout", "statusoff", "t", "tell", "targetenemy", "tenemy",
    "targetnpc", "tnpc", "y", "yell"]
  deriving DecidableEq, Repr, Inhabited

/-- The greatest number of retries that has an effect. -/
def Settings.retryLimit : Nat := 10

end GameMacros
