/-!
# Verbs

The verbs of the command language. Two of them have a second name. Lines for the game itself, which
have verbs of their own, count as `native`.
-/

namespace GameMacros

/-- What a macro line does. -/
inductive Verb where
  | action
  | click
  | craft
  | hold
  | item
  | loop
  | native
  | recipe
  | release
  | require
  | requireQuality
  | requireRepair
  | requireSpiritbond
  | requireStats
  | runMacro
  | send
  | target
  | wait
  | waitAddon
  deriving DecidableEq, Repr

namespace Verb

/-- The name under which a verb is listed and reported. -/
def name : Verb → String
  | .action => "action"
  | .click => "click"
  | .craft => "craft"
  | .hold => "hold"
  | .item => "item"
  | .loop => "loop"
  | .native => "native"
  | .recipe => "recipe"
  | .release => "release"
  | .require => "require"
  | .requireQuality => "requirequality"
  | .requireRepair => "requirerepair"
  | .requireSpiritbond => "requirespiritbond"
  | .requireStats => "requirestats"
  | .runMacro => "runmacro"
  | .send => "send"
  | .target => "target"
  | .wait => "wait"
  | .waitAddon => "waitaddon"

/-- The second name of a verb. -/
def alias? : Verb → Option String
  | .action => some "ac"
  | .craft => some "gate"
  | _ => none

/-- The verbs that a line can name. -/
def written : List Verb := [
  .action, .click, .craft, .hold, .item, .loop, .recipe, .release, .require, .requireQuality,
  .requireRepair, .requireSpiritbond, .requireStats, .runMacro, .send, .target, .wait, .waitAddon]

/-- The verb of a word in lower case. -/
def ofWord? (word : String) : Option Verb :=
  written.find? fun verb => verb.name == word || verb.alias? == some word

end Verb

end GameMacros
