import GameMacros.Script.Verb
import GameMacros.Text.Lowercase

/-!
# Reference

What the users of the command language can look up: for each verb what it does, the modifiers that
it takes and examples, and for each modifier what it means.
-/

namespace GameMacros.Reference

/-- What is said about a verb. -/
structure VerbEntry where
  verb : Verb
  description : String
  modifiers : List String
  examples : List String
  deriving DecidableEq, Repr

/-- What is said about a modifier. -/
structure ModifierEntry where
  name : String
  description : String
  examples : List String
  deriving DecidableEq, Repr

/-- The verbs, in the order in which they are listed. -/
def verbs : List VerbEntry := [
  { verb := .action
    description := "Execute an action and wait for the server to respond."
    modifiers := ["wait", "unsafe", "condition"]
    examples := ["/ac Groundwork", "/ac \"Tricks of the Trade\""] },
  { verb := .click
    description := "Click a pre-defined button in an addon or window."
    modifiers := ["wait"]
    examples := ["/click synthesize"] },
  { verb := .craft
    description := "Placed at the start of a macro ending in /loop. " ++
      "Allows a number of passes before ending the macro."
    modifiers := ["echo", "wait"]
    examples := ["/craft 10"] },
  { verb := .loop
    description := "Loop the current macro forever, or a certain amount of times."
    modifiers := ["wait", "echo"]
    examples := ["/loop", "/loop 5"] },
  { verb := .recipe
    description := "Open the recipe book to a specific recipe."
    modifiers := ["wait"]
    examples := ["/recipe \"Tsai tou Vounou\""] },
  { verb := .require
    description := "Require a certain effect to be present before continuing."
    modifiers := ["wait", "maxwait"]
    examples := ["/require \"Well Fed\""] },
  { verb := .requireQuality
    description := "Require a certain amount of quality before continuing."
    modifiers := ["wait", "maxwait"]
    examples := ["/requirequality 3000"] },
  { verb := .requireRepair
    description := "Pause while an equipped item is at zero durability."
    modifiers := ["wait", "maxwait"]
    examples := ["/requirerepair"] },
  { verb := .requireSpiritbond
    description := "Pause while an item is ready for materia extraction. " ++
      "An optional argument keeps going while the next highest spiritbond is at least that value."
    modifiers := ["wait", "maxwait"]
    examples := ["/requirespiritbond", "/requirespiritbond 99.5"] },
  { verb := .requireStats
    description := "Require craftsmanship, control and CP of at least the given values."
    modifiers := ["wait", "maxwait"]
    examples := ["/requirestats 2700 2600 500"] },
  { verb := .item
    description := "Use an item, stopping the macro if the item is not present."
    modifiers := ["hq", "wait"]
    examples := ["/item Calamari Ripieni", "/item Calamari Ripieni <hq> <wait.3>"] },
  { verb := .runMacro
    description := "Start a saved macro from within another macro."
    modifiers := ["wait"]
    examples := ["/runmacro \"Sub macro\""] },
  { verb := .send
    description := "Send a keystroke with optional modifier keys. The last key is the primary key."
    modifiers := ["wait"]
    examples := ["/send MULTIPLY", "/send CONTROL+MENU+SHIFT+NUMPAD0"] },
  { verb := .hold
    description := "Hold a keystroke down, with optional modifier keys."
    modifiers := ["wait"]
    examples := ["/hold SHIFT+W"] },
  { verb := .release
    description := "Release a held keystroke, with optional modifier keys."
    modifiers := ["wait"]
    examples := ["/release SHIFT+W"] },
  { verb := .target
    description := "Target anyone and anything that can be selected."
    modifiers := ["wait", "index"]
    examples := ["/target Eirikur", "/target Moyce <index.2>"] },
  { verb := .waitAddon
    description := "Wait for an addon (a UI window) to be present and ready."
    modifiers := ["wait", "maxwait"]
    examples := ["/waitaddon RecipeNote"] },
  { verb := .wait
    description := "The same as the wait modifier, but as a command."
    modifiers := []
    examples := ["/wait 1-5"] }]

/-- The modifiers, in the order in which they are listed. -/
def modifiers : List ModifierEntry := [
  { name := "wait"
    description := "Wait a fixed time, or a random time within a range, after the command."
    examples := ["/ac Groundwork <wait.3>", "/ac Groundwork <wait.1.5-5.5>"] },
  { name := "maxwait"
    description := "Maximum time to wait for a state to be reached. Defaults to 5 seconds."
    examples := ["/waitaddon RecipeNote <maxwait.10>"] },
  { name := "condition"
    description := "Only perform the action under the given crafting condition(s)."
    examples := [
      "/ac Observe <condition.poor>", "/ac \"Byregot's Blessing\" <condition.not.poor>"] },
  { name := "unsafe"
    description := "Do not wait for the server to acknowledge the action."
    examples := ["/ac \"Tricks of the Trade\" <unsafe>"] },
  { name := "echo"
    description := "Echo the number of loops or crafts remaining."
    examples := ["/loop 5 <echo>"] },
  { name := "index"
    description := "Pick among several objects with the same name."
    examples := ["/target abc <index.5>"] },
  { name := "hq"
    description := "Use the high quality version of an item."
    examples := ["/item Calamari Ripieni <hq>"] }]

/-- The entry of a verb given by name or second name, in either case, with or without slashes in
front. -/
def verb? (topic : List Char) : Option VerbEntry :=
  let word := String.ofList (Text.lower (topic.dropWhile (· == '/')))
  verbs.find? fun entry => entry.verb.name == word || entry.verb.alias? == some word

/-- The entry of a modifier given by name, in either case of the ASCII letters. -/
def modifier? (topic : List Char) : Option ModifierEntry :=
  modifiers.find? fun entry => entry.name.toList == topic.map Text.asciiLower

end GameMacros.Reference
