import GameMacros.CommandLine.Arguments
import GameMacros.CommandLine.Lint
import GameMacros.CommandLine.Outcome
import GameMacros.Library.Loading
import GameMacros.Script.Reference

/-!
# The script tool

The tool has three subcommands: `lint` lists what is wrong with a macro or a library, `expand` shows
a craft loop as it would be executed, and `verbs` prints the reference. A run is a function of the
arguments and of the files that it reads.
-/

namespace GameMacros

namespace Tool

/-- How the tool is used. -/
def usage : List String := [
  "Usage:",
  "  needful_script lint <file.macro | macros.toml> [--settings <settings.toml>]",
  "  needful_script expand <file.macro> --count <n> [--synthesis] [--settings <settings.toml>]",
  "  needful_script verbs"]

/-- How `lint` is used. -/
def lintUsage : String :=
  "Usage: needful_script lint <file.macro | macros.toml> [--settings <settings.toml>]"

/-- How `expand` is used. -/
def expandUsage : String :=
  "Usage: needful_script expand <file.macro> --count <n> [--synthesis]"

/-- A file that cannot be read. -/
def unreadable (path : String) (fault : FileFault) : Outcome :=
  .failure 1 ["error: unable to read '" ++ path ++ "': " ++ fault.message]

/-- A file that is no TOML of the wanted kind. -/
def unparsable (path : String) : Outcome :=
  .failure 1 ["error: parsing '" ++ path ++ "': invalid document"]

variable {m : Type → Type} [Monad m]

/-- Goes on with the text of a file. -/
def withText (read : String → m FileContent) (path : String) (next : String → m Outcome) :
    m Outcome := do
  match (← read path).text with
  | .error fault => return unreadable path fault
  | .ok text => next text

/-- Goes on with the settings of a file, or with the default settings. Problems of the settings are
reported and do no harm. -/
def withSettings (read : String → m FileContent) (path : Option String)
    (next : Settings → m Outcome) : m Outcome :=
  match path with
  | none => next {}
  | some path =>
    withText read path fun text => do
      match Settings.ofToml? text with
      | none => return unparsable path
      | some settings =>
        return (← next settings).after
          (settings.problems.map fun problem => s!"warning: {path}: {problem.message}")

/-- Reports the problems that were found. -/
def report (problems : List String) : Outcome :=
  match problems with
  | [] => { errors := "lint: OK\n" }
  | _ => .failure 1 (problems ++ [s!"lint: {problems.length} problem(s)"])

/-- Lints a macro, or a library if the path says that it is one. -/
def lint (read : String → m FileContent) (arguments : Arguments) : m Outcome :=
  match arguments.paths with
  | [path] =>
    withSettings read arguments.settings fun settings =>
      withText read path fun text =>
        let reader := LineReader.ofSettings settings
        if path.endsWith ".toml" then
          match Library.ofToml? text with
          | none => return unparsable path
          | some library => return report (Lint.library library reader)
        else return report (Lint.source path reader none text.toList)
  | _ => return .failure 2 [lintUsage]

/-- The count of an expansion. Without one, the loop has no end. -/
def countOf (arguments : Arguments) : Except NumeralFault Int :=
  match arguments.count with
  | none => .ok (-1)
  | some count => Numeral.signed 0x7FFFFFFF count.toList

/-- Shows a macro as a craft loop. -/
def expand (read : String → m FileContent) (arguments : Arguments) : m Outcome :=
  match arguments.paths with
  | [path] =>
    match countOf arguments with
    | .error fault => return .failure 2 [s!"error: --count: {fault.message}"]
    | .ok count =>
      withSettings read arguments.settings fun settings =>
        withText read path fun text =>
          let template := CraftLoop.Template.ofSettings settings
          let fromLog := !arguments.synthesis && settings.craftLoopFromRecipeNote
          let body := String.ofList (CraftLoop.wrap template fromLog count text.toList)
          return { output := body ++ "\n" : Outcome }.after
            ((CraftLoop.warnings template count).map fun warning => s!"warning: {warning.message}")
  | _ => return .failure 2 [expandUsage]

/-- The lines of the reference about a verb. -/
def verbLines (entry : Reference.VerbEntry) : List String :=
  let name := entry.verb.name
  [entry.verb.alias?.elim s!"/{name}" fun second => s!"/{name} (/{second})",
    s!"    {entry.description}"] ++
    (if entry.modifiers.isEmpty then []
      else ["    modifiers: " ++ ", ".intercalate entry.modifiers]) ++
    entry.examples.map fun line => s!"    {line}"

/-- The lines of the reference. -/
def referenceLines : List String :=
  Reference.verbs.flatMap verbLines ++ [""] ++
    Reference.modifiers.map fun entry => s!"<{entry.name}>  {entry.description}"

/-- Prints the reference. -/
def verbs : Outcome where
  output := Outcome.unlines referenceLines

/-- Goes on with the arguments of a subcommand. -/
def withArguments (words : List String) (next : Arguments → m Outcome) : m Outcome :=
  match Arguments.ofList words with
  | .error option => return .failure 2 [s!"{option} requires a value"]
  | .ok arguments => next arguments

/-- Runs a subcommand. -/
def runCommand (read : String → m FileContent) : List String → m Outcome
  | "lint" :: words => withArguments words (lint read)
  | "expand" :: words => withArguments words (expand read)
  | ["verbs"] => return verbs
  | _ => return .failure 2 usage

/-- Runs the tool. Two dashes may stand in front of the subcommand. -/
def run (read : String → m FileContent) : List String → m Outcome
  | "--" :: words => runCommand read words
  | words => runCommand read words

end Tool

end GameMacros
