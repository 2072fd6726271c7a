import GameMacros.Library.Validation
import GameMacros.Script.Program

/-!
# Linting

Linting reads macros without executing them and lists what would go wrong: lines that are no
commands, and, in a library, names that stand for no single macro.
-/

namespace GameMacros.Lint

/-- The name of the macro that a command calls, if it calls one. -/
def callee? (command : Command) : Option String :=
  match command.kind with
  | .runMacro name => some name
  | _ => none

/-- What is wrong with the calls of a macro. -/
def badCalls (label : String) (library : Library) (commands : List Command) : List String :=
  commands.filterMap fun command =>
    match (callee? command).map library.find with
    | some (.error error) => some s!"{label}: {command.text}: {error.message}"
    | _ => none

/-- What is wrong with a macro, and with its calls if there is a library to look in. -/
def source (label : String) (reader : LineReader) (library : Option Library)
    (text : List Char) : List String :=
  match reader.commands text with
  | .error error => [s!"{label}: {error.message}"]
  | .ok commands => library.elim [] fun library => badCalls label library commands

/-- What is wrong with a library: first its own problems, then those of its macros in order. -/
def library (library : Library) (reader : LineReader) : List String :=
  library.problems.map (fun problem => s!"library: {problem.message}") ++
    library.allMacros.flatMap fun saved =>
      source saved.name reader (some library) saved.contents.toList

end GameMacros.Lint
