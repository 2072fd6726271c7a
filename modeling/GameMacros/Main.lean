import GameMacros.CommandLine.Tool
import GameMacros.Files.DataFolder
import GameMacros.Host.DryRun
import GameMacros.Library.Loading
import GameMacros.Prompt.Session

/-!
# The program

With `prompt` as its only argument the program is a prompt that controls an engine on a dry run; the
engine works in a thread of its own. With other arguments it is the script tool.
-/

namespace GameMacros.Terminal

/-- What an error of the system says about a file. -/
def faultOf : IO.Error → FileFault
  | .permissionDenied .. => .denied
  | .inappropriateType _ code _ => if code = 21 then .isDirectory else .notDirectory
  | .invalidArgument .. => .nameTooLong
  | _ => .missing

/-- The content of a file. -/
def readFile (path : String) : IO FileContent := do
  try
    return .ok (← IO.FS.readBinFile path).toList
  catch error => return .error (faultOf error)

/-- There is a directory with this path. -/
def isDirectory (path : String) : IO Bool := do
  match ← readFile path with
  | .error .isDirectory => return true
  | _ => return false

/-- Runs the script tool. -/
def runTool (arguments : List String) : IO UInt32 := do
  let outcome ← Tool.run readFile arguments
  (← IO.getStdout).putStr outcome.output
  (← IO.getStderr).putStr outcome.errors
  return UInt32.ofNat outcome.code

/-- An engine at work, shared by the prompt and the thread that executes the queue. -/
abbrev Shared := IO.Ref (Machine DryRun)

/-- How many moves the engine makes before others have their turn. -/
def movesPerTurn : Nat := 10000

/-- Lets the engine work up to a time. Gives what it did, and whether it has ended. -/
def work (time : Nat) (machine : Machine DryRun) : (List Effect × Bool) × Machine DryRun :=
  let next := machine.catchUp DryRun.host time movesPerTurn
  ((next.world.past.reverse.map (·.2), next.task = .ended),
    { next with world := { next.world with past := [] } })

/-- Prints a line. -/
def printLine : DryRun.Stream × String → IO Unit
  | (.output, line) => do (← IO.getStdout).putStr (line ++ "\n")
  | (.errors, line) => do (← IO.getStderr).putStr (line ++ "\n")

/-- Executes the queue as time goes on, until the engine is shut down. -/
partial def serve (shared : Shared) (colored : Bool) (start : Nat) : IO Unit := do
  let now ← IO.monoMsNow
  let (effects, ended) ← shared.modifyGet (work (now - start))
  for effect in effects do
    printLine (DryRun.line colored effect)
  if ended then return
  IO.sleep 5
  serve shared colored start

/-- The bytes of the next line of the input, with its end. There are none at the end of the input. -/
partial def readLine (input : IO.FS.Stream) (before : List UInt8) : IO (List UInt8) := do
  match (← input.read 1).toList with
  | [] => return before.reverse
  | byte :: _ =>
    if byte = 10 then return (byte :: before).reverse else readLine input (byte :: before)

/-- The session with the engine as it is now. -/
def sessionOf (library : Library) (colored : Bool) (machine : Machine DryRun) : Session where
  engine := machine.engine
  library
  colored

/-- Takes an input and answers it. -/
def answer (library : Library) (colored : Bool) (input : Session.Input)
    (machine : Machine DryRun) : (List String × Bool) × Machine DryRun :=
  let (next, lines, left) := (sessionOf library colored machine).take input
  ((lines, left), { machine with engine := next.engine })

/-- Answers the user until the user leaves. -/
partial def converse (shared : Shared) (library : Library) (colored : Bool) : IO Unit := do
  let output ← IO.getStdout
  output.putStr (sessionOf library colored (← shared.get)).prompt
  output.flush
  let bytes ← readLine (← IO.getStdin) []
  let input := if bytes.isEmpty then .line "quit".toList else Session.Input.ofBytes bytes
  let (lines, left) ← shared.modifyGet (answer library colored input)
  output.putStr (Outcome.unlines lines)
  if left then return
  converse shared library colored

/-- Runs the prompt. -/
def runPrompt : IO UInt32 := do
  let colored := Style.areShown (← IO.getEnv "CLICOLOR_FORCE") (← IO.getEnv "NO_COLOR")
    (← IO.getEnv "CLICOLOR") (← (← IO.getStdout).isTty)
  let folder ← DataFolder.find isDirectory (← IO.getEnv DataFolder.environmentName)
  let settings ← readFile (DataFolder.path folder DataFolder.settingsFile)
  let library := (← readFile (DataFolder.path folder DataFolder.libraryFile)).libraryOrEmpty
  let machine : Machine DryRun := {
    engine := .ofSettings settings.settingsOrDefault
    world := { host := { library, seed := ← IO.rand 0 1000000 } } }
  let shared ← IO.mkRef (machine.launch .serving)
  let start ← IO.monoMsNow
  let worker ← IO.asTask (serve shared colored start) .dedicated
  (← IO.getStdout).putStr (Outcome.unlines (Session.greeting colored))
  converse shared library colored
  shared.modify fun machine => { machine with engine := machine.engine.shutDown }
  IO.ofExcept worker.get
  return 0

end GameMacros.Terminal

/-- Runs the prompt or the script tool. -/
def main (arguments : List String) : IO UInt32 :=
  match arguments with
  | ["prompt"] => GameMacros.Terminal.runPrompt
  | _ => GameMacros.Terminal.runTool arguments
