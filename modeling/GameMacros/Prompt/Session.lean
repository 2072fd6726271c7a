import GameMacros.CommandLine.Outcome
import GameMacros.Console.Style
import GameMacros.Engine.Basic
import GameMacros.Files.Content
import GameMacros.Prompt.Request
import GameMacros.Script.Reference
import GameMacros.Text.Fill

/-!
# Sessions

A session is a conversation at the prompt: the user types requests, and the engine is controlled and
looked at accordingly. Everything is answered at once; what the engine executes is printed by its
host.
-/

namespace GameMacros

/-- A conversation at the prompt. -/
structure Session where
  engine : Engine
  library : Library
  /-- The terminal shows colors. -/
  colored : Bool := false

namespace Session

/-- How wide the lines of running text are. -/
def width : Nat := 80

/-- What can be asked for, as shown to the user. -/
def requestHelp : List (String × String) := [
  ("run <name>", "Queue a saved macro."),
  ("run loop <N> <name>", "Queue a saved macro with its last /loop replaced by /loop N."),
  ("pause", "Pause after the current command."),
  ("pause loop", "Pause when the running macro reaches its next /loop or /craft."),
  ("resume", "Continue a paused macro."),
  ("step", "While paused, run one more command."),
  ("stop", "Stop immediately, cancelling any wait, and clear the queue."),
  ("stop loop", "Stop when the running macro reaches its next /loop or /craft."),
  ("status", "Show the engine state and the queue."),
  ("list", "List saved macros."),
  ("exec <line>", "Run a single macro line."),
  ("login / logout", "Simulate the game session starting or ending."),
  ("help [verb]", "Show this text, or the reference for one macro verb or modifier."),
  ("quit", "Stop the engine and exit.")]

/-- The lines that a session starts with. -/
def greeting (colored : Bool) : List String := [
  Style.title.paint colored "needful v0.3.0",
  Style.hint.paint colored "Type 'help' for commands, 'quit' to exit."]

/-- What stands before the input of the user. -/
def prompt (session : Session) : String :=
  Style.prompt.paint session.colored s!"\n[{session.engine.status}]>> "

/-- A text with blanks after it, up to a width. -/
def padded (width : Nat) (text : String) : String :=
  text ++ String.ofList (List.replicate (width - text.length) ' ')

/-- A number with blanks before it, up to a width. -/
def aligned (width number : Nat) : String :=
  let text := toString number
  String.ofList (List.replicate (width - text.length) ' ') ++ text

/-- Running text in lines. -/
def filled (text : String) : List String :=
  (Text.fill width text.toList).map String.ofList

/-- A heading. -/
def heading (session : Session) (text : String) : String :=
  Style.heading.paint session.colored s!"[{text}]"

/-- A line about an error. -/
def errorLine (session : Session) (message : String) : String :=
  Style.error.paint session.colored message

/-- The line about an activation at a position of the queue. The step is shown as counted from one,
and a macro that has ended is shown at its last command. -/
def queueLine (session : Session) (entry : Activation × Nat) : String :=
  let (activation, position) := entry
  let name := Style.macroName.paint session.colored activation.name
  let step := min (activation.step + 1) activation.size
  s!"{aligned 3 (position + 1)}. {name} (step {step} of {activation.size})"

/-- The state of the engine and its queue. -/
def statusLines (session : Session) : List String :=
  [Style.state.paint session.colored session.engine.status] ++
    (if session.engine.queue.isEmpty then [Style.faint.paint session.colored "queue is empty"]
      else []) ++
    session.engine.queue.zipIdx.map session.queueLine

/-- The line about a saved macro. -/
def savedLine (session : Session) (saved : SavedMacro) : String :=
  let marker :=
    if saved.craftLoop then
      Style.faint.paint session.colored s!" craft loop {saved.craftLoopCount}"
    else ""
  s!"  {Style.macroName.paint session.colored saved.name}{marker}"

/-- The saved macros. -/
def libraryLines (session : Session) : List String :=
  match session.library.allMacros with
  | [] => [Style.faint.paint session.colored "no saved macros"]
  | macros => macros.map session.savedLine

/-- All that help can be asked about. -/
def overview (session : Session) : List String :=
  [session.heading "control"] ++
    requestHelp.map (fun (usage, text) =>
      s!"  {Style.strong.paint session.colored (padded 22 usage)}{text}") ++
    ["", session.heading "macro verbs"] ++
    filled (", ".intercalate (Reference.verbs.map fun entry => entry.verb.name)) ++
    ["", session.heading "modifiers"] ++
    filled (", ".intercalate (Reference.modifiers.map fun entry => entry.name))

/-- Help on a verb. -/
def verbLines (session : Session) (entry : Reference.VerbEntry) : List String :=
  let name := Style.strong.paint session.colored s!"/{entry.verb.name}"
  [entry.verb.alias?.elim name fun second => s!"{name} (/{second})"] ++
    filled entry.description ++
    (if entry.modifiers.isEmpty then []
      else ["modifiers: " ++ ", ".intercalate entry.modifiers]) ++
    entry.examples.map fun line => s!"  {line}"

/-- Help on a modifier. -/
def modifierLines (session : Session) (entry : Reference.ModifierEntry) : List String :=
  [Style.strong.paint session.colored s!"<{entry.name}>"] ++ filled entry.description ++
    entry.examples.map fun line => s!"  {line}"

/-- Help on a topic. -/
def topicLines (session : Session) (topic : String) : List String :=
  match Reference.verb? topic.toList with
  | some entry => session.verbLines entry
  | none =>
    match Reference.modifier? topic.toList with
    | some entry => session.modifierLines entry
    | none => [session.errorLine s!"No help for \"{topic}\"."]

/-- The session with another state of its engine, and nothing to say. -/
def quietly (session : Session) (engine : Engine) : Session × List String :=
  ({ session with engine }, [])

/-- Queues a saved macro. -/
def run (session : Session) (name : String) (loops : Option Nat) : Session × List String :=
  match session.engine.enqueueByName session.library name loops with
  | .ok engine =>
    ({ session with engine }, [s!"Queued {Style.macroName.paint session.colored name}."])
  | .error failure => (session, [session.errorLine failure.message])

/-- Queues a macro of one line. -/
def exec (session : Session) (line : String) : Session × List String :=
  match session.engine.enqueue { name := "exec", contents := line } none with
  | .ok engine => session.quietly engine
  | .error failure => (session, [session.errorLine failure.message])

/-- The session after a request, and the lines that answer it. -/
def respond (session : Session) : Request → Session × List String
  | .run name loops => session.run name loops
  | .pause atLoop => session.quietly (session.engine.pause atLoop)
  | .resume => session.quietly session.engine.resume
  | .step => session.quietly session.engine.stepOnce
  | .stop atLoop => session.quietly (session.engine.stop atLoop)
  | .status => (session, session.statusLines)
  | .list => (session, session.libraryLines)
  | .help none => (session, session.overview)
  | .help (some topic) => (session, session.topicLines topic)
  | .login => session.quietly (session.engine.setLoggedIn true)
  | .logout => session.quietly (session.engine.setLoggedIn false)
  | .exec line => session.exec line
  | .quit => ({ session with engine := session.engine.stop false }, ["Goodbye."])
  | .unknown =>
    (session, [
      Style.hint.paint session.colored "Didn't catch that. Type 'help' for commands."])

/-! ## Input -/

/-- What is read from the input: a line without its end, or bytes that are no text. -/
inductive Input where
  | line (text : List Char)
  | unreadable
  deriving DecidableEq, Repr

/-- A line without the line feed that ends it, and without a carriage return before that. -/
def withoutEnd (line : List Char) : List Char :=
  match line.reverse with
  | '\n' :: '\r' :: rest => rest.reverse
  | '\n' :: rest => rest.reverse
  | _ => line

/-- What the bytes of a line are. -/
def Input.ofBytes (bytes : List UInt8) : Input :=
  match FileContent.decode? bytes with
  | some text => .line (withoutEnd text.toList)
  | none => .unreadable

/-- The lines of bytes, each with its end. -/
def splitLines (bytes : List UInt8) : List (List UInt8) :=
  bytes.splitBy fun byte _ => byte != 10

/-- What the session does with an input: the session after it, the lines that answer it, and whether
the user has left. A blank line is passed over. -/
def take (session : Session) : Input → Session × List String × Bool
  | .unreadable => (session, [session.errorLine "Failed to read input. Try again."], false)
  | .line text =>
    if (Text.trim text).isEmpty then (session, [], false)
    else
      let request := Request.ofLine text
      let (next, lines) := session.respond request
      (next, lines, request = .quit)

/-- What is printed while inputs are taken, until the user leaves. The end of the inputs is a
request to leave. -/
def converse (session : Session) : List Input → String
  | [] =>
    let (_, lines) := session.respond .quit
    session.prompt ++ Outcome.unlines lines
  | input :: later =>
    let (next, lines, left) := session.take input
    let printed := session.prompt ++ Outcome.unlines lines
    if left then printed else printed ++ converse next later

/-- All that is printed in a session with the given input. -/
def transcript (session : Session) (input : List UInt8) : String :=
  Outcome.unlines (greeting session.colored) ++
    session.converse ((splitLines input).map Input.ofBytes)

end Session

end GameMacros
