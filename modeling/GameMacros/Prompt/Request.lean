import GameMacros.Number.Numeral
import GameMacros.Text.Blank
import GameMacros.Text.Lowercase
import GameMacros.Text.Quoted

/-!
# Requests

What the user can ask for at the prompt. A request is a line of words; its keywords are read in
either case, while names and macro lines are handed over as they were typed.
-/

namespace GameMacros

/-- What the user asks for. -/
inductive Request where
  /-- Queue a saved macro, with another count for its last loop if one is given. -/
  | run (name : String) (loops : Option Nat)
  | pause (atLoop : Bool)
  | resume
  | step
  | stop (atLoop : Bool)
  | status
  | list
  | help (topic : Option String)
  | login
  | logout
  /-- Queue a macro of one line. -/
  | exec (line : String)
  | quit
  | unknown
  deriving DecidableEq, Repr

namespace Request

/-- Words put together with a blank between each two. -/
def joined (words : List (List Char)) : List Char :=
  List.intercalate [' '] words

/-- The name that words stand for, with or without quotes around it. -/
def nameOf (words : List (List Char)) : String :=
  String.ofList (Text.unquote (joined words))

/-- The count of a request to run a macro in a loop. -/
def loops? (word : List Char) : Option Nat :=
  (Numeral.unsigned Numeral.max32 (Text.lower word)).toOption

/-- Runs the macro that is named after the keyword, or after the keyword, `loop` and a count. -/
def ofRun (arguments : List (List Char)) : Request :=
  match arguments with
  | [] => .unknown
  | first :: count :: name :: others =>
    match if Text.lower first = "loop".toList then loops? count else none with
    | some loops => .run (nameOf (name :: others)) (some loops)
    | none => .run (nameOf arguments) none
  | _ => .run (nameOf arguments) none

/-- A request without arguments, or with the argument `loop`. -/
def orAtLoop (request : Bool → Request) (arguments : List String) : Request :=
  match arguments with
  | [] => request false
  | ["loop"] => request true
  | _ => .unknown

/-- A request without arguments. -/
def alone (request : Request) (arguments : List String) : Request :=
  if arguments.isEmpty then request else .unknown

/-- Asks for help, on a topic if one is given. Slashes before the topic do not count. -/
def ofHelp (arguments : List String) : Request :=
  match arguments with
  | [] => .help none
  | [topic] => .help (some (String.ofList (topic.toList.dropWhile (· == '/'))))
  | _ => .unknown

/-- The request that a line stands for. -/
def ofLine (line : List Char) : Request :=
  match Text.words line with
  | [] => .unknown
  | keyword :: words =>
    let arguments := words.map fun word => String.ofList (Text.lower word)
    match String.ofList (Text.lower keyword) with
    | "run" => ofRun words
    | "pause" => orAtLoop .pause arguments
    | "resume" | "continue" => alone .resume arguments
    | "step" | "next" => alone .step arguments
    | "stop" => orAtLoop .stop arguments
    | "status" => alone .status arguments
    | "list" | "ls" | "macros" => alone .list arguments
    | "help" | "?" => ofHelp arguments
    | "login" => alone .login arguments
    | "logout" => alone .logout arguments
    | "exec" => if words.isEmpty then .unknown else .exec (String.ofList (joined words))
    | "quit" | "exit" => alone .quit arguments
    | _ => .unknown

end Request

end GameMacros
