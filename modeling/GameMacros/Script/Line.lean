import GameMacros.Script.Command
import GameMacros.Text.Lines
import GameMacros.Text.Quoted

/-!
# Reading a line

The modifiers are taken out first; what is left is a verb with its arguments, or text for the game.
An empty rest is a bare wait, a rest that starts with an angle bracket goes to the game as it is,
and any other text without a slash is said aloud. The verbs of the language are tried before the
verbs that are passed on to the game.
-/

namespace GameMacros

/-- What the reader of macro lines has to know: the verbs, in lower case, that belong to the game. -/
structure LineReader where
  nativeVerbs : List String
  deriving DecidableEq, Repr

namespace Line

/-- The verb and the arguments of a text that starts with a slash. There is no verb right before a
blank, and the arguments stay on one line. -/
def splitVerb? : List Char → Option (List Char × List Char)
  | '/' :: rest =>
    let word := rest.takeWhile (!Text.isBlank ·)
    let arguments := Text.trimStart (rest.dropWhile (!Text.isBlank ·))
    if word.isEmpty || arguments.contains '\n' then none
    else some (word, Text.trim arguments)
  | _ => none

/-- A name, with or without quotes around it. -/
def name? (arguments : List Char) : Option String :=
  let name := Text.trim (Text.unquote arguments)
  if name.isEmpty then none else some (String.ofList name)

/-- Three counts with blanks between them. -/
def stats? (arguments : List Char) : Option CraftStats :=
  match Text.words arguments with
  | [craftsmanship, control, cp] => do
    return ⟨← Numeral.count? craftsmanship, ← Numeral.count? control, ← Numeral.count? cp⟩
  | _ => none

/-- A delay. Its form is checked before its seconds are read. A check that lets digits of other
scripts pass comes to the same, since these are not read. -/
def delay? (arguments : List Char) : Option Wait :=
  if Wait.isInForm arguments then Wait.ofSeconds? arguments else none

/-- Reads a key combination, which holds no blank. -/
def combo (verb : Verb) (line : String) (arguments : List Char) : Except LineError KeyCombo :=
  if arguments.isEmpty || arguments.any Text.isBlank then .error (.invalidArgument verb line)
  else
    match KeyCombo.ofText arguments with
    | .ok combo => .ok combo
    | .error key => .error (.invalidKey key line)

/-- What the verb does with its arguments. -/
def kindOf (verb : Verb) (line : String) (arguments : List Char) (modifiers : Modifiers) :
    Except LineError Command.Kind :=
  let orInvalid (kind? : Option Command.Kind) : Except LineError Command.Kind :=
    match kind? with
    | some kind => .ok kind
    | none => .error (.invalidArgument verb line)
  let none? := if arguments.isEmpty then some () else none
  match verb with
  | .action =>
    orInvalid ((name? arguments).map (.action · modifiers.unsafeAction modifiers.condition))
  | .click => orInvalid ((name? arguments).map .click)
  | .craft => orInvalid ((Numeral.count? arguments).map .craft)
  | .hold => (combo verb line arguments).map (.keys .hold)
  | .item => orInvalid ((name? arguments).map (.item · modifiers.hq))
  | .loop =>
    if arguments.isEmpty then .ok (.loop none)
    else orInvalid ((Numeral.count? arguments).map fun count => .loop (some count))
  | .native => orInvalid none
  | .recipe => orInvalid ((name? arguments).map fun name => .recipe (Text.lowercase name))
  | .release => (combo verb line arguments).map (.keys .release)
  | .require => orInvalid ((name? arguments).map fun name => .require (.status name))
  | .requireQuality =>
    orInvalid ((Numeral.count? arguments).map fun least => .require (.quality least))
  | .requireRepair => orInvalid (none?.map fun _ => .require .repair)
  | .requireSpiritbond =>
    if arguments.isEmpty then .ok (.require (.spiritbond none))
    else
      orInvalid ((Decimal.ofText? arguments).map fun within =>
        .require (.spiritbond (some (Binary32.ofDecimal within))))
  | .requireStats => orInvalid ((stats? arguments).map fun least => .require (.stats least))
  | .runMacro => orInvalid ((name? arguments).map .runMacro)
  | .send => (combo verb line arguments).map (.keys .press)
  | .target => orInvalid ((name? arguments).map .target)
  | .wait =>
    if arguments.isEmpty then .ok .wait else orInvalid ((delay? arguments).map fun _ => .wait)
  | .waitAddon => orInvalid ((name? arguments).map .waitAddon)

/-- What the line without its modifiers does, and the delay it names itself, if any. -/
def kindAndDelay (reader : LineReader) (line : String) (modifiers : Modifiers)
    (rest : List Char) : Except LineError (Command.Kind × Option Wait) :=
  match rest with
  | [] => .ok (.wait, none)
  | '<' :: _ => .ok (.native (String.ofList rest), none)
  | '/' :: _ =>
    match splitVerb? rest with
    | none => .error (.unknownCommand line)
    | some (word, arguments) =>
      let word := String.ofList (Text.lower word)
      match Verb.ofWord? word with
      | some verb =>
        (kindOf verb line arguments modifiers).map fun kind =>
          (kind, if kind = .wait then delay? arguments else none)
      | none =>
        if reader.nativeVerbs.contains word then .ok (.native (String.ofList rest), none)
        else .error (.unknownCommand line)
  | _ => .ok (.native ("/e " ++ String.ofList rest), none)

end Line

namespace LineReader

/-- Reads one line. Blank lines and lines that start with `#` hold no command. -/
def command (reader : LineReader) (source : List Char) : Except LineError (Option Command) :=
  let text := Text.trim source
  if text.isEmpty || text.head? = some '#' then .ok none
  else do
    let line := String.ofList text
    let (modifiers, rest) ← Modifiers.extract text
    let (kind, delay) ← Line.kindAndDelay reader line modifiers rest
    return some {
      text := line
      kind
      wait := delay.getD modifiers.wait
      maxWait := modifiers.maxWaitOrDefault
      index := modifiers.index
      echo := modifiers.echo }

/-- Reads numbered lines in order, up to the first error. -/
def commandsFrom (reader : LineReader) (lineNumber : Nat) :
    List (List Char) → Except ScriptError (List Command)
  | [] => .ok []
  | line :: rest =>
    match reader.command line with
    | .error cause => .error ⟨lineNumber, cause⟩
    | .ok command =>
      (reader.commandsFrom (lineNumber + 1) rest).map (command.toList ++ ·)

/-- Reads a whole macro, whose lines may end with `\n`, `\r\n` or `\r`. -/
def commands (reader : LineReader) (source : List Char) : Except ScriptError (List Command) :=
  reader.commandsFrom 1 (Text.lines (Text.unifyBreaks source))

end LineReader

end GameMacros
