import GameMacros.Script.Condition
import GameMacros.Script.LineError
import GameMacros.Script.Wait

/-!
# Modifiers

A modifier is written `<name>` or `<name.value>`, anywhere on a line and in any order. The known
ones are taken out of the line kind by kind, each kind from the text that the kinds before it have
left. Where a kind occurs more than once, its last occurrence counts and all are removed. Everything
else between angle brackets is ordinary text.
-/

namespace GameMacros

/-- The modifiers of a line. Those that do not occur have their defaults. -/
structure Modifiers where
  wait : Wait := .zero
  maxWait : Option Nat := none
  echo : Bool := false
  unsafeAction : Bool := false
  hq : Bool := false
  condition : Option Condition := none
  index : Option Nat := none
  deriving DecidableEq, Repr

namespace Modifiers

/-- How long a command polls, in milliseconds, unless the line says otherwise. -/
def defaultMaxWait : Nat := 5000

/-- How long the command polls, in milliseconds. -/
def maxWaitOrDefault (modifiers : Modifiers) : Nat :=
  modifiers.maxWait.getD defaultMaxWait

/-- What a text starts with. -/
inductive Lead where
  /-- A modifier with its body, and what follows it. -/
  | token (body after : List Char)
  /-- A modifier that is not closed, so that no later one is closed either. -/
  | unclosed
  | ordinary
  deriving DecidableEq, Repr

/-- Looks for the modifier `<name.body>` at the start of a text. The body goes up to the next
closing bracket. -/
def valued (name s : List Char) : Lead :=
  match Text.dropHeadBy Text.sameFolded ('<' :: name ++ ['.']) s with
  | none => .ordinary
  | some rest =>
    match Text.splitOnce '>' rest with
    | some (body, after) => .token body after
    | none => .unclosed

/-- Looks for the modifier `<name>` at the start of a text. Its body is empty. -/
def flag (name s : List Char) : Lead :=
  match Text.dropHeadBy Text.sameFolded ('<' :: name ++ ['>']) s with
  | none => .ordinary
  | some rest => .token [] rest

/-- Takes out every token, from left to right. Gives the body of the last one and the text that is
left. A token that would not shorten the text is none. -/
def takeOut (lead : List Char → Lead) : List Char → Option (List Char) × List Char
  | [] => (none, [])
  | c :: rest =>
    match lead (c :: rest) with
    | .token body after =>
      if _h : after.length ≤ rest.length then
        let (later, kept) := takeOut lead after
        (some (later.getD body), kept)
      else (none, c :: rest)
    | .unclosed => (none, c :: rest)
    | .ordinary =>
      let (last, kept) := takeOut lead rest
      (last, c :: kept)
termination_by s => s.length

/-- Takes out a modifier with a value and reads the value. -/
def takeValue {α : Type} (modifier : ValuedModifier) (read? : List Char → Option α)
    (line s : List Char) : Except LineError (Option α × List Char) :=
  match takeOut (valued modifier.name.toList) s with
  | (none, rest) => .ok (none, rest)
  | (some body, rest) =>
    match read? body with
    | some value => .ok (some value, rest)
    | none => .error (.malformedModifier modifier (String.ofList line))

/-- Takes out a modifier without a value and says whether it was there. -/
def takeFlag (name : String) (s : List Char) : Bool × List Char :=
  let (body, rest) := takeOut (flag name.toList) s
  (body.isSome, rest)

/-- Reads an index: a number of 32 bits, with or without a plus sign and blanks around it. -/
def readIndex? (body : List Char) : Option Nat :=
  (Numeral.unsigned Numeral.max32 (Text.trim body)).toOption

/-- Takes all modifiers out of a line. Gives them and the rest of the line, trimmed. -/
def extract (line : List Char) : Except LineError (Modifiers × List Char) := do
  let (wait, rest) ← takeValue .wait Wait.ofSeconds? line line
  let (maxWait, rest) ← takeValue .maxWait Wait.milliseconds? line rest
  let (condition, rest) ← takeValue .condition Condition.ofText? line rest
  let (index, rest) ← takeValue .index readIndex? line rest
  let (echo, rest) := takeFlag "echo" rest
  let (unsafeAction, rest) := takeFlag "unsafe" rest
  let (hq, rest) := takeFlag "hq" rest
  return ({ wait := wait.getD .zero, maxWait, echo, unsafeAction, hq, condition, index },
    Text.trim rest)

end Modifiers

end GameMacros
