import GameMacros.Script.Key

/-!
# Key combinations

Keys joined by plus signs are used together: the last one is struck while the others are held.
-/

namespace GameMacros

/-- A key struck while others are held. -/
structure KeyCombo where
  held : List Key
  primary : Key
  deriving DecidableEq, Repr

/-- How a command uses a combination. -/
inductive KeyMotion where
  | press
  | hold
  | release
  deriving DecidableEq, Repr

namespace KeyCombo

/-- All keys of the combination in the order in which they are written. -/
def keys (combo : KeyCombo) : List Key :=
  combo.held ++ [combo.primary]

/-- Reads each piece as a key; the error is the first piece that is none, trimmed. -/
def readKeys : List (List Char) → Except String (List Key)
  | [] => .ok []
  | piece :: others =>
    match Key.ofName? piece with
    | none => .error (String.ofList (Text.trim piece))
    | some key => (readKeys others).map (key :: ·)

/-- Reads a combination; the error is the first piece that is no key, trimmed. -/
def ofText (s : List Char) : Except String KeyCombo :=
  match readKeys (Text.pieces '+' s) with
  | .error piece => .error piece
  | .ok keys =>
    match keys.getLast? with
    | some primary => .ok ⟨keys.dropLast, primary⟩
    | none => .error ""

/-- The names of the keys joined by plus signs. -/
def text (combo : KeyCombo) : String :=
  "+".intercalate (combo.keys.map Key.name)

end KeyCombo

end GameMacros
