import GameMacros.Number.Numeral
import GameMacros.Text.Blank
import GameMacros.Text.Lowercase
import GameMacros.Text.Pieces

/-!
# Keys

A key is a virtual key code of one byte. Letters, digits, the digits of the number pad and the
function keys have derived names; the other known keys are listed. Names are read in either case.
-/

namespace GameMacros

/-- A virtual key code. -/
structure Key where
  code : UInt8
  deriving DecidableEq, Repr

namespace Key

/-- The keys whose names follow no rule. -/
def listed : List (String × UInt8) := [
  ("LBUTTON", 0x01), ("RBUTTON", 0x02), ("CANCEL", 0x03), ("MBUTTON", 0x04), ("XBUTTON1", 0x05),
  ("XBUTTON2", 0x06), ("BACK", 0x08), ("TAB", 0x09), ("CLEAR", 0x0C), ("RETURN", 0x0D),
  ("SHIFT", 0x10), ("CONTROL", 0x11), ("MENU", 0x12), ("PAUSE", 0x13), ("CAPITAL", 0x14),
  ("ESCAPE", 0x1B), ("SPACE", 0x20), ("PRIOR", 0x21), ("NEXT", 0x22), ("END", 0x23),
  ("HOME", 0x24), ("LEFT", 0x25), ("UP", 0x26), ("RIGHT", 0x27), ("DOWN", 0x28),
  ("SELECT", 0x29), ("PRINT", 0x2A), ("EXECUTE", 0x2B), ("SNAPSHOT", 0x2C), ("INSERT", 0x2D),
  ("DELETE", 0x2E), ("HELP", 0x2F), ("LWIN", 0x5B), ("RWIN", 0x5C), ("APPS", 0x5D),
  ("SLEEP", 0x5F), ("MULTIPLY", 0x6A), ("ADD", 0x6B), ("SEPARATOR", 0x6C), ("SUBTRACT", 0x6D),
  ("DECIMAL", 0x6E), ("DIVIDE", 0x6F), ("NUMLOCK", 0x90), ("SCROLL", 0x91), ("LSHIFT", 0xA0),
  ("RSHIFT", 0xA1), ("LCONTROL", 0xA2), ("RCONTROL", 0xA3), ("LMENU", 0xA4), ("RMENU", 0xA5),
  ("OEM_1", 0xBA), ("OEM_PLUS", 0xBB), ("OEM_COMMA", 0xBC), ("OEM_MINUS", 0xBD),
  ("OEM_PERIOD", 0xBE), ("OEM_2", 0xBF), ("OEM_3", 0xC0), ("OEM_4", 0xDB), ("OEM_5", 0xDC),
  ("OEM_6", 0xDD), ("OEM_7", 0xDE), ("OEM_8", 0xDF), ("OEM_102", 0xE2)]

/-- The code of a listed name. -/
def listedCode? (name : List Char) : Option UInt8 :=
  (listed.find? fun entry => entry.1.toList == name).map (·.2)

/-- The digit after `head` in a text that holds nothing else. -/
def digitAfter? (head name : List Char) : Option UInt8 :=
  match Text.dropHead? head name with
  | some [c] => (Numeral.digit? c).map UInt8.ofNat
  | _ => none

/-- The number of a function key, `1` to `24`. Leading zeros and a plus sign are allowed. -/
def functionNumber? (name : List Char) : Option UInt8 := do
  let number ← Text.dropHead? ['F'] name
  match Numeral.unsigned 255 number with
  | .ok n => if 1 ≤ n ∧ n ≤ 24 then some (UInt8.ofNat n) else none
  | .error _ => none

/-- The code of a name in capitals. -/
def codeOfCapitals? (name : List Char) : Option UInt8 :=
  match listedCode? name with
  | some code => some code
  | none =>
    match name with
    | [c] => if 'A' ≤ c ∧ c ≤ 'Z' then some (UInt8.ofNat c.toNat) else none
    | _ =>
      match digitAfter? "KEY_".toList name with
      | some d => some (0x30 + d)
      | none =>
        match digitAfter? "NUMPAD".toList name with
        | some d => some (0x60 + d)
        | none => (functionNumber? name).map (0x6F + ·)

/-- The key of a name in either case, with or without blanks around it. -/
def ofName? (name : List Char) : Option Key :=
  (codeOfCapitals? ((Text.trim name).map Text.asciiUpper)).map Key.mk

/-- A digit of a number in base sixteen. -/
def hexDigit (n : Nat) : Char :=
  (Nat.digitChar n).toUpper

/-- The canonical name of a key. A code without a name is shown in base sixteen. -/
def name (key : Key) : String :=
  match listed.find? fun entry => entry.2 == key.code with
  | some entry => entry.1
  | none =>
    let n := key.code.toNat
    if 0x30 ≤ n ∧ n ≤ 0x39 then s!"KEY_{n - 0x30}"
    else if 0x41 ≤ n ∧ n ≤ 0x5A then String.singleton (Char.ofNat n)
    else if 0x60 ≤ n ∧ n ≤ 0x69 then s!"NUMPAD{n - 0x60}"
    else if 0x70 ≤ n ∧ n ≤ 0x87 then s!"F{n - 0x6F}"
    else String.ofList ['0', 'x', hexDigit (n / 16), hexDigit (n % 16)]

end Key

end GameMacros
