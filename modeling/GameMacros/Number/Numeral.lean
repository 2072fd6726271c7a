/-!
# Whole numbers in decimal

Reading a whole number written with ASCII digits into a range. The digits are read from the left,
and the first thing that goes wrong is the one reported: a character that is no digit, or a digit
that takes the number out of its range.
-/

namespace GameMacros

/-- Why a text is no number of the wanted range. -/
inductive NumeralFault where
  | empty
  | badDigit
  | tooLarge
  | tooSmall
  deriving DecidableEq, Repr

/-- The wording of the fault. -/
def NumeralFault.message : NumeralFault → String
  | .empty => "cannot parse integer from empty string"
  | .badDigit => "invalid digit found in string"
  | .tooLarge => "number too large to fit in target type"
  | .tooSmall => "number too small to fit in target type"

namespace Numeral

/-- The value of an ASCII digit. -/
def digit? (c : Char) : Option Nat :=
  if '0' ≤ c ∧ c ≤ '9' then some (c.toNat - '0'.toNat) else none

/-- The text is a non-empty run of ASCII digits. -/
def isDigits (s : List Char) : Bool :=
  !s.isEmpty && s.all fun c => (digit? c).isSome

/-- The value of a run of digits, going on from `value`. Other characters count as zero. -/
def valueAfter (value : Nat) : List Char → Nat
  | [] => value
  | c :: rest => valueAfter (value * 10 + (digit? c).getD 0) rest

/-- The value of a run of digits. -/
def value (s : List Char) : Nat :=
  valueAfter 0 s

/-- Reads digits that go on from `value`, up to `limit`, and reports `beyond` past it. -/
def readAfter (limit : Nat) (beyond : NumeralFault) (value : Nat) :
    List Char → Except NumeralFault Nat
  | [] => .ok value
  | c :: rest =>
    match digit? c with
    | none => .error .badDigit
    | some d =>
      let next := value * 10 + d
      if next ≤ limit then readAfter limit beyond next rest else .error beyond

/-- Reads a number from zero to `limit`, with or without a plus sign. -/
def unsigned (limit : Nat) : List Char → Except NumeralFault Nat
  | [] => .error .empty
  | ['+'] => .error .badDigit
  | '+' :: rest => readAfter limit .tooLarge 0 rest
  | s => readAfter limit .tooLarge 0 s

/-- Reads a number from `-(limit + 1)` to `limit`, with or without a sign. -/
def signed (limit : Nat) : List Char → Except NumeralFault Int
  | [] => .error .empty
  | ['+'] | ['-'] => .error .badDigit
  | '+' :: rest => (readAfter limit .tooLarge 0 rest).map Int.ofNat
  | '-' :: rest => (readAfter (limit + 1) .tooSmall 0 rest).map fun n => -(Int.ofNat n)
  | s => (readAfter limit .tooLarge 0 s).map Int.ofNat

/-- The greatest number of 32 bits. -/
def max32 : Nat := 0xFFFFFFFF

/-- The greatest number of 64 bits. -/
def max64 : Nat := 0xFFFFFFFFFFFFFFFF

/-- A count: a run of digits, without a sign, whose value fits in 32 bits. -/
def count? (s : List Char) : Option Nat :=
  if isDigits s && value s ≤ max32 then some (value s) else none

end Numeral

end GameMacros
