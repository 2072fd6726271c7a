import GameMacros.Number.Binary
import GameMacros.Toml.Quoted

/-!
# Numbers, dates and times in TOML

Whole numbers have 64 bits with a sign, and may be written in base ten, sixteen, eight or two. In
every number an underscore may stand between two digits. Numbers with a fraction, dates and times
are recognized without being kept.
-/

namespace GameMacros.Toml

/-- The digits that a text starts with, with underscores between them left out. -/
def digitRun (isDigit : Char → Bool) : List Char → List Char × List Char
  | '_' :: rest => ([], '_' :: rest)
  | c :: '_' :: d :: rest =>
    if isDigit c then
      if isDigit d then
        let (digits, left) := digitRun isDigit (d :: rest)
        (c :: digits, left)
      else ([c], '_' :: d :: rest)
    else ([], c :: '_' :: d :: rest)
  | c :: rest =>
    if isDigit c then
      let (digits, left) := digitRun isDigit rest
      (c :: digits, left)
    else ([], c :: rest)
  | [] => ([], [])

/-- A text that starts with at least one digit. -/
def digits? (isDigit : Char → Bool) : Reader (List Char) := fun s =>
  match digitRun isDigit s with
  | ([], _) => none
  | result => some result

/-- A digit in base ten. -/
def isDecimal (c : Char) : Bool :=
  '0' ≤ c && c ≤ '9'

/-- A sign, if there is one: whether it is a minus sign, and the rest. -/
def sign : List Char → Bool × List Char
  | '+' :: rest => (false, rest)
  | '-' :: rest => (true, rest)
  | s => (false, s)

/-- The digits of a whole number in base ten. It starts with a zero only if it is zero. -/
def wholeDigits? : Reader (List Char)
  | '0' :: rest => some (['0'], rest)
  | s => digits? isDecimal s

/-- A number in another base, given its digits. -/
def inBase (base : Nat) (digits : List Char) : Nat :=
  digits.foldl (fun number c => number * base + (Quoted.hexValue? c).getD 0) 0

/-- The digits of a base. -/
def isDigitOf (base : Nat) (c : Char) : Bool :=
  (Quoted.hexValue? c).any (· < base)

/-- A whole number of 64 bits with a sign. -/
def inRange? (number : Int) : Option Int :=
  if -0x8000000000000000 ≤ number ∧ number ≤ 0x7FFFFFFFFFFFFFFF then some number else none

/-- A number in a base that a letter announces. -/
def based? (base : Nat) : Reader Int := fun s => do
  let (digits, rest) ← digits? (isDigitOf base) s
  return (← inRange? (inBase base digits), rest)

/-- A whole number. -/
def integer? : Reader Int
  | '0' :: 'x' :: rest => based? 16 rest
  | '0' :: 'o' :: rest => based? 8 rest
  | '0' :: 'b' :: rest => based? 2 rest
  | s => do
    let (negative, unsigned) := sign s
    let (digits, rest) ← wholeDigits? unsigned
    let size := Int.ofNat (Numeral.value digits)
    return (← inRange? (if negative then -size else size), rest)

/-- The exponent of a number: an `e` in either case, a sign and digits. -/
def exponent? : Reader Int
  | c :: rest =>
    if c = 'e' || c = 'E' then do
      let (negative, unsigned) := sign rest
      let (digits, left) ← digits? isDecimal unsigned
      let size := Int.ofNat (Numeral.value digits)
      return (if negative then -size else size, left)
    else none
  | [] => none

/-- A number given by its digits and a power of ten is too large for a binary64 number. -/
def isInfinite (digits : List Char) (power : Int) : Bool :=
  let significant := digits.dropWhile (· == '0')
  let size := Int.ofNat significant.length + power
  if significant.isEmpty || size < 300 then false
  else if 400 < size then true
  else
    let value := Numeral.value significant
    let units := value * Nat.pow 10 power.toNat * Binary.unit64
    Binary.infinite64 ≤ Binary.roundTo 53 units (Nat.pow 10 (-power).toNat)

/-- What follows a number with a fraction, an exponent or both. -/
def afterFraction? (s : List Char) : Option (List Char) := do
  let (negative, unsigned) := sign s
  let (whole, rest) ← wholeDigits? unsigned
  let (places, rest) ←
    match rest with
    | '.' :: rest => digits? isDecimal rest
    | _ => some ([], rest)
  let (power, left) := (exponent? rest).getD (0, rest)
  let changed := !places.isEmpty || left.length < rest.length
  if changed && (negative || !isInfinite (whole ++ places) (power - places.length)) then some left
  else none

/-- What follows the name of infinity or of what is no number, with or without a sign. -/
def afterSpecial? (s : List Char) : Option (List Char) :=
  match (sign s).2 with
  | 'i' :: 'n' :: 'f' :: rest => some rest
  | 'n' :: 'a' :: 'n' :: rest => some rest
  | _ => none

/-- A number of two digits between bounds. -/
def pair? (least greatest : Nat) : Reader Nat
  | a :: b :: rest => do
    let tens ← Numeral.digit? a
    let ones ← Numeral.digit? b
    let number := 10 * tens + ones
    if least ≤ number ∧ number ≤ greatest then some (number, rest) else none
  | _ => none

/-- What follows a character that has to come first. -/
def after? (c : Char) : List Char → Option (List Char)
  | [] => none
  | first :: rest => if first = c then some rest else none

/-- How many days a month has. -/
def daysIn (year month : Nat) : Nat :=
  if month = 2 then
    if year % 4 = 0 ∧ (year % 100 ≠ 0 ∨ year % 400 = 0) then 29 else 28
  else if month = 4 ∨ month = 6 ∨ month = 9 ∨ month = 11 then 30
  else 31

/-- What follows a date. -/
def afterDate? (s : List Char) : Option (List Char) := do
  let (century, rest) ← pair? 0 99 s
  let (year, rest) ← pair? 0 99 rest
  let (month, rest) ← pair? 1 12 (← after? '-' rest)
  let (_, rest) ← pair? 1 (daysIn (100 * century + year) month) (← after? '-' rest)
  return rest

/-- What follows a time of the day. -/
def afterTime? (s : List Char) : Option (List Char) := do
  let (_, rest) ← pair? 0 23 s
  let (_, rest) ← pair? 0 59 (← after? ':' rest)
  let (_, rest) ← pair? 0 60 (← after? ':' rest)
  match rest with
  | '.' :: c :: left => if isDecimal c then some (left.dropWhile isDecimal) else some rest
  | _ => some rest

/-- What follows a distance from universal time. -/
def afterOffset? : List Char → Option (List Char)
  | 'Z' :: rest => some rest
  | 'z' :: rest => some rest
  | c :: rest =>
    if c = '+' || c = '-' then do
      let (_, rest) ← pair? 0 23 rest
      let (_, rest) ← pair? 0 59 (← after? ':' rest)
      return rest
    else none
  | [] => none

/-- What follows the time of the day that a date goes on with, if it does. -/
def afterTimeOfDate (s : List Char) : List Char :=
  match s with
  | c :: rest =>
    if c = 'T' || c = 't' || c = ' ' then
      match afterTime? rest with
      | some rest => (afterOffset? rest).getD rest
      | none => s
    else s
  | [] => s

/-- What follows a date, a time or both. -/
def afterMoment? (s : List Char) : Option (List Char) :=
  match afterDate? s with
  | some rest => some (afterTimeOfDate rest)
  | none => afterTime? s

end GameMacros.Toml
