import GameMacros.Number.Decimal

/-!
# Binary fractions of fixed precision

The numbers that binary64 and binary32 can hold are multiples of one least unit, and a nonnegative
one is kept as that multiple: a natural number. Rounding a quotient to a given count of significant
bits takes the nearest such number, and the even one of two that are equally near. All of it is
exact arithmetic of natural numbers.
-/

namespace GameMacros.Binary

/-- The whole number nearest to `num / den`, the even one of two that are equally near. -/
def nearest (num den : Nat) : Nat :=
  let quotient := num / den
  let twice := 2 * (num % den)
  if twice < den then quotient
  else if den < twice then quotient + 1
  else if quotient % 2 = 0 then quotient else quotient + 1

/-- How many low bits a number of this size gives up so that `precision` bits remain. -/
def spareBits (precision size : Nat) : Nat :=
  size.log2 + 1 - precision

/-- The whole number nearest to `num / den` among those with `precision` significant bits. -/
def roundTo (precision num den : Nat) : Nat :=
  let spare := spareBits precision (num / den)
  nearest num (den * Nat.pow 2 spare) * Nat.pow 2 spare

/-- The least unit of binary64 is `2 ^ -1074`. -/
def unit64 : Nat := Nat.pow 2 1074

/-- From this many units on a binary64 number is infinite. -/
def infinite64 : Nat := Nat.pow 2 1024 * unit64

/-- The least unit of binary32 is `2 ^ -149`. -/
def unit32 : Nat := Nat.pow 2 149

/-- From this many units on a binary32 number is infinite. -/
def infinite32 : Nat := Nat.pow 2 128 * unit32

/-- The bit pattern of a nonnegative binary32 number, given in its least units. -/
def encode32 (units : Nat) : Nat :=
  if infinite32 ≤ units then 0x7F800000
  else
    let spare := spareBits 24 units
    spare * Nat.pow 2 23 + units / Nat.pow 2 spare

end GameMacros.Binary

namespace GameMacros

/-- A nonnegative binary32 number or infinity, as its bit pattern. Patterns are ordered as the
numbers are. -/
structure Binary32 where
  bits : Nat
  deriving DecidableEq, Repr

/-- The binary32 number nearest to a decimal. -/
def Binary32.ofDecimal (d : Decimal) : Binary32 :=
  ⟨Binary.encode32 (Binary.roundTo 24 (d.digits * Binary.unit32) d.divisor)⟩

/-- Whole milliseconds in a decimal number of seconds. The number is first taken as the nearest
binary64, multiplied by a thousand in binary64, and then rounded to a whole number, a half upwards;
what does not fit in 64 bits becomes the greatest number that does. -/
def Decimal.milliseconds (d : Decimal) : Nat :=
  let seconds := Binary.roundTo 53 (d.digits * Binary.unit64) d.divisor
  let scaled := Binary.roundTo 53 (seconds * 1000) 1
  if Binary.infinite64 ≤ seconds || Binary.infinite64 ≤ scaled then Numeral.max64
  else min Numeral.max64 ((2 * scaled + Binary.unit64) / (2 * Binary.unit64))

end GameMacros
