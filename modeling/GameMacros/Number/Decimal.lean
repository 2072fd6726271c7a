import GameMacros.Number.Numeral
import GameMacros.Text.Pieces

/-!
# Decimal fractions

A decimal numeral is a run of digits, or two runs with a point between. It denotes the quotient of
a whole number and a power of ten, and is kept as that.
-/

namespace GameMacros

/-- The number `digits / 10 ^ places`. -/
structure Decimal where
  digits : Nat
  places : Nat
  deriving DecidableEq, Repr

namespace Decimal

/-- Reads a run of ASCII digits, or two of them with a point between. -/
def ofText? (s : List Char) : Option Decimal :=
  match Text.splitOnce '.' s with
  | none => if Numeral.isDigits s then some ⟨Numeral.value s, 0⟩ else none
  | some (whole, fraction) =>
    if Numeral.isDigits whole && Numeral.isDigits fraction then
      some ⟨Numeral.value (whole ++ fraction), fraction.length⟩
    else none

/-- The power of ten below the line. -/
def divisor (d : Decimal) : Nat :=
  Nat.pow 10 d.places

end Decimal

end GameMacros
