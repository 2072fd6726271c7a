/-!
# Sleeps

Work sleeps for a whole number of milliseconds. The clock grants at most thirty years at a time: a
longer sleep ends when these are over. What is granted is never more than what was asked for, and
exactly that for all shorter sleeps.
-/

namespace GameMacros.Sleep

/-- Thirty years of 365 days, in milliseconds. -/
def longest : Nat := 30 * 365 * 24 * 60 * 60 * 1000

/-- For how long work sleeps that asks for a sleep. -/
def granted (asked : Nat) : Nat :=
  min asked longest

/-- Nothing sleeps longer than it asked for. -/
theorem granted_le (asked : Nat) : granted asked ≤ asked :=
  Nat.min_le_left asked longest

/-- A sleep that is not too long is granted in full. -/
theorem granted_of_le {asked : Nat} (h : asked ≤ longest) : granted asked = asked :=
  Nat.min_eq_left h

end GameMacros.Sleep
