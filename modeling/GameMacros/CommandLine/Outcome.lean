/-!
# Outcomes

What a run of a program leaves behind: an exit code and two streams of text.
-/

namespace GameMacros

/-- What a run leaves: its exit code and what it wrote. -/
structure Outcome where
  code : Nat := 0
  output : String := ""
  errors : String := ""
  deriving DecidableEq, Repr

namespace Outcome

/-- Lines, each with its end. -/
def unlines (lines : List String) : String :=
  String.join (lines.map (· ++ "\n"))

/-- Lines on the error stream and an exit code. -/
def failure (code : Nat) (lines : List String) : Outcome where
  code
  errors := unlines lines

/-- The outcome with lines in front of what was written to the error stream. -/
def after (lines : List String) (outcome : Outcome) : Outcome :=
  { outcome with errors := unlines lines ++ outcome.errors }

end Outcome

end GameMacros
