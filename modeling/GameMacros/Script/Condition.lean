import GameMacros.Text.Blank
import GameMacros.Text.Lowercase
import GameMacros.Text.Names
import GameMacros.Text.Pieces

/-!
# Crafting conditions

An action may be tied to the crafting condition: it is used only under one of the conditions named,
or, when negated, only under none of them. Names are compared in lower case and trimmed.
-/

namespace GameMacros

/-- The conditions under which an action is used, or under which it is not. -/
structure Condition where
  names : List String
  negated : Bool
  deriving DecidableEq, Repr

namespace Condition

/-- The form in which names are compared. -/
def normalize (name : List Char) : String :=
  String.ofList (Text.lower (Text.trim name))

/-- The list after a leading `not.` or `!`, and whether there was one. -/
def splitNegation (body : List Char) : Bool × List Char :=
  match Text.dropHeadBy Text.sameLetter "not.".toList body with
  | some rest => (true, rest)
  | none =>
    match body with
    | '!' :: rest => (true, rest)
    | _ => (false, body)

/-- The distinct names of a list with commas; blank entries do not count. -/
def namesOf (list : List Char) : List String :=
  Text.sortedSet (((Text.pieces ',' list).map normalize).filter (· ≠ ""))

/-- Reads a list of names with an optional negation. There has to be at least one name. -/
def ofText? (s : List Char) : Option Condition :=
  let (negated, list) := splitNegation (Text.trim s)
  match namesOf list with
  | [] => none
  | names => some ⟨names, negated⟩

/-- An action with this condition is used while the crafting condition is `current`. -/
def holds (condition : Condition) (current : String) : Bool :=
  condition.names.contains (normalize current.toList) != condition.negated

end Condition

end GameMacros
