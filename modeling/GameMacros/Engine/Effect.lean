import GameMacros.Script.KeyCombo

/-!
# Effects

What a macro does to the world outside the engine.
-/

namespace GameMacros

/-- One thing done by the engine. -/
inductive Effect where
  | print (message : String)
  | reportError (message : String)
  | chat (line : String)
  | beep (frequency duration : Nat)
  | keys (motion : KeyMotion) (combo : KeyCombo)
  | click (name : String)
  | target (id : Nat)
  | openRecipe (id : Nat)
  | useItem (name : String) (hq : Bool)
  | useAction (name : String)
  deriving DecidableEq, Repr

end GameMacros
