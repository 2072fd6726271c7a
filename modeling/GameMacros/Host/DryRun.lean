import GameMacros.Console.Style
import GameMacros.Engine.Schedule

/-!
# The dry run

A host that stands in for the game and prints what would be done. It answers every question in the
most permissive way, so that a macro runs to its end without waiting for anything.
-/

namespace GameMacros

/-- The state of a dry run. Each target that is selected has the next number. -/
structure DryRun where
  library : Library := {}
  nextTarget : Nat := 1
  /-- What random numbers are made from. -/
  seed : Nat := 0

namespace DryRun

/-- A number for the recipe of an item that is the same in every run. -/
def recipeNumber (name : String) : UInt32 :=
  name.toUTF8.toList.foldl (fun number byte => number * 31 + byte.toUInt32) 17

/-- Attributes that meet every requirement. -/
def greatest : CraftStats where
  craftsmanship := Numeral.max32
  control := Numeral.max32
  cp := Numeral.max32

/-- The state after an effect. -/
def perform (run : DryRun) (_now : Nat) : Effect → DryRun
  | .target _ => { run with nextTarget := run.nextTarget + 1 }
  | _ => run

/-- A number that is scattered over its range as the time goes on and from one draw to the next. -/
def roll (run : DryRun) (now draw : Nat) : Nat :=
  (run.seed + now + draw) * 6364136223846793005 / 0x200000000

/-- The host of dry runs. -/
def host : Host DryRun where
  perform := perform
  clickRefusal _ _ _ := none
  itemRefusal _ _ _ _ := none
  isAddonVisible _ _ _ := false
  isAddonReady _ _ _ := true
  findTarget run _ _ _ := some run.nextTarget
  recipesNamed _ _ name := [⟨(recipeNumber name).toNat, 0⟩]
  classJob _ _ := some 8
  isAcknowledged _ _ := true
  isCraftComplete _ _ := true
  isCraftAction _ _ _ := false
  isQualityAction _ _ _ := false
  isCrafting _ _ := true
  condition _ _ := some "normal"
  hqChance _ _ := 0
  quality _ _ := Numeral.max32
  stats _ _ := greatest
  hasStatus _ _ _ := true
  needsRepair _ _ := false
  needsExtraction _ _ _ := false
  findMacro run _ name := run.library.find name
  roll := roll

/-! ## Printing -/

/-- What is said about an effect on the game. -/
def describe : Effect → String
  | .print message | .reportError message => message
  | .chat line => s!"chat: {line}"
  | .beep frequency duration => s!"beep ({frequency} Hz, {duration} ms)"
  | .keys .press combo => s!"press {combo.text}"
  | .keys .hold combo => s!"hold {combo.text}"
  | .keys .release combo => s!"release {combo.text}"
  | .click name => s!"click {name}"
  | .target id => s!"target #{id}"
  | .openRecipe id => s!"open recipe {id}"
  | .useItem name hq => if hq then s!"use item {name} (HQ)" else s!"use item {name}"
  | .useAction name => s!"action {name}"

/-- Where a line is printed. -/
inductive Stream where
  | output
  | errors
  deriving DecidableEq, Repr

/-- The line that is printed for an effect, without its end. -/
def line (colored : Bool) (effect : Effect) : Stream × String :=
  match effect with
  | .print message => (.output, Style.chat.paint colored message)
  | .reportError message => (.errors, Style.error.paint colored message)
  | other =>
    (.output, Style.faint.paint colored "~" ++ " " ++ Style.effect.paint colored (describe other))

end DryRun

end GameMacros
