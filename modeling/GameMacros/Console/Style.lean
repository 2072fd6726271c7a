import GameMacros.Text.Pieces

/-!
# Styles

How the console sets off what it prints. A style is written as a terminal control sequence around
the text, and only where the terminal is asked for colors.
-/

namespace GameMacros

/-- A color of the terminal. -/
inductive TextColor where
  | rgb (red green blue : Nat)
  | brightYellow
  deriving DecidableEq, Repr

/-- The control code that selects the color. -/
def TextColor.code : TextColor → String
  | .rgb red green blue => s!"38;2;{red};{green};{blue}"
  | .brightYellow => "93"

/-- A way of setting off text. -/
structure Style where
  bold : Bool := false
  dimmed : Bool := false
  italic : Bool := false
  underlined : Bool := false
  color : Option TextColor := none
  deriving DecidableEq, Repr

namespace Style

/-- What a macro prints. -/
def chat : Style where
  color := some (.rgb 220 220 220)

/-- What a macro does to the game. -/
def effect : Style where
  italic := true
  color := some (.rgb 102 208 250)

/-- What went wrong. -/
def error : Style where
  color := some (.rgb 230 30 30)

/-- The state of the engine. -/
def state : Style where
  bold := true
  color := some (.rgb 220 180 40)

/-- The name of a macro. -/
def macroName : Style where
  underlined := true
  color := some (.rgb 13 160 60)

/-- The prompt. -/
def prompt : Style where
  color := some (.rgb 75 180 255)

/-- The heading of a section. -/
def heading : Style where
  color := some (.rgb 75 80 75)

/-- The title of the program. -/
def title : Style where
  underlined := true
  color := some .brightYellow

/-- Words that stand out. -/
def strong : Style where
  bold := true

/-- Words that stand back. -/
def faint : Style where
  dimmed := true

/-- Hints. -/
def hint : Style where
  italic := true

/-- The control codes of a style, in their fixed order. -/
def codes (style : Style) : List String :=
  (if style.bold then ["1"] else []) ++ (if style.dimmed then ["2"] else []) ++
    (if style.italic then ["3"] else []) ++ (if style.underlined then ["4"] else []) ++
    (style.color.map TextColor.code).toList

/-- Whether styles are shown, given the variables `CLICOLOR_FORCE`, `NO_COLOR` and `CLICOLOR` of the
environment and whether a terminal shows the output. A value of `0` says no. -/
def areShown (force never usual : Option String) (terminal : Bool) : Bool :=
  if force.any (· ≠ "0") then true
  else if never.isSome then false
  else terminal && usual.all (· ≠ "0")

/-- Ends every style. -/
def reset : List Char := "\x1b[0m".toList

/-- Starts a style. -/
def start (style : Style) : List Char :=
  ("\x1b[" ++ ";".intercalate style.codes ++ "m").toList

/-- The text set off by the style, if the terminal shows colors. Where the text itself ends every
style, the style starts again. -/
def paint (style : Style) (colored : Bool) (text : String) : String :=
  if colored then
    String.ofList
      (style.start ++ Text.replaceAll reset (reset ++ style.start) text.toList ++ reset)
  else text

end Style

end GameMacros
