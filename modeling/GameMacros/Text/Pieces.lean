/-!
# Cutting and replacing

Cutting a text at a separator, and replacing each occurrence of a pattern from left to right.
-/

namespace GameMacros.Text

/-- The text before and after the first `separator`, if there is one. -/
def splitOnce (separator : Char) : List Char → Option (List Char × List Char)
  | [] => none
  | c :: rest =>
    if c = separator then some ([], rest)
    else (splitOnce separator rest).map fun parts => (c :: parts.1, parts.2)

/-- The pieces between the separators. There is always one piece more than there are separators. -/
def pieces (separator : Char) : List Char → List (List Char)
  | [] => [[]]
  | c :: rest =>
    if c = separator then [] :: pieces separator rest
    else
      match pieces separator rest with
      | first :: others => (c :: first) :: others
      | [] => [[c]]

/-- The pieces are the parts of the text that the separators stand between. -/
theorem pieces_eq_splitOn (separator : Char) (s : List Char) :
    pieces separator s = s.splitOn separator := by
  induction s with
  | nil => rfl
  | cons c s ih =>
    rw [pieces, ih, List.splitOn, List.splitOn, List.splitOnP_cons_eq_if_modifyHead]
    cases hparts : List.splitOnP (· == separator) s with
    | nil => exact absurd hparts (List.splitOnP_ne_nil _ _)
    | cons first others => simp only [beq_iff_eq, List.modifyHead_cons]

/-- What follows `head` in a text that starts with it, up to what `same` takes as the same letter. -/
def dropHeadBy (same : Char → Char → Bool) : (head : List Char) → List Char → Option (List Char)
  | [], s => some s
  | _ :: _, [] => none
  | h :: head, c :: s => if same h c then dropHeadBy same head s else none

/-- What follows `head` in a text that starts with it. -/
def dropHead? (head s : List Char) : Option (List Char) :=
  dropHeadBy (· == ·) head s

/-- The pattern stands somewhere in the text. -/
def occurs (pattern : List Char) : List Char → Bool
  | [] => pattern.isEmpty
  | c :: rest => pattern.isPrefixOf (c :: rest) || occurs pattern rest

/-- Replacement in a text whose first `skip` characters belong to an occurrence already replaced. -/
def replaceFrom (pattern replacement : List Char) : (skip : Nat) → List Char → List Char
  | _, [] => []
  | skip + 1, _ :: rest => replaceFrom pattern replacement skip rest
  | 0, c :: rest =>
    if pattern.isPrefixOf (c :: rest) then
      replacement ++ replaceFrom pattern replacement (pattern.length - 1) rest
    else c :: replaceFrom pattern replacement 0 rest

/-- Each occurrence of a non-empty pattern replaced, from left to right and without overlap. -/
def replaceAll (pattern replacement s : List Char) : List Char :=
  replaceFrom pattern replacement 0 s

end GameMacros.Text
