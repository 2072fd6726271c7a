import GameMacros.Text.CaseTables

/-!
# Lower case

Names are compared in lower case. Two mappings are in use: the ASCII one, which touches the letters
`A` to `Z` only, and the full Unicode one, which also has the single rule that looks around itself:
a capital sigma at the end of a word becomes `ς`.
-/

namespace GameMacros.Text

/-- The lowercase form of an ASCII letter; any other character is its own. -/
def asciiLower (c : Char) : Char :=
  if 'A' ≤ c ∧ c ≤ 'Z' then Char.ofNat (c.toNat + 32) else c

/-- The uppercase form of an ASCII letter; any other character is its own. -/
def asciiUpper (c : Char) : Char :=
  if 'a' ≤ c ∧ c ≤ 'z' then Char.ofNat (c.toNat - 32) else c

/-- Two characters are one ASCII letter in either case, or the same character. -/
def sameLetter (a b : Char) : Bool :=
  asciiLower a == asciiLower b

/-- The ASCII letter that a character folds to when case is ignored, if there is one. Beyond the
letters themselves, the long s folds to `s` and the Kelvin sign to `k`. -/
def foldLetter (c : Char) : Char :=
  if c = '\u017F' then 's' else if c = '\u212A' then 'k' else asciiLower c

/-- Two characters fold to the same letter. -/
def sameFolded (a b : Char) : Bool :=
  foldLetter a == foldLetter b

/-- The lowercase form of a character that stands alone. `İ` becomes `i` and a dot above. -/
def lowerChar (c : Char) : List Char :=
  if c.toNat < 128 then [asciiLower c]
  else if c = 'İ' then ['i', '\u0307']
  else
    match lowercaseRuns.find? (·.covers c.toNat) with
    | some run => [Char.ofNat (c.toNat + run.shift).toNat]
    | none => [c]

/-- Case rules skip over the character when they look for a neighbouring letter. -/
def isCaseIgnorable (c : Char) : Bool :=
  inSpans caseIgnorableSpans c.toNat

/-- The character has an upper or a lower form. -/
def isCased (c : Char) : Bool :=
  inSpans casedSpans c.toNat

/-- The nearest character that case rules do not skip has case. -/
def meetsCased (s : List Char) : Bool :=
  match s.dropWhile isCaseIgnorable with
  | c :: _ => isCased c
  | [] => false

/-- The lowercase form of what follows `before`, which is given backwards. -/
def lowerAfter (before : List Char) : List Char → List Char
  | [] => []
  | c :: rest =>
    if c = 'Σ' then
      (if meetsCased before && !meetsCased rest then 'ς' else 'σ') :: lowerAfter (c :: before) rest
    else lowerChar c ++ lowerAfter (c :: before) rest

/-- The full lowercase mapping of a text. -/
def lower (s : List Char) : List Char :=
  lowerAfter [] s

/-- The full lowercase mapping of a string. -/
def lowercase (s : String) : String :=
  String.ofList (lower s.toList)

end GameMacros.Text
