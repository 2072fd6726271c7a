import GameMacros.Toml.Number
import GameMacros.Toml.Value

/-!
# TOML documents

A document is a sequence of lines, each with an entry, a header or nothing, and perhaps a comment.
Reading gives the table that it describes, or nothing if there is any fault.
-/

namespace GameMacros.Toml

/-- How deep values may be nested, and how many parts a dotted key may have. -/
def depthLimit : Nat := 79

/-! ## Keys -/

/-- The characters of a key without quotes. -/
def isBareKey (c : Char) : Bool :=
  isDecimal c || ('a' ≤ c && c ≤ 'z') || ('A' ≤ c && c ≤ 'Z') || c == '-' || c == '_'

/-- One part of a key. -/
def keyPart? : Reader String := fun s =>
  match s with
  | '"' :: _ => Quoted.lineText? s
  | '\'' :: _ => Quoted.lineText? s
  | _ =>
    match s.takeWhile isBareKey with
    | [] => none
    | name => some (String.ofList name, s.dropWhile isBareKey)

/-- A key of at most `parts` parts, with points between them and blanks around each. -/
def keyWithin? : (parts : Nat) → Reader (List String)
  | 0, _ => none
  | parts + 1, s => do
    let (first, rest) ← keyPart? (s.dropWhile isBlank)
    match rest.dropWhile isBlank with
    | '.' :: rest => do
      let (others, rest) ← keyWithin? parts rest
      return (first :: others, rest)
    | rest => return ([first], rest)

/-- A key. -/
def key? : Reader (List String) :=
  keyWithin? depthLimit

/-! ## Values -/

/-- What follows blanks, line breaks and comments. -/
def skipGap (inComment : Bool) : List Char → List Char
  | '\r' :: '\n' :: rest => skipGap false rest
  | '\n' :: rest => skipGap false rest
  | c :: rest =>
    if inComment then if isPlain c then skipGap true rest else c :: rest
    else if isBlank c then skipGap false rest
    else if c = '#' then skipGap true rest
    else c :: rest
  | [] => []

/-- The items of an array after its opening bracket. A comma may follow the last item. Each round
reads one item. -/
def items? (item? : Reader Value) : (rounds : Nat) → Reader (List Value)
  | 0, _ => none
  | rounds + 1, s =>
    match skipGap false s with
    | ']' :: rest => some ([], rest)
    | s => do
      let (first, rest) ← item? s
      match skipGap false rest with
      | ',' :: rest => do
        let (others, rest) ← items? item? rounds rest
        return (first :: others, rest)
      | ']' :: rest => return ([first], rest)
      | _ => none

/-- A key, an equals sign and a value. -/
def assignment? (value? : Reader Value) : Reader (List String × Value) := fun s => do
  let (key, rest) ← key? s
  let (value, rest) ← value? ((← after? '=' rest).dropWhile isBlank)
  return ((key, value), rest)

/-- The assignments of a table between braces, of which there is at least one. Each round reads one
of them. -/
def assignments? (value? : Reader Value) : (rounds : Nat) → Reader (List (List String × Value))
  | 0, _ => none
  | rounds + 1, s => do
    let (first, rest) ← assignment? value? s
    match rest.dropWhile isBlank with
    | ',' :: rest => do
      let (others, rest) ← assignments? value? rounds rest
      return (first :: others, rest)
    | '\x7d' :: rest => return ([first], rest)
    | _ => none

/-- The table that assignments make, one after the other. -/
def tableOf? (assignments : List (List String × Value)) : Option Value := do
  let entries ← assignments.foldlM
    (fun (entries : Entries) (path, value) => entries.assign true value path) []
  return .table (Node.toValues entries)

/-- A truth value. -/
def truth? : Reader Bool
  | 't' :: 'r' :: 'u' :: 'e' :: rest => some (true, rest)
  | 'f' :: 'a' :: 'l' :: 's' :: 'e' :: rest => some (false, rest)
  | _ => none

/-- A value that holds no other values. Dates and times come before numbers with a fraction, and
these before whole numbers. -/
def scalar? : Reader Value := fun s =>
  match Quoted.text? s with
  | some (text, rest) => some (.string text, rest)
  | none =>
    match truth? s with
    | some (truth, rest) => some (.boolean truth, rest)
    | none =>
      match afterMoment? s with
      | some rest => some (.moment, rest)
      | none =>
        match (afterFraction? s).or (afterSpecial? s) with
        | some rest => some (.fraction, rest)
        | none => (integer? s).map fun (number, rest) => (.integer number, rest)

/-- A value in which others are nested at most `depth` deep. -/
def valueWithin? : (depth : Nat) → Reader Value
  | 0, s => scalar? s
  | depth + 1, s =>
    match s with
    | '[' :: rest =>
      (items? (valueWithin? depth) (rest.length + 1) rest).map fun (items, rest) =>
        (.array items, rest)
    | '\x7b' :: rest =>
      match rest.dropWhile isBlank with
      | '\x7d' :: rest => some (.table [], rest)
      | rest => do
        let (assignments, left) ← assignments? (valueWithin? depth) (rest.length + 1) rest
        return (← tableOf? assignments, left)
    | _ => scalar? s

/-- A value. -/
def value? : Reader Value :=
  valueWithin? depthLimit

/-! ## Lines -/

/-- What a line says. -/
inductive Statement where
  | nothing
  | assign (path : List String) (value : Value)
  | table (path : List String)
  | nextTable (path : List String)
  deriving Repr, Inhabited

/-- What follows the end of a line. A comment may stand before it, and the text may end there. -/
def afterLine? (s : List Char) : Option (List Char) :=
  let afterComment : List Char :=
    match s.dropWhile isBlank with
    | '#' :: rest => rest.dropWhile isPlain
    | rest => rest
  if afterComment.isEmpty then some [] else afterBreak? afterComment

/-- What a line says, up to its end or to a comment. -/
def statement? : Reader Statement := fun s =>
  match s.dropWhile isBlank with
  | '[' :: '[' :: rest => do
    let (path, rest) ← key? rest
    return (.nextTable path, ← after? ']' (← after? ']' rest))
  | '[' :: rest => do
    let (path, rest) ← key? rest
    return (.table path, ← after? ']' rest)
  | [] => some (.nothing, [])
  | c :: rest =>
    if c = '#' || (afterBreak? (c :: rest)).isSome then some (.nothing, c :: rest)
    else (assignment? value? (c :: rest)).map fun ((path, value), rest) =>
      (.assign path value, rest)

/-- What the lines of a document say. Each round reads one line. -/
def statements? : (rounds : Nat) → List Char → Option (List Statement)
  | 0, _ => none
  | _ + 1, [] => some []
  | rounds + 1, s => do
    let (statement, rest) ← statement? s
    let others ← statements? rounds (← afterLine? rest)
    return statement :: others

/-- A document while it is being read: its entries and the header that entries go under. -/
structure Draft where
  entries : Entries := []
  header : List String := []

/-- The draft after a header. -/
def Draft.openUnder (draft : Draft) (path : List String)
    (openLast : String → Entries → Option Entries) : Option Draft := do
  let last ← path.getLast?
  let entries ← draft.entries.within (openLast last) path.dropLast
  return { entries, header := path }

/-- The draft after a line. -/
def Draft.state (draft : Draft) : Statement → Option Draft
  | .nothing => some draft
  | .assign path value => do
    let entries ← draft.entries.within (·.assign true value path) draft.header
    return { draft with entries }
  | .table path => draft.openUnder path Entries.openTable
  | .nextTable path => draft.openUnder path Entries.openNextTable

/-- The table that a document describes. A byte order mark at its start does not count. -/
def document? (s : List Char) : Option (List (String × Value)) := do
  let text :=
    match s with
    | '\uFEFF' :: rest => rest
    | _ => s
  let statements ← statements? (text.length + 1) text
  let draft ← statements.foldlM Draft.state {}
  return Node.toValues draft.entries

end GameMacros.Toml
