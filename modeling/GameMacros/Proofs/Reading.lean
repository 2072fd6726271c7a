import GameMacros.Script.Program
import Mathlib.Data.List.Forall2
import Mathlib.Tactic.IntervalCases

/-!
# Reading joined texts

A macro is read line by line, and neither blank lines nor blanks around a line matter. So the
commands of a text are those of its trimmed lines, a text that is put together line by line has the
commands of its parts, and trimming it changes nothing. A line with a verb is read off what its
writer put together: the verb, its arguments, a number in digits, a modifier at the end.
-/

namespace GameMacros

namespace Text

/-! ## Trimming -/

/-- A blank in front is trimmed. -/
theorem trim_cons_of_blank {c : Char} (h : isBlank c = true) (s : List Char) :
    trim (c :: s) = trim s := by
  simp only [trim, trimStart, List.dropWhile_cons_of_pos h]

/-- A blank at the end is trimmed. -/
theorem trim_concat_of_blank {c : Char} (h : isBlank c = true) (s : List Char) :
    trim (s ++ [c]) = trim s := by
  have hend (t : List Char) : trimEnd (t ++ [c]) = trimEnd t := by
    simp only [trimEnd, List.reverse_append, List.reverse_singleton, List.singleton_append,
      List.dropWhile_cons_of_pos h]
  unfold trim trimStart
  rw [List.dropWhile_append]
  split
  · next hnil =>
    rw [List.isEmpty_iff.mp hnil, List.dropWhile_cons_of_pos h, List.dropWhile_nil]
  · exact hend _

/-- A text without a blank in front starts as it is. -/
theorem trimStart_eq_self {s : List Char} (h : ∀ c ∈ s.head?, isBlank c = false) :
    trimStart s = s := by
  cases s with
  | nil => rfl
  | cons c s => exact List.dropWhile_cons_of_neg (by simp [h c rfl])

/-- A text without blanks at its ends stays as it is. -/
theorem trim_eq_self {s : List Char} (hhead : ∀ c ∈ s.head?, isBlank c = false)
    (hlast : ∀ c ∈ s.getLast?, isBlank c = false) : trim s = s := by
  have hreverse : s.reverse.dropWhile isBlank = s.reverse :=
    trimStart_eq_self (by rwa [List.head?_reverse])
  rw [trim, trimStart_eq_self hhead, trimEnd, hreverse, List.reverse_reverse]

/-- A text without blanks has none at its ends. -/
theorem trim_of_not_blank {s : List Char} (h : ∀ c ∈ s, isBlank c = false) : trim s = s :=
  trim_eq_self (fun c hc => h c (List.mem_of_mem_head? hc))
    (fun c hc => h c (List.mem_of_getLast? hc))

/-- A trimmed text has no blank in front. -/
theorem head?_trim {s : List Char} : ∀ c ∈ (trim s).head?, isBlank c = false := by
  intro c hc
  obtain ⟨dropped, hdropped⟩ : trim s <+: trimStart s :=
    List.reverse_suffix.mp (by
      rw [trim, trimEnd, List.reverse_reverse]
      exact List.dropWhile_suffix _)
  have hhead : (trimStart s).head? = some c := by
    rw [← hdropped, List.head?_append, hc, Option.some_or]
  have hnot := List.head?_dropWhile_not isBlank s
  rw [show s.dropWhile isBlank = trimStart s from rfl, hhead] at hnot
  exact hnot

/-- A trimmed text has no blank at its end. -/
theorem getLast?_trim {s : List Char} : ∀ c ∈ (trim s).getLast?, isBlank c = false := by
  intro c hc
  have hnot := List.head?_dropWhile_not isBlank (trimStart s).reverse
  rw [trim, trimEnd, List.getLast?_reverse, Option.mem_def] at hc
  rw [hc] at hnot
  exact hnot

/-- Trimming twice is trimming once. -/
theorem trim_trim (s : List Char) : trim (trim s) = trim s :=
  trim_eq_self head?_trim getLast?_trim

/-- A text stays as it is if it begins with what is not blank and ends with what is trimmed. -/
theorem trim_cons_append {c : Char} {s : List Char} (hc : isBlank c = false) (hne : s ≠ [])
    (htrim : trim s = s) (front : List Char) : trim (c :: (front ++ s)) = c :: (front ++ s) := by
  refine trim_eq_self (by simpa using hc) fun last hlast => ?_
  rw [← List.cons_append, List.getLast?_append_of_ne_nil _ hne, ← htrim] at hlast
  exact getLast?_trim last hlast

/-! ## Statements -/

/-- The character ends a line of a macro. -/
def isBreak (c : Char) : Bool :=
  c == '\n' || c == '\r'

/-- The line, trimmed, if there is anything on it. -/
def statement (line : List Char) : List (List Char) :=
  if (trim line).isEmpty then [] else [trim line]

/-- The trimmed lines still to come that are not blank, given the line being read, which is held
backwards. -/
def statementsAfter (current : List Char) : List Char → List (List Char)
  | [] => statement current.reverse
  | c :: rest =>
    if isBreak c then statement current.reverse ++ statementsAfter [] rest
    else statementsAfter (c :: current) rest

/-- The trimmed lines of a text that are not blank. -/
def statements (s : List Char) : List (List Char) :=
  statementsAfter [] s

/-- Lines with the same text between their blanks are the same statement. -/
theorem statement_congr {line other : List Char} (h : trim line = trim other) :
    statement line = statement other := by
  rw [statement, statement, h]

/-- Nothing is stated on a blank line. -/
theorem statement_nil : statement [] = [] := rfl

/-- A carriage return before a line feed makes no difference. -/
theorem statement_closeLine (current : List Char) :
    statement (closeLine current) = statement current.reverse := by
  unfold closeLine
  split
  · next rest =>
    rw [List.reverse_cons]
    exact (statement_congr (trim_concat_of_blank rfl _)).symm
  · rfl

/-- The lines of a text hold its statements. -/
theorem flatMap_statement_lines (current s : List Char) :
    (linesAfter current (unifyBreaks s)).flatMap statement = statementsAfter current s := by
  induction s using unifyBreaks.induct generalizing current with
  | case1 rest ih =>
    simp only [unifyBreaks, linesAfter, statementsAfter, isBreak, if_true, List.flatMap_cons, ih,
      statement_closeLine]
    simp [statement_nil]
  | case2 rest hrest ih =>
    rw [unifyBreaks.eq_2 _ hrest]
    simp only [linesAfter, if_true, List.flatMap_cons, ih, statement_closeLine]
    rfl
  | case3 c rest hpair hreturn ih =>
    have hother : (c == '\r') = false := by simpa using hreturn
    rw [unifyBreaks.eq_3 _ _ hpair hreturn, linesAfter, statementsAfter, isBreak, hother,
      Bool.or_false]
    split
    · next hfeed =>
      rw [if_pos (by simp [hfeed]), List.flatMap_cons, ih, statement_closeLine]
    · next hfeed =>
      rw [if_neg (by simpa using hfeed), ih]
  | case4 =>
    cases current with
    | nil => rfl
    | cons c current => simp [unifyBreaks, linesAfter, statementsAfter]

/-- A blank in front of a text is on none of its statements. -/
theorem statementsAfter_concat_of_blank {c : Char} (h : isBlank c = true) (current s : List Char) :
    statementsAfter (current ++ [c]) s = statementsAfter current s := by
  have hfirst (current : List Char) :
      statement (current ++ [c]).reverse = statement current.reverse := by
    rw [List.reverse_concat]
    exact statement_congr (trim_cons_of_blank h _)
  induction s generalizing current with
  | nil => exact hfirst current
  | cons other rest ih =>
    rw [statementsAfter, statementsAfter, hfirst, ← List.cons_append, ih]

/-- A blank at the end of a text is on none of its statements. -/
theorem statementsAfter_append_of_blank {c : Char} (h : isBlank c = true) (current s : List Char) :
    statementsAfter current (s ++ [c]) = statementsAfter current s := by
  induction s generalizing current with
  | nil =>
    simp only [List.nil_append, statementsAfter]
    split
    · exact List.append_nil _
    · rw [List.reverse_cons]
      exact statement_congr (trim_concat_of_blank h _)
  | cons other rest ih => rw [List.cons_append, statementsAfter, statementsAfter, ih, ih]

/-- A text without line breaks is one line. -/
theorem statements_of_unbroken {line : List Char} (h : ∀ c ∈ line, isBreak c = false) :
    statements line = statement line := by
  have hafter (current : List Char) :
      statementsAfter current line = statement (current.reverse ++ line) := by
    induction line generalizing current with
    | nil => rw [statementsAfter, List.append_nil]
    | cons c rest ih =>
      obtain ⟨hc, hothers⟩ := List.forall_mem_cons.mp h
      rw [statementsAfter, hc, if_neg Bool.false_ne_true, ih hothers, List.reverse_cons,
        List.append_assoc, List.singleton_append]
  exact hafter []

/-- Trimming a text keeps its statements. -/
theorem statements_trim (s : List Char) : statements (trim s) = statements s := by
  have hstart (s : List Char) : statements (trimStart s) = statements s := by
    induction s with
    | nil => rfl
    | cons c s ih =>
      unfold trimStart at ih ⊢
      cases hblank : isBlank c with
      | false => rw [List.dropWhile_cons_of_neg (by simp [hblank])]
      | true =>
        rw [List.dropWhile_cons_of_pos hblank, ih]
        unfold statements
        rw [statementsAfter]
        split
        · rfl
        · exact (statementsAfter_concat_of_blank hblank [] s).symm
  have hend (s : List Char) :
      statements (s.dropWhile isBlank).reverse = statements s.reverse := by
    induction s with
    | nil => rfl
    | cons c s ih =>
      cases hblank : isBlank c with
      | false => rw [List.dropWhile_cons_of_neg (by simp [hblank])]
      | true =>
        rw [List.dropWhile_cons_of_pos hblank, ih, List.reverse_cons]
        exact (statementsAfter_append_of_blank hblank [] s.reverse).symm
  have htrim := hend (trimStart s).reverse
  rw [List.reverse_reverse, hstart] at htrim
  exact htrim

/-- The statements of two texts on lines of their own follow one another. -/
theorem statementsAfter_line (current s rest : List Char) :
    statementsAfter current (s ++ '\n' :: rest) = statementsAfter current s ++ statements rest := by
  induction s generalizing current with
  | nil => rfl
  | cons c s ih =>
    rw [List.cons_append, statementsAfter, statementsAfter]
    split
    · rw [ih, List.append_assoc]
    · rw [ih]

/-- Texts that are joined line by line have the statements of all of them. -/
theorem statements_joinLines (parts : List (List Char)) :
    statements (joinLines parts) = parts.flatMap statements := by
  unfold joinLines
  induction parts with
  | nil => rfl
  | cons part parts ih =>
    cases parts with
    | nil => simp [List.intercalate]
    | cons next parts =>
      rw [List.intercalate_cons_cons, List.flatMap_cons, ← ih, List.append_assoc]
      exact statementsAfter_line [] part _

/-! ## Characters and separators -/

/-- What no character of a text is can be checked character by character. -/
theorem forall_of_all {p : Char → Bool} {s : List Char} (h : s.all (!p ·) = true) :
    ∀ c ∈ s, p c = false := by
  simpa using h

/-- A text is cut at the first separator. -/
theorem splitOnce_append {separator : Char} {s : List Char} (h : separator ∉ s) (rest : List Char) :
    splitOnce separator (s ++ separator :: rest) = some (s, rest) := by
  induction s with
  | nil => exact if_pos rfl
  | cons c s ih =>
    obtain ⟨hne, hother⟩ := List.ne_and_not_mem_of_not_mem_cons h
    rw [List.cons_append, splitOnce, if_neg (Ne.symm hne), ih hother]
    rfl

/-- A text without a separator is not cut. -/
theorem splitOnce_eq_none {separator : Char} {s : List Char} (h : separator ∉ s) :
    splitOnce separator s = none := by
  induction s with
  | nil => rfl
  | cons c s ih =>
    obtain ⟨hne, hother⟩ := List.ne_and_not_mem_of_not_mem_cons h
    rw [splitOnce, if_neg (Ne.symm hne), ih hother]
    rfl

end Text

/-! ## Numerals -/

namespace Numeral

/-- The value of a digit. -/
theorem digit?_of_isDigit {c : Char} (h : c.isDigit = true) :
    digit? c = some (c.toNat - '0'.toNat) := by
  simp only [Char.isDigit, ge_iff_le, Bool.and_eq_true, decide_eq_true_eq] at h
  exact if_pos h

/-- The value of a run of digits is the number that they stand for. -/
theorem valueAfter_eq_ofDigitChars {s : List Char} (h : ∀ c ∈ s, c.isDigit = true) (value : Nat) :
    valueAfter value s = Nat.ofDigitChars 10 s value := by
  induction s generalizing value with
  | nil => rfl
  | cons c s ih =>
    obtain ⟨hdigit, hothers⟩ := List.forall_mem_cons.mp h
    rw [valueAfter, digit?_of_isDigit hdigit, ih hothers, Nat.ofDigitChars_cons,
      Nat.mul_comm value]
    rfl

/-- Numbers are written in digits. -/
theorem isDigit_of_mem_toDigits {n : Nat} {c : Char} (h : c ∈ Nat.toDigits 10 n) :
    c.isDigit = true :=
  Nat.isDigit_of_mem_toDigits (by decide) (by decide) h

/-- A number is written as a run of digits. -/
theorem isDigits_toDigits (n : Nat) : isDigits (Nat.toDigits 10 n) = true := by
  have hdigits : ∀ c ∈ Nat.toDigits 10 n, (digit? c).isSome = true := by
    intro c hc
    rw [digit?_of_isDigit (isDigit_of_mem_toDigits hc)]
    rfl
  simp [isDigits, Nat.toDigits_ne_nil, List.all_eq_true.mpr hdigits]

/-- A number is the value of its digits. -/
theorem value_toDigits (n : Nat) : value (Nat.toDigits 10 n) = n := by
  rw [value, valueAfter_eq_ofDigitChars fun c hc => isDigit_of_mem_toDigits hc]
  exact Nat.ofDigitChars_toDigits (by decide) (by decide)

/-- A count that fits in 32 bits is read back from its digits. -/
theorem count?_toDigits {n : Nat} (h : n ≤ max32) : count? (Nat.toDigits 10 n) = some n := by
  rw [count?, isDigits_toDigits, value_toDigits, if_pos (by simpa using h)]

/-- What holds of the ten digits holds of all characters of a number. -/
theorem forall_mem_toDigits {p : Char → Prop} (h : ∀ d < 10, p (Nat.digitChar d)) (n : Nat) :
    ∀ c ∈ Nat.toDigits 10 n, p c := by
  intro c hc
  obtain ⟨hleast, hmost⟩ := Char.isDigit_iff_toNat.mp (isDigit_of_mem_toDigits hc)
  have hlow : 48 ≤ c.toNat := hleast
  have hhigh : c.toNat ≤ 57 := hmost
  have hdigit : c = Nat.digitChar (c.toNat - 48) := by
    rw [← Char.ofNat_toNat c]
    generalize c.toNat = code at hlow hhigh
    interval_cases code <;> rfl
  rw [hdigit]
  exact h _ (by omega)

/-- There is no blank in a number. -/
theorem isBlank_toDigits (n : Nat) : ∀ c ∈ Nat.toDigits 10 n, Text.isBlank c = false :=
  forall_mem_toDigits (by decide) n

/-- A number has no blank around it. -/
theorem trim_toDigits (n : Nat) : Text.trim (Nat.toDigits 10 n) = Nat.toDigits 10 n :=
  Text.trim_of_not_blank (isBlank_toDigits n)

end Numeral

/-- A whole number of seconds is read off its digits. -/
theorem Wait.milliseconds?_toDigits (n : Nat) :
    Wait.milliseconds? (Nat.toDigits 10 n) = some (Decimal.milliseconds ⟨n, 0⟩) := by
  have hpoint : '.' ∉ Nat.toDigits 10 n :=
    fun h => Numeral.forall_mem_toDigits (p := (· ≠ '.')) (by decide) n _ h rfl
  simp [Wait.milliseconds?, Numeral.trim_toDigits, Decimal.ofText?, Text.splitOnce_eq_none hpoint,
    Numeral.isDigits_toDigits, Numeral.value_toDigits]

/-! ## Modifiers -/

namespace Modifiers

/-- No modifier starts anywhere in the text. -/
def Plain (s : List Char) : Prop :=
  ∀ c ∈ s, Text.sameFolded '<' c = false

/-- Looks for something that starts with an angle bracket. -/
def Bracketed (lead : List Char → Lead) : Prop :=
  ∀ c rest, Text.sameFolded '<' c = false → lead (c :: rest) = .ordinary

/-- Modifiers with a value start with a bracket. -/
theorem bracketed_valued (name : List Char) : Bracketed (valued name) := by
  intro c rest h
  simp only [valued, List.cons_append, Text.dropHeadBy, h, Bool.false_eq_true, if_false]

/-- Modifiers without a value start with a bracket. -/
theorem bracketed_flag (name : List Char) : Bracketed (flag name) := by
  intro c rest h
  simp only [flag, List.cons_append, Text.dropHeadBy, h, Bool.false_eq_true, if_false]

variable {lead : List Char → Lead} {plain inner : List Char}

/-- Ordinary text is kept. -/
theorem takeOut_of_ordinary {c : Char} {rest : List Char} (h : lead (c :: rest) = .ordinary) :
    takeOut lead (c :: rest) = ((takeOut lead rest).1, c :: (takeOut lead rest).2) := by
  rw [takeOut, h]

/-- Plain text in front is kept. -/
theorem takeOut_append (hlead : Bracketed lead) (hplain : Plain plain) (s : List Char) :
    takeOut lead (plain ++ s) = ((takeOut lead s).1, plain ++ (takeOut lead s).2) := by
  induction plain with
  | nil => rfl
  | cons c plain ih =>
    obtain ⟨hc, hothers⟩ := List.forall_mem_cons.mp hplain
    rw [List.cons_append, takeOut_of_ordinary (hlead c _ hc), ih hothers]
    rfl

/-- Nothing is taken out of a plain text. -/
theorem takeOut_plain (hlead : Bracketed lead) (hplain : Plain plain) :
    takeOut lead plain = (none, plain) := by
  have h := takeOut_append hlead hplain []
  rwa [List.append_nil, takeOut, List.append_nil] at h

/-- A modifier of another kind is kept. -/
theorem takeOut_other (hlead : Bracketed lead) (hplain : Plain plain) (hinner : Plain inner)
    (h : lead ('<' :: inner) = .ordinary) :
    takeOut lead (plain ++ '<' :: inner) = (none, plain ++ '<' :: inner) := by
  rw [takeOut_append hlead hplain, takeOut_of_ordinary h, takeOut_plain hlead hinner]

/-- A modifier at the end of a text is taken out. -/
theorem takeOut_token {body : List Char} (hlead : Bracketed lead) (hplain : Plain plain)
    (h : lead ('<' :: inner) = .token body []) :
    takeOut lead (plain ++ '<' :: inner) = (some body, plain) := by
  rw [takeOut_append hlead hplain, takeOut, h]
  simp [takeOut]

/-- A plain line has no modifiers. -/
theorem extract_plain (h : Plain plain) : extract plain = .ok ({}, Text.trim plain) := by
  have hvalued (name : List Char) := takeOut_plain (bracketed_valued name) h
  have hflag (name : List Char) := takeOut_plain (bracketed_flag name) h
  simp only [extract, takeValue, takeFlag, bind, Except.bind, hvalued, hflag]
  rfl

/-- The modifier of a plain line that says how many seconds to wait at most. -/
theorem extract_maxWait (h : Plain plain) {n ms : Nat}
    (hms : Wait.milliseconds? (Nat.toDigits 10 n) = some ms) :
    extract (plain ++ "<maxwait.".toList ++ Nat.toDigits 10 n ++ ['>']) =
      .ok ({ maxWait := some ms }, Text.trim plain) := by
  let inner := "maxwait.".toList ++ (Nat.toDigits 10 n ++ ['>'])
  have hinner : Plain inner := by
    have hdigits : Plain (Nat.toDigits 10 n) := Numeral.forall_mem_toDigits (by decide) n
    exact List.forall_mem_append.mpr
      ⟨Text.forall_of_all rfl, List.forall_mem_append.mpr ⟨hdigits, Text.forall_of_all rfl⟩⟩
  have hlead : valued "maxwait".toList ('<' :: inner) = .token (Nat.toDigits 10 n) [] := by
    have hclosed : '>' ∉ Nat.toDigits 10 n :=
      fun h => Numeral.forall_mem_toDigits (p := (· ≠ '>')) (by decide) n _ h rfl
    have hname : Text.dropHeadBy Text.sameFolded ('<' :: "maxwait".toList ++ ['.'])
        ('<' :: inner) = some (Nat.toDigits 10 n ++ ['>']) := rfl
    simp only [valued, hname, Text.splitOnce_append hclosed]
  have hwait := takeOut_other (bracketed_valued "wait".toList) h hinner rfl
  have htaken := takeOut_token (bracketed_valued "maxwait".toList) h hlead
  have hvalued (name : List Char) := takeOut_plain (bracketed_valued name) h
  have hflag (name : List Char) := takeOut_plain (bracketed_flag name) h
  have hline : plain ++ "<maxwait.".toList ++ Nat.toDigits 10 n ++ ['>'] =
      plain ++ '<' :: inner := by
    simp [inner]
  rw [hline]
  simp only [extract, takeValue, takeFlag, bind, Except.bind, ValuedModifier.name, hwait, htaken,
    hms, hvalued, hflag]
  rfl

/-- The modifier of a plain line that asks for an echo. -/
theorem extract_echo (h : Plain plain) :
    extract (plain ++ "<echo>".toList) = .ok ({ echo := true }, Text.trim plain) := by
  let inner := "echo>".toList
  have hinner : Plain inner := Text.forall_of_all rfl
  have hwait := takeOut_other (bracketed_valued "wait".toList) h hinner rfl
  have hmaxWait := takeOut_other (bracketed_valued "maxwait".toList) h hinner rfl
  have hcondition := takeOut_other (bracketed_valued "condition".toList) h hinner rfl
  have hindex := takeOut_other (bracketed_valued "index".toList) h hinner rfl
  have hlead : flag "echo".toList ('<' :: inner) = .token [] [] := rfl
  have htaken := takeOut_token (bracketed_flag "echo".toList) h hlead
  have hflag (name : List Char) := takeOut_plain (bracketed_flag name) h
  change extract (plain ++ '<' :: inner) = _
  simp only [extract, takeValue, takeFlag, bind, Except.bind, ValuedModifier.name, hwait, hmaxWait,
    hcondition, hindex, htaken, hflag]
  rfl

end Modifiers

/-! ## Reading -/

namespace LineReader

variable {reader : LineReader}

/-- Blanks around a line do not matter. -/
theorem command_trim (reader : LineReader) (line : List Char) :
    reader.command (Text.trim line) = reader.command line := by
  rw [command, Text.trim_trim]
  rfl

/-- A blank line holds no command. -/
theorem command_of_blank {line : List Char} (h : (Text.trim line).isEmpty = true) :
    reader.command line = .ok none := by
  rw [command, h]
  rfl

/-- The lines hold these commands. -/
inductive Reads (reader : LineReader) : List (List Char) → List Command → Prop
  | nil : Reads reader [] []
  | cons {line : List Char} {command : Option Command} {rest : List (List Char)}
      {commands : List Command} (hline : reader.command line = .ok command)
      (hrest : Reads reader rest commands) :
      Reads reader (line :: rest) (command.toList ++ commands)

/-- Lines are read in order, whatever their numbers. -/
theorem commandsFrom_eq_ok_iff {lineNumber : Nat} {lines : List (List Char)}
    {commands : List Command} :
    reader.commandsFrom lineNumber lines = .ok commands ↔ Reads reader lines commands := by
  constructor
  · intro h
    induction lines generalizing lineNumber commands with
    | nil =>
      cases h
      exact .nil
    | cons line rest ih =>
      rw [commandsFrom] at h
      cases hline : reader.command line with
      | error cause => simp [hline] at h
      | ok command =>
        cases hrest : reader.commandsFrom (lineNumber + 1) rest with
        | error error => simp [hline, hrest, Except.map] at h
        | ok others =>
          simp only [hline, hrest, Except.map, Except.ok.injEq] at h
          exact h ▸ .cons hline (ih hrest)
  · intro h
    induction h generalizing lineNumber with
    | nil => rfl
    | cons hline _ ih => simp only [commandsFrom, hline, ih, Except.map]

/-- Lines after lines hold the commands of both. -/
theorem Reads.append {lines others : List (List Char)} {commands more : List Command}
    (h : Reads reader lines commands) (h' : Reads reader others more) :
    Reads reader (lines ++ others) (commands ++ more) := by
  induction h with
  | nil => exact h'
  | cons hline _ ih =>
    rw [List.append_assoc]
    exact .cons hline ih

/-- Lines hold the commands of their statements. -/
theorem reads_statements_iff {lines : List (List Char)} {commands : List Command} :
    Reads reader (lines.flatMap Text.statement) commands ↔ Reads reader lines commands := by
  induction lines generalizing commands with
  | nil => exact Iff.rfl
  | cons line rest ih =>
    rw [List.flatMap_cons, Text.statement]
    cases hblank : (Text.trim line).isEmpty with
    | true =>
      rw [if_pos rfl, List.nil_append, ih]
      constructor
      · exact fun h => .cons (command_of_blank hblank) h
      · rintro (_ | ⟨hline, hrest⟩)
        cases (command_of_blank hblank).symm.trans hline
        exact hrest
    | false =>
      rw [if_neg Bool.false_ne_true, List.singleton_append]
      constructor
      · rintro (_ | ⟨hline, hrest⟩)
        exact .cons (reader.command_trim line ▸ hline) (ih.mp hrest)
      · rintro (_ | ⟨hline, hrest⟩)
        exact .cons ((reader.command_trim line).trans hline) (ih.mpr hrest)

/-- A text holds the commands of its statements. -/
theorem commands_eq_ok_iff {source : List Char} {commands : List Command} :
    reader.commands source = .ok commands ↔ Reads reader (Text.statements source) commands := by
  rw [LineReader.commands, commandsFrom_eq_ok_iff, Text.statements, ← Text.flatMap_statement_lines,
    reads_statements_iff]
  rfl

/-- Trimming a text changes none of its commands. -/
theorem commands_trim {source : List Char} {commands : List Command} :
    reader.commands (Text.trim source) = .ok commands ↔ reader.commands source = .ok commands := by
  rw [commands_eq_ok_iff, commands_eq_ok_iff, Text.statements_trim]

end LineReader

end GameMacros
