import GameMacros.Proofs.Rounding
import GameMacros.Proofs.Rows

/-!
# Reading craft loops

The standard wrap of a craft loop is text around the text of a macro. It is read as what it stands
for: the commands that lead from the crafting log to the synthesis window, a gate that lets a number
of crafts pass, and a loop, around the commands of the macro. A macro that cannot be read still has
its own error, on its line among those of the wrap.
-/

namespace GameMacros

namespace CraftLoop

/-! ## The commands of the wrap -/

/-- The command that waits for a window, for so many seconds at most. -/
def awaitWindow (window : String) (seconds ms : Nat) : Command where
  text := s!"/waitaddon \"{window}\" <maxwait.{seconds}>"
  kind := .waitAddon window
  maxWait := ms

/-- The command that starts a synthesis. -/
def startSynthesis : Command where
  text := "/click \"synthesize\""
  kind := .click "synthesize"

/-- The commands that lead from the crafting log to the synthesis window. -/
def opening (seconds ms : Nat) : List Command :=
  [awaitWindow "RecipeNote" seconds ms, startSynthesis, awaitWindow "Synthesis" seconds ms]

/-- The command that lets a number of crafts pass. -/
def passing (echo : Bool) (crafts : Nat) : Command where
  text := if echo then s!"/craft {crafts} <echo>" else s!"/craft {crafts}"
  kind := .craft crafts
  echo

/-- The command that starts over. -/
def startOver : Command where
  text := "/loop"
  kind := .loop none

/-- The commands in front of those of the macro. -/
def commandsBefore (fromCraftingLog : Bool) (count : Int) (echo : Bool) (seconds ms : Nat) :
    List Command :=
  if fromCraftingLog then
    if 1 < count then passing echo count.toNat :: opening seconds ms else opening seconds ms
  else []

/-- The commands behind those of the macro. -/
def commandsAfter (fromCraftingLog : Bool) (count : Int) (echo : Bool) (seconds ms : Nat) :
    List Command :=
  if count = 1 then []
  else if fromCraftingLog then [startOver]
  else if 1 < count then passing echo (count - 1).toNat :: opening seconds ms ++ [startOver]
  else opening seconds ms ++ [startOver]

/-! ## The lines of the wrap -/

/-- The command is what its own text is read as. -/
structure ReadBack (reader : LineReader) (command : Command) : Prop where
  unbroken : ∀ c ∈ command.text.toList, Text.isBreak c = false
  command_eq : reader.command command.text.toList = .ok (some command)

/-- A line with a verb is read back as its command. -/
theorem readBack_of_verb (reader : LineReader) {text : String} {rest word arguments : List Char}
    {modifiers : Modifiers} {verb : Verb} {kind : Command.Kind}
    (hbreak : ∀ c ∈ text.toList, Text.isBreak c = false) (hhead : text.toList.head? = some '/')
    (hlast : ∀ c ∈ text.toList.getLast?, Text.isBlank c = false)
    (hextract : Modifiers.extract text.toList = .ok (modifiers, '/' :: rest))
    (hsplit : Line.splitVerb? ('/' :: rest) = some (word, arguments))
    (hverb : Verb.ofWord? (String.ofList (Text.lower word)) = some verb)
    (hkind : Line.kindOf verb text arguments modifiers = .ok kind) (hwait : kind ≠ .wait) :
    ReadBack reader
      { text
        kind
        wait := modifiers.wait
        maxWait := modifiers.maxWaitOrDefault
        index := modifiers.index
        echo := modifiers.echo } := by
  have htrim : Text.trim text.toList = text.toList :=
    Text.trim_eq_self (by simp [hhead, Text.isBlank]) hlast
  have hcommand := reader.command_of_verb htrim hhead hextract hsplit hverb
    (by rwa [String.ofList_toList]) hwait
  rw [String.ofList_toList] at hcommand
  exact ⟨hbreak, hcommand⟩

/-- A line without modifiers is read back. -/
theorem readBack_plain (reader : LineReader) {text : String} {rest word arguments : List Char}
    {verb : Verb} {kind : Command.Kind} (hplain : Modifiers.Plain text.toList)
    (hbreak : ∀ c ∈ text.toList, Text.isBreak c = false) (hslash : text.toList = '/' :: rest)
    (hlast : ∀ c ∈ text.toList.getLast?, Text.isBlank c = false)
    (hsplit : Line.splitVerb? ('/' :: rest) = some (word, arguments))
    (hverb : Verb.ofWord? (String.ofList (Text.lower word)) = some verb)
    (hkind : Line.kindOf verb text arguments {} = .ok kind) (hwait : kind ≠ .wait) :
    ReadBack reader { text, kind } := by
  have hhead : text.toList.head? = some '/' := by rw [hslash, List.head?_cons]
  have htrim : Text.trim text.toList = text.toList :=
    Text.trim_eq_self (by simp [hhead, Text.isBlank]) hlast
  have hextract : Modifiers.extract text.toList = .ok ({}, '/' :: rest) := by
    rw [Modifiers.extract_plain hplain, htrim, hslash]
  exact readBack_of_verb reader hbreak hhead hlast hextract hsplit hverb hkind hwait

/-- A line that waits at most a number of seconds is read back. -/
theorem readBack_patient (reader : LineReader) {text : String}
    {plain rest word arguments : List Char} {verb : Verb} {kind : Command.Kind} {seconds ms : Nat}
    (hms : Wait.milliseconds? (Nat.toDigits 10 seconds) = some ms)
    (htext : text.toList = plain ++ "<maxwait.".toList ++ Nat.toDigits 10 seconds ++ ['>'])
    (hplain : Modifiers.Plain plain) (hbreak : ∀ c ∈ plain, Text.isBreak c = false)
    (hslash : plain.head? = some '/') (htrim : Text.trim plain = '/' :: rest)
    (hsplit : Line.splitVerb? ('/' :: rest) = some (word, arguments))
    (hverb : Verb.ofWord? (String.ofList (Text.lower word)) = some verb)
    (hkind : ∀ modifiers, Line.kindOf verb text arguments modifiers = .ok kind)
    (hwait : kind ≠ .wait) :
    ReadBack reader { text, kind, maxWait := ms } := by
  have hunbroken : ∀ c ∈ text.toList, Text.isBreak c = false := by
    have hmodifier : ∀ c ∈ "<maxwait.".toList, Text.isBreak c = false := Text.forall_of_all rfl
    have hdigits :=
      Numeral.forall_mem_toDigits (p := (Text.isBreak · = false)) (by decide) seconds
    rw [htext]
    simp only [List.forall_mem_append, List.forall_mem_singleton]
    exact ⟨⟨⟨hbreak, hmodifier⟩, hdigits⟩, rfl⟩
  have hhead : text.toList.head? = some '/' := by
    simp [htext, List.head?_append, hslash]
  have hlast : ∀ c ∈ text.toList.getLast?, Text.isBlank c = false := by
    rw [htext, List.getLast?_concat]
    simp [Text.isBlank]
  have hextract := Modifiers.extract_maxWait hplain hms
  rw [← htext, htrim] at hextract
  exact readBack_of_verb reader hunbroken hhead hlast hextract hsplit hverb (hkind _) hwait

/-- The lines that lead from the crafting log to the synthesis window are read back. -/
theorem readBack_opening (reader : LineReader) {seconds ms : Nat}
    (hms : Wait.milliseconds? (Nat.toDigits 10 seconds) = some ms) :
    ∀ command ∈ opening seconds ms, ReadBack reader command := by
  have htext (window plain : String) (hplain : plain = "/waitaddon \"" ++ window ++ "\" ") :
      (awaitWindow window seconds ms).text.toList =
        plain.toList ++ "<maxwait.".toList ++ Nat.toDigits 10 seconds ++ ['>'] := by
    change ("/waitaddon \"" ++ window ++ "\" <maxwait." ++ toString seconds ++ ">").toList = _
    simp [hplain]
  have hlog : ReadBack reader (awaitWindow "RecipeNote" seconds ms) :=
    readBack_patient reader hms (htext _ "/waitaddon \"RecipeNote\" " rfl)
      (Text.forall_of_all rfl) (Text.forall_of_all rfl) rfl rfl rfl rfl (fun _ => rfl) (by decide)
  have hstart : ReadBack reader startSynthesis :=
    readBack_plain reader (Text.forall_of_all rfl) (Text.forall_of_all rfl) rfl
      (by simp [Text.isBlank]) rfl rfl rfl (by decide)
  have hwindow : ReadBack reader (awaitWindow "Synthesis" seconds ms) :=
    readBack_patient reader hms (htext _ "/waitaddon \"Synthesis\" " rfl)
      (Text.forall_of_all rfl) (Text.forall_of_all rfl) rfl rfl rfl rfl (fun _ => rfl) (by decide)
  simp only [opening, List.forall_mem_cons]
  exact ⟨hlog, hstart, hwindow, by simp⟩

/-- The line that ends a round of a craft loop is read back. -/
theorem readBack_startOver (reader : LineReader) : ReadBack reader startOver :=
  readBack_plain reader (Text.forall_of_all rfl) (Text.forall_of_all rfl) rfl
    (by simp [Text.isBlank]) rfl rfl rfl (by decide)

/-- A gate is the line of its command. -/
theorem gate_eq (echo : Bool) (crafts : Nat) :
    gate echo crafts = (passing echo crafts).text.toList := by
  cases echo <;> rfl

/-- A gate is read back. -/
theorem readBack_passing (reader : LineReader) (echo : Bool) {crafts : Nat}
    (hcrafts : crafts ≤ Numeral.max32) : ReadBack reader (passing echo crafts) := by
  let plain := "/craft ".toList ++ Nat.toDigits 10 crafts
  have hplain : Modifiers.Plain plain :=
    List.forall_mem_append.mpr
      ⟨Text.forall_of_all rfl, Numeral.forall_mem_toDigits (by decide) crafts⟩
  have hbreak : ∀ c ∈ plain, Text.isBreak c = false :=
    List.forall_mem_append.mpr
      ⟨Text.forall_of_all rfl, Numeral.forall_mem_toDigits (by decide) crafts⟩
  have hlast : ∀ c ∈ plain.getLast?, Text.isBlank c = false := by
    rw [List.getLast?_append_of_ne_nil _ Nat.toDigits_ne_nil]
    exact fun c hc => Numeral.isBlank_toDigits crafts c (List.mem_of_getLast? hc)
  have hsplit : Line.splitVerb? plain = some ("craft".toList, Nat.toDigits 10 crafts) :=
    Line.splitVerb?_count (show "craft".toList ≠ [] by decide) (Text.forall_of_all rfl) crafts
  have hkind (line : String) (modifiers : Modifiers) :
      Line.kindOf .craft line (Nat.toDigits 10 crafts) modifiers = .ok (.craft crafts) :=
    Line.kindOf_of_makes (.craft (Numeral.count?_toDigits hcrafts)) line
  cases echo with
  | false =>
    have htext : (passing false crafts).text.toList = plain := by
      change ("/craft " ++ toString crafts).toList = _
      simp [plain]
    rw [← htext] at hplain hbreak hlast hsplit
    exact readBack_plain reader hplain hbreak htext hlast (htext ▸ hsplit) rfl (hkind _ _)
      (by simp)
  | true =>
    have htext : (passing true crafts).text.toList = plain ++ [' '] ++ "<echo>".toList := by
      change ("/craft " ++ toString crafts ++ " <echo>").toList = _
      simp [plain]
    have hspaced : Modifiers.Plain (plain ++ [' ']) :=
      List.forall_mem_append.mpr ⟨hplain, Text.forall_of_all rfl⟩
    have hextract := Modifiers.extract_echo hspaced
    rw [Text.trim_concat_of_blank rfl, Text.trim_eq_self (by simp [plain, Text.isBlank]) hlast,
      ← htext] at hextract
    refine readBack_of_verb reader ?_ (by rw [htext]; rfl) (by simp [htext, Text.isBlank]) hextract
      hsplit rfl (hkind _ _) (by simp)
    rw [htext]
    simp only [List.forall_mem_append]
    exact ⟨⟨hbreak, Text.forall_of_all rfl⟩, Text.forall_of_all rfl⟩

/-! ## Reading the wrap -/

variable {reader : LineReader} {before after : List Command} {contents : List Char}
  {fromCraftingLog echo : Bool} {count : Int} {seconds ms : Nat}

/-- The lines of commands. -/
def texts (commands : List Command) : List (List Char) :=
  commands.map fun command => command.text.toList

/-- The lines in the wrap are those of its commands around the lines of the macro. -/
theorem joinLines_standardParts (body : List Char) (fromCraftingLog echo : Bool) (seconds ms : Nat)
    (hcount : count ≠ 0) :
    Text.joinLines (standardParts body fromCraftingLog count echo seconds) =
      Text.joinLines (texts (commandsBefore fromCraftingLog count echo seconds ms) ++
        body :: texts (commandsAfter fromCraftingLog count echo seconds ms)) := by
  have hopening : openSynthesis seconds = Text.joinLines (texts (opening seconds ms)) := by
    -- The interpolated strings, written out.
    change ("/waitaddon \"RecipeNote\" <maxwait." ++ toString seconds ++
      ">\n/click \"synthesize\"\n" ++ ("/waitaddon \"Synthesis\" <maxwait." ++ toString seconds ++
        ">")).toList = Text.joinLines
      [("/waitaddon \"" ++ "RecipeNote" ++ "\" <maxwait." ++ toString seconds ++ ">").toList,
        "/click \"synthesize\"".toList,
        ("/waitaddon \"" ++ "Synthesis" ++ "\" <maxwait." ++ toString seconds ++ ">").toList]
    simp [Text.joinLines, List.intercalate]
  have hgate {crafts : Int} (hcrafts : 0 ≤ crafts) :
      gate echo crafts = (passing echo crafts.toNat).text.toList := by
    obtain ⟨n, rfl⟩ := Int.eq_ofNat_of_zero_le hcrafts
    exact gate_eq echo n
  obtain hnegative | rfl | hseveral : count < 0 ∨ count = 1 ∨ 1 < count := by omega
  · have hone : count ≠ 1 := by omega
    have hfew : ¬1 < count := by omega
    cases fromCraftingLog <;>
      simp [standardParts, commandsBefore, commandsAfter, hnegative, hone, hfew, hopening, texts,
        opening, startOver, Text.joinLines, List.intercalate]
  · cases fromCraftingLog <;>
      simp [standardParts, commandsBefore, commandsAfter, hopening, texts, opening, Text.joinLines,
        List.intercalate]
  · have hnegative : ¬count < 0 := by omega
    have hone : count ≠ 1 := by omega
    cases fromCraftingLog <;>
      simp [standardParts, commandsBefore, commandsAfter, hnegative, hone, hseveral, hopening,
        hgate (show 0 ≤ count by omega), hgate (show 0 ≤ count - 1 by omega), texts, opening,
        startOver, Text.joinLines, List.intercalate]

/-- The lines of commands that are read back hold these commands, one on each line. -/
theorem commandsFrom_texts {commands : List Command}
    (h : ∀ command ∈ commands, ReadBack reader command) (first : Nat) :
    reader.commandsFrom first (texts commands) = .ok commands := by
  induction commands generalizing first with
  | nil => rfl
  | cons command commands ih =>
    obtain ⟨hcommand, hothers⟩ := List.forall_mem_cons.mp h
    have hrest := ih hothers (first + 1)
    unfold texts at hrest ⊢
    simp only [List.map_cons, LineReader.commandsFrom, hcommand.command_eq, hrest, Except.map]
    rfl

/-- Around the rows of a macro, the lines of commands that are read back are rows. -/
theorem rows_between (hbefore : ∀ command ∈ before, ReadBack reader command)
    (hafter : ∀ command ∈ after, ReadBack reader command) {body : List Char}
    (hbody : body.getLast? ≠ some '\r') :
    Text.rows (Text.joinLines (texts before ++ body :: texts after)) =
      texts before ++ (Text.rows body ++ texts after) := by
  have hlines {commands : List Command} (h : ∀ command ∈ commands, ReadBack reader command) :
      ∀ line ∈ texts commands, ∀ c ∈ line, Text.isBreak c = false := by
    intro line hline
    obtain ⟨command, hcommand, rfl⟩ := List.mem_map.mp hline
    exact (h command hcommand).unbroken
  have hrows {lines : List (List Char)} (h : ∀ line ∈ lines, ∀ c ∈ line, Text.isBreak c = false) :
      lines.flatMap Text.rows = lines := by
    rw [List.flatMap_congr fun line hline => Text.rows_of_unbroken (h line hline)]
    exact List.flatMap_singleton' lines
  have hends {lines : List (List Char)} (h : ∀ line ∈ lines, ∀ c ∈ line, Text.isBreak c = false) :
      ∀ line ∈ lines, line.getLast? ≠ some '\r' := by
    intro line hline hlast
    cases h line hline _ (List.mem_of_getLast? hlast)
  have hparts : ∀ line ∈ texts before ++ body :: texts after, line.getLast? ≠ some '\r' :=
    List.forall_mem_append.mpr
      ⟨hends (hlines hbefore), List.forall_mem_cons.mpr ⟨hbody, hends (hlines hafter)⟩⟩
  rw [Text.rows_joinLines (by simp) hparts, List.flatMap_append, List.flatMap_cons,
    hrows (hlines hbefore), hrows (hlines hafter)]

/-- A macro between commands that are read back is read as it is, with the numbers of its lines
moved on. -/
theorem commands_between (hbefore : ∀ command ∈ before, ReadBack reader command)
    (hafter : ∀ command ∈ after, ReadBack reader command) {body : List Char}
    (hbody : body.getLast? ≠ some '\r') :
    reader.commands (Text.joinLines (texts before ++ body :: texts after)) =
      ((reader.commands body).mapError (ScriptError.later before.length)).map
        (before ++ · ++ after) := by
  have hlength : (texts before).length = before.length := List.length_map _
  rw [LineReader.commands_eq_rows, rows_between hbefore hafter hbody,
    LineReader.commandsFrom_append, commandsFrom_texts hbefore, hlength,
    LineReader.commandsFrom_append, LineReader.commandsFrom_add, LineReader.commands_eq_rows]
  cases reader.commandsFrom 1 (Text.rows body) with
  | error error => rfl
  | ok commands => simp [Except.mapError, Except.bind, Except.map, commandsFrom_texts hafter]

/-- What is read back is on a line that is not blank. -/
theorem ReadBack.trim_ne_nil {command : Command} (h : ReadBack reader command) :
    Text.trim command.text.toList ≠ [] := by
  intro hblank
  have hnone : reader.command command.text.toList = .ok none :=
    LineReader.command_of_blank (List.isEmpty_iff.mpr hblank)
  cases hnone.symm.trans h.command_eq

/-- Trimming changes nothing about how a macro between commands that are read back is read. -/
theorem commands_trim_between (hbefore : ∀ command ∈ before, ReadBack reader command)
    (hafter : ∀ command ∈ after, ReadBack reader command) (contents : List Char) :
    reader.commands
        (Text.trim (Text.joinLines (texts before ++ Text.trim contents :: texts after))) =
      reader.commands (Text.joinLines (texts before ++ Text.trim contents :: texts after)) := by
  have hlast : (Text.trim contents).getLast? ≠ some '\r' := by
    intro hreturn
    cases Text.getLast?_trim _ hreturn
  have hrows := rows_between hbefore hafter hlast
  have hresult := commands_between hbefore hafter hlast
  generalize Text.joinLines (texts before ++ Text.trim contents :: texts after) = source at *
  by_cases hblank : Text.trim contents = []
  · have hnothing : reader.commands (Text.trim contents) = .ok [] := by
      rw [hblank]
      rfl
    rw [hnothing] at hresult
    rw [hresult]
    exact LineReader.commands_trim.mpr hresult
  · -- The first line is not blank, so there are no numbers to take away.
    obtain ⟨row, others, _, hfirst, hrow, _⟩ := Text.exists_rows_trim hblank
    have hlead : Text.leadingBlanks source = 0 := by
      cases before with
      | nil =>
        have htrimmed : (Text.rows source).map Text.trim =
            row :: (others ++ (texts after).map Text.trim) := by
          rw [hrows, texts, List.map_nil, List.nil_append, List.map_append, hfirst]
          exact List.cons_append
        exact Text.leadingBlanks_eq htrimmed hrow
      | cons command before =>
        obtain ⟨hcommand, -⟩ := List.forall_mem_cons.mp hbefore
        exact Text.leadingBlanks_eq (by rw [hrows]; rfl) hcommand.trim_ne_nil
    rw [reader.commands_eq_trim source, hlead]
    cases reader.commands (Text.trim source) <;> rfl

/-- A macro in the standard wrap is read between the commands of the wrap. -/
theorem commands_wrap (reader : LineReader) (contents : List Char) (fromCraftingLog echo : Bool)
    (hcount : count ≠ 0) (hlimit : count ≤ Numeral.max32)
    (hms : Wait.milliseconds? (Nat.toDigits 10 seconds) = some ms) :
    reader.commands (wrap (.standard echo seconds) fromCraftingLog count contents) =
      ((reader.commands (Text.trim contents)).mapError (ScriptError.later
        (commandsBefore fromCraftingLog count echo seconds ms).length)).map
        (commandsBefore fromCraftingLog count echo seconds ms ++ · ++
          commandsAfter fromCraftingLog count echo seconds ms) := by
  have hopening := readBack_opening reader hms
  have hpassing {crafts : Int} (h : crafts ≤ count) :
      ReadBack reader (passing echo crafts.toNat) := readBack_passing reader echo (by omega)
  have hbefore : ∀ command ∈ commandsBefore fromCraftingLog count echo seconds ms,
      ReadBack reader command := by
    unfold commandsBefore
    split
    · split
      · exact List.forall_mem_cons.mpr ⟨hpassing (Int.le_refl count), hopening⟩
      · exact hopening
    · simp
  have hafter : ∀ command ∈ commandsAfter fromCraftingLog count echo seconds ms,
      ReadBack reader command := by
    have hover : ∀ command ∈ [startOver], ReadBack reader command :=
      List.forall_mem_singleton.mpr (readBack_startOver reader)
    unfold commandsAfter
    split
    · simp
    · split
      · exact hover
      · split
        · exact List.forall_mem_append.mpr
            ⟨List.forall_mem_cons.mpr ⟨hpassing (by omega), hopening⟩, hover⟩
        · exact List.forall_mem_append.mpr ⟨hopening, hover⟩
  have hlast : (Text.trim contents).getLast? ≠ some '\r' := by
    intro hreturn
    cases Text.getLast?_trim _ hreturn
  rw [wrap, if_neg hcount, joinLines_standardParts _ fromCraftingLog echo seconds ms hcount,
    commands_trim_between hbefore hafter, commands_between hbefore hafter hlast]

/-- What a macro in the standard wrap is read as: its commands between those of the wrap, or its
error, on the line that the faulty one has become. The wrap is put around the trimmed macro, so
the blank lines in front of it are gone. -/
structure ReadsWrapped (reader : LineReader) (contents : List Char) (fromCraftingLog : Bool)
    (count : Int) (echo : Bool) (seconds : Nat) : Prop where
  commands_eq : ∀ commands, reader.commands contents = .ok commands →
    reader.commands (wrap (.standard echo seconds) fromCraftingLog count contents) =
      .ok (commandsBefore fromCraftingLog count echo seconds (seconds * 1000) ++ commands ++
        commandsAfter fromCraftingLog count echo seconds (seconds * 1000))
  error_eq : ∀ lineNumber cause, reader.commands contents = .error ⟨lineNumber, cause⟩ →
    Text.leadingBlanks contents < lineNumber ∧
      reader.commands (wrap (.standard echo seconds) fromCraftingLog count contents) =
        .error ⟨lineNumber - Text.leadingBlanks contents +
          (commandsBefore fromCraftingLog count echo seconds (seconds * 1000)).length, cause⟩

/-- A macro in the standard wrap is read as a craft loop around its commands. -/
theorem readsWrapped_of_ne_zero (reader : LineReader) (contents : List Char)
    (fromCraftingLog echo : Bool) (hcount : count ≠ 0) (hlimit : count ≤ Numeral.max32)
    (hseconds : seconds ≤ Numeral.max32) :
    ReadsWrapped reader contents fromCraftingLog count echo seconds := by
  have hms : Wait.milliseconds? (Nat.toDigits 10 seconds) = some (seconds * 1000) := by
    rw [Wait.milliseconds?_toDigits, Decimal.milliseconds_whole hseconds]
  have hwrap := commands_wrap reader contents fromCraftingLog echo hcount hlimit hms
  have htrim := reader.commands_eq_trim contents
  refine ⟨fun commands hcommands => ?_, fun lineNumber cause herror => ?_⟩
  · rw [hwrap, LineReader.commands_trim.mpr hcommands]
    rfl
  · rw [herror] at htrim
    cases hresult : reader.commands (Text.trim contents) with
    | ok commands =>
      rw [hresult] at htrim
      cases htrim
    | error error =>
      obtain ⟨before, line, after, _, _, hnumber, _⟩ :=
        LineReader.exists_fault (LineReader.commands_eq_rows (Text.trim contents) ▸ hresult)
      rw [hresult] at htrim
      simp only [Except.mapError, ScriptError.later, Except.error.injEq, ScriptError.mk.injEq]
        at htrim
      obtain ⟨rfl, rfl⟩ := htrim
      refine ⟨by omega, ?_⟩
      rw [hwrap, hresult, Nat.add_sub_cancel]
      rfl

/-- Behind four lines of the wrap, the fault on the last line of a macro is two lines further on,
since two blank lines in front of the macro are gone. -/
theorem readsWrapped_of_unknown_verb :
    (3 : Int) ≠ 0 ∧ 3 ≤ Numeral.max32 ∧ 60 ≤ Numeral.max32 ∧
      (⟨["echo"]⟩ : LineReader).commands
          (wrap (.standard true 60) true 3 "\r\n \n/echo a\n/nope".toList) =
        .error ⟨6, .unknownCommand "/nope"⟩ := by
  have herror : (⟨["echo"]⟩ : LineReader).commands "\r\n \n/echo a\n/nope".toList =
      .error ⟨4, .unknownCommand "/nope"⟩ := by decide +kernel
  have hwrapped : ReadsWrapped ⟨["echo"]⟩ "\r\n \n/echo a\n/nope".toList true 3 true 60 :=
    readsWrapped_of_ne_zero _ _ true true (by decide) (by decide) (by decide)
  exact ⟨by decide, by decide, by decide, (hwrapped.error_eq _ _ herror).2⟩

/-! ## The commands of a craft loop -/

/-- The commands that are executed for a number of crafts. From the crafting log, the synthesis
window is opened for each craft. Otherwise it is open already for the first one. -/
def crafting (steps body : List Command) (fromCraftingLog : Bool) (crafts : Nat) : List Command :=
  if fromCraftingLog then (List.replicate crafts (steps ++ body)).flatten
  else body ++ (List.replicate (crafts - 1) (steps ++ body)).flatten

/-- The commands of a round of a craft loop without an end. -/
def endlessRound (steps body : List Command) (fromCraftingLog : Bool) : List Command :=
  if fromCraftingLog then steps ++ body else body ++ steps

/-- How the commands of a craft loop are laid out around those of the macro. -/
inductive Layout (steps body : List Command) : Bool → Int → List Command → Prop
  | endless {fromCraftingLog : Bool} {count : Int} {loop : Command} (hcount : count < 0)
      (hloop : loop.kind = .loop none) :
      Layout steps body fromCraftingLog count (endlessRound steps body fromCraftingLog ++ [loop])
  | single {fromCraftingLog : Bool} :
      Layout steps body fromCraftingLog 1 (crafting steps body fromCraftingLog 1)
  | gateAtTop {crafts : Nat} {gate loop : Command} (hgate : gate.kind = .craft crafts)
      (hloop : loop.kind = .loop none) :
      Layout steps body true crafts (gate :: (steps ++ body) ++ [loop])
  | gateAfterBody {crafts : Nat} {gate loop : Command} (hgate : gate.kind = .craft (crafts - 1))
      (hloop : loop.kind = .loop none) :
      Layout steps body false crafts (body ++ gate :: steps ++ [loop])

/-- The commands lead from the crafting log to the synthesis window. -/
def OpensSynthesis (steps : List Command) : Prop :=
  steps.map Command.kind =
    [.waitAddon "RecipeNote", .click "synthesize", .waitAddon "Synthesis"]

/-- A macro that is read in the standard wrap is laid out as a craft loop. -/
theorem exists_layout (reader : LineReader) {contents : List Char} {body : List Command}
    (hbody : reader.commands contents = .ok body) (fromCraftingLog echo : Bool) (seconds : Nat)
    {count : Int} (hcount : count ≠ 0) (hlimit : count ≤ Numeral.max32) :
    ∃ steps commands, OpensSynthesis steps ∧
      reader.commands (wrap (.standard echo seconds) fromCraftingLog count contents) =
        .ok commands ∧
      Layout steps body fromCraftingLog count commands := by
  obtain ⟨ms, hms⟩ : ∃ ms, Wait.milliseconds? (Nat.toDigits 10 seconds) = some ms :=
    ⟨_, Wait.milliseconds?_toDigits seconds⟩
  have hwrap := commands_wrap reader contents fromCraftingLog echo hcount hlimit hms
  rw [LineReader.commands_trim.mpr hbody] at hwrap
  refine ⟨opening seconds ms, _, rfl, hwrap, ?_⟩
  have hcases : count < 0 ∨ count = 1 ∨ ∃ crafts : Nat, count = crafts ∧ 1 < crafts := by
    by_cases hpositive : 1 < count
    · exact .inr (.inr ⟨count.toNat, by omega, by omega⟩)
    · omega
  obtain hnegative | rfl | ⟨crafts, rfl, hcrafts⟩ := hcases
  · have hone : count ≠ 1 := by omega
    have hfew : ¬1 < count := by omega
    have hlayout : Layout (opening seconds ms) body fromCraftingLog count
        (endlessRound (opening seconds ms) body fromCraftingLog ++ [startOver]) :=
      .endless hnegative rfl
    cases fromCraftingLog <;>
      simpa [commandsBefore, commandsAfter, hone, hfew, endlessRound] using hlayout
  · have hlayout : Layout (opening seconds ms) body fromCraftingLog 1
        (crafting (opening seconds ms) body fromCraftingLog 1) := .single
    cases fromCraftingLog <;> simpa [commandsBefore, commandsAfter, crafting] using hlayout
  · have hone : (crafts : Int) ≠ 1 := by omega
    cases fromCraftingLog with
    | true =>
      have hlayout : Layout (opening seconds ms) body true crafts
          (passing echo crafts :: (opening seconds ms ++ body) ++ [startOver]) :=
        .gateAtTop rfl rfl
      simpa [commandsBefore, commandsAfter, hone, hcrafts] using hlayout
    | false =>
      -- The body comes before the gate, so the first craft does not pass it.
      have hless : ((crafts : Int) - 1).toNat = crafts - 1 := by omega
      have hlayout : Layout (opening seconds ms) body false crafts
          (body ++ passing echo (crafts - 1) :: opening seconds ms ++ [startOver]) :=
        .gateAfterBody rfl rfl
      simpa [commandsBefore, commandsAfter, hone, hcrafts, hless] using hlayout

end CraftLoop

end GameMacros
