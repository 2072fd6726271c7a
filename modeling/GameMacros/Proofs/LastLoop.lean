import GameMacros.Proofs.LoopLines
import Mathlib.Data.List.TakeDrop

/-!
# The last loop of a macro

A macro can be queued with another count for its last loop. The count is set in the text, before the
text is read, by a scan that looks for loop lines in its own way. On lines where the scan and the
reader see the same, the macro is read as before but for the count of its last loop, or with a loop
at its end if it had none. They do not see the same everywhere: the scan does not take a lone
carriage return for the end of a line, it misses a loop whose verb comes after a modifier or is
interrupted by one, it takes some lines for loops that go to the game, and where brackets nest it
keeps less than the modifiers.
-/

namespace GameMacros

namespace Text

variable {s : List Char}

/-! ## Lines -/

/-- No line contains a line feed. -/
theorem not_mem_of_mem_lines {line : List Char} (h : line ∈ lines s) : '\n' ∉ line := by
  have hclose (current : List Char) (hcurrent : '\n' ∉ current) : '\n' ∉ closeLine current := by
    unfold closeLine
    split
    · simpa using hcurrent
    · simpa using hcurrent
  have hafter (current s : List Char) (hcurrent : '\n' ∉ current) :
      ∀ line ∈ linesAfter current s, '\n' ∉ line := by
    induction s generalizing current with
    | nil =>
      unfold linesAfter
      split
      · simp
      · simpa using hcurrent
    | cons c rest ih =>
      unfold linesAfter
      split
      · exact List.forall_mem_cons.mpr ⟨hclose current hcurrent, ih [] (by simp)⟩
      · next hfeed => exact ih _ (by simp [hcurrent, Ne.symm hfeed])
  exact hafter [] s (by simp) line h

/-- The statements of a text are those of its lines. -/
theorem statements_lines (s : List Char) : statements s = (lines s).flatMap statements := by
  have hclose (current : List Char) :
      statements (closeLine current) = statements current.reverse := by
    unfold closeLine
    split
    · next rest =>
      rw [List.reverse_cons]
      exact (statementsAfter_append_of_blank rfl [] rest.reverse).symm
    · rfl
  have hafter (current : List Char) :
      statements (current.reverse ++ s) = (linesAfter current s).flatMap statements := by
    induction s generalizing current with
    | nil =>
      cases current with
      | nil => rfl
      | cons c current => simp [linesAfter]
    | cons c rest ih =>
      unfold linesAfter
      split
      · next hfeed =>
        have hline : statements (current.reverse ++ '\n' :: rest) = _ :=
          statementsAfter_line [] current.reverse rest
        rw [hfeed, hline, List.flatMap_cons, hclose, ← ih []]
        rfl
      · rw [← ih, List.reverse_cons, List.append_assoc, List.singleton_append]
  exact hafter []

/-- A line that is not broken between its blanks is one statement. -/
theorem statements_eq_statement {line : List Char}
    (h : ∀ c ∈ trim line, isBreak c = false) : statements line = statement line := by
  rw [← statements_trim, statements_of_unbroken h]
  exact statement_congr (trim_trim line)

end Text

namespace LineReader

variable {reader : LineReader}

/-- Lines after lines are read one after the other. -/
theorem Reads.exists_of_append {lines others : List (List Char)} {commands : List Command}
    (h : Reads reader (lines ++ others) commands) :
    ∃ front back, commands = front ++ back ∧ Reads reader lines front ∧
      Reads reader others back := by
  induction lines generalizing commands with
  | nil => exact ⟨[], commands, rfl, .nil, h⟩
  | cons line lines ih =>
    rcases h with _ | ⟨hline, hrest⟩
    obtain ⟨front, back, rfl, hfront, hback⟩ := ih hrest
    exact ⟨_, back, (List.append_assoc ..).symm, .cons hline hfront, hback⟩

/-- Commands have no verb that no line is read with. -/
theorem Reads.forall_ne {lines : List (List Char)} {commands : List Command} {verb : Verb}
    (h : Reads reader lines commands) (hlines : ∀ line ∈ lines, ¬reader.ReadsAs line verb) :
    ∀ command ∈ commands, command.verb ≠ verb := by
  induction h with
  | nil => simp
  | @cons line command? rest commands hline _ ih =>
    obtain ⟨hfirst, hothers⟩ := List.forall_mem_cons.mp hlines
    refine List.forall_mem_append.mpr ⟨?_, ih hothers⟩
    intro command hmem hverb
    rw [Option.mem_toList] at hmem
    exact hfirst ⟨command, hmem ▸ hline, hverb⟩

/-- Lines that are not broken are read as they are. -/
theorem reads_flatMap_statements {lines : List (List Char)} {commands : List Command}
    (h : ∀ line ∈ lines, ∀ c ∈ Text.trim line, Text.isBreak c = false) :
    Reads reader (lines.flatMap Text.statements) commands ↔ Reads reader lines commands := by
  have hstatement : lines.flatMap Text.statements = lines.flatMap Text.statement :=
    List.flatMap_congr fun line hmem => Text.statements_eq_statement (h line hmem)
  rw [hstatement, reads_statements_iff]

/-- A text of lines that are not broken is read line by line. -/
theorem commands_joinLines_eq_ok_iff {lines : List (List Char)} {commands : List Command}
    (h : ∀ line ∈ lines, ∀ c ∈ Text.trim line, Text.isBreak c = false) :
    reader.commands (Text.joinLines lines) = .ok commands ↔ Reads reader lines commands := by
  rw [commands_eq_ok_iff, Text.statements_joinLines, reads_flatMap_statements h]

end LineReader

namespace CraftLoop

variable {reader : LineReader} {line : List Char} {command : Command}

/-! ## Tokens of a loop line -/

/-- No token closes behind the last closing bracket. -/
theorem tokensAfter_append_unclosed {back : List Char} (h : '>' ∉ back)
    (current : Option (List Char)) (s : List Char) :
    tokensAfter current (s ++ back) = tokensAfter current s := by
  induction s generalizing current with
  | nil =>
    rw [List.nil_append]
    induction back generalizing current with
    | nil => rfl
    | cons c back ih =>
      obtain ⟨hc, hothers⟩ := List.ne_and_not_mem_of_not_mem_cons h
      cases current with
      | none => exact ih hothers _
      | some token =>
        simp only [tokensAfter, if_neg (Ne.symm hc)]
        exact ih hothers _
  | cons c s ih =>
    cases current with
    | none => exact ih _
    | some token =>
      rw [List.cons_append, tokensAfter, tokensAfter]
      split
      · rw [ih]
      · exact ih _

/-- No token opens before the first opening bracket. -/
theorem tokensAfter_append_plain {front : List Char} (h : '<' ∉ front) (s : List Char) :
    tokensAfter none (front ++ s) = tokensAfter none s := by
  induction front with
  | nil => rfl
  | cons c front ih =>
    obtain ⟨hc, hothers⟩ := List.ne_and_not_mem_of_not_mem_cons h
    rw [List.cons_append, tokensAfter, if_neg (Ne.symm hc)]
    exact ih hothers

/-- Blanks around a line do not matter for its tokens. -/
theorem tokensAfter_trim (line : List Char) :
    tokensAfter none (Text.trim line) = tokensAfter none line := by
  obtain ⟨front, back, hfront, hback, _, heq⟩ := Text.exists_eq_trim line
  have hopen : '<' ∉ front := fun hmem => absurd (hfront _ hmem) (by decide)
  have hclose : '>' ∉ back := fun hmem => absurd (hback _ hmem) (by decide)
  conv_rhs => rw [heq]
  rw [tokensAfter_append_unclosed hclose, tokensAfter_append_plain hopen]

/-- A line in which brackets do not nest is a run of characters and tokens, and an open rest. The
token being read, if any, is known up to where the line begins. -/
theorem exists_chunks_of_opened (s : List Char) (opened : Option (List Char))
    (hopened : ∀ inner ∈ opened, '>' ∉ inner)
    (hflat : ∀ token ∈ tokensAfter (opened.map fun inner => ('<' :: inner).reverse) s,
      '<' ∉ token.tail) :
    ∃ chunks tail, opened.elim [] ('<' :: ·) ++ s = Modifiers.render chunks ++ tail ∧
      (∀ chunk ∈ chunks, chunk.Proper) ∧ '>' ∉ tail ∧
      tokensAfter (opened.map fun inner => ('<' :: inner).reverse) s =
        (Modifiers.inners chunks).map fun inner => '<' :: (inner ++ ['>']) := by
  induction s generalizing opened with
  | nil =>
    refine ⟨[], opened.elim [] ('<' :: ·), by simp [Modifiers.render], by simp, ?_, rfl⟩
    cases opened with
    | none => simp
    | some inner => simpa using hopened inner rfl
  | cons c s ih =>
    cases opened with
    | none =>
      by_cases hc : c = '<'
      · subst hc
        exact ih (some []) (by simp) hflat
      · have htokens : tokensAfter none (c :: s) = tokensAfter none s := by
          rw [tokensAfter, if_neg hc]
        rw [Option.map_none, htokens] at hflat ⊢
        obtain ⟨chunks, tail, heq, hproper, htail, hinners⟩ := ih none (by simp) hflat
        refine ⟨.char c :: chunks, tail, ?_, List.forall_mem_cons.mpr ⟨hc, hproper⟩, htail, hinners⟩
        exact congrArg (c :: ·) heq
    | some inner =>
      have hinner := hopened inner rfl
      by_cases hc : c = '>'
      · subst hc
        have htokens : tokensAfter (some ('<' :: inner).reverse) ('>' :: s) =
            ('<' :: (inner ++ ['>'])) :: tokensAfter none s := by
          rw [tokensAfter, if_pos rfl]
          simp
        rw [Option.map_some, htokens] at hflat ⊢
        obtain ⟨hfirst, hothers⟩ := List.forall_mem_cons.mp hflat
        obtain ⟨chunks, tail, heq, hproper, htail, hinners⟩ := ih none (by simp) hothers
        have hflatInner : '<' ∉ inner := fun hmem => hfirst (by simp [hmem])
        refine ⟨.token inner :: chunks, tail, ?_,
          List.forall_mem_cons.mpr ⟨⟨hflatInner, hinner⟩, hproper⟩, htail, ?_⟩
        · have hs : s = Modifiers.render chunks ++ tail := heq
          simp [Modifiers.render, Modifiers.Chunk.text, hs]
        · exact congrArg (_ :: ·) hinners
      · have htokens : tokensAfter (some ('<' :: inner).reverse) (c :: s) =
            tokensAfter (some ('<' :: (inner ++ [c])).reverse) s := by
          rw [tokensAfter, if_neg hc]
          simp
        rw [Option.map_some, htokens] at hflat ⊢
        obtain ⟨chunks, tail, heq, hothers⟩ := ih (some (inner ++ [c]))
          (by simpa [hinner] using Ne.symm hc) hflat
        exact ⟨chunks, tail, by simpa using heq, hothers⟩

/-- A loop with a count as it is written. -/
def counted (count : Nat) : List Char :=
  s!"/loop {count}".toList

/-- A loop with a count is written in decimal digits. -/
theorem counted_eq (count : Nat) : counted count = "/loop ".toList ++ Nat.toDigits 10 count := by
  have hstring : s!"/loop {count}" = "/loop " ++ toString count := rfl
  unfold counted
  rw [hstring, String.toList_append]
  simp

/-- A loop line in pieces. -/
def loopChunks (count : Nat) (inners : List (List Char)) : List Modifiers.Chunk :=
  (counted count).map .char ++ inners.flatMap fun inner => [.char ' ', .token inner]

/-- The characters of a text are written as the text. -/
theorem render_chars (s : List Char) : Modifiers.render (s.map .char) = s := by
  simp [Modifiers.render, List.flatMap_map, Modifiers.Chunk.text]

/-- A loop line is written as a loop with a count and then its tokens. -/
theorem render_loopChunks (count : Nat) (inners : List (List Char)) :
    Modifiers.render (loopChunks count inners) =
      counted count ++ inners.flatMap fun inner => ' ' :: '<' :: (inner ++ ['>']) := by
  have hsplit : Modifiers.render (loopChunks count inners) =
      Modifiers.render ((counted count).map .char) ++
        Modifiers.render (inners.flatMap fun inner => [.char ' ', .token inner]) :=
    List.flatMap_append
  rw [hsplit, render_chars]
  simp [Modifiers.render, List.flatMap_assoc, Modifiers.Chunk.text]

/-- A loop line is written with the tokens of another line. -/
theorem loopLine_eq {inners : List (List Char)} (count : Nat)
    (h : tokensAfter none line = inners.map fun inner => '<' :: (inner ++ ['>'])) :
    loopLine count line = Modifiers.render (loopChunks count inners) := by
  rw [loopLine, h, render_loopChunks, List.flatMap_map, counted]

/-- The tokens of a loop line are those that it was written with. -/
theorem inners_loopChunks (count : Nat) (inners : List (List Char)) :
    Modifiers.inners (loopChunks count inners) = inners := by
  have hchars (s : List Char) : Modifiers.inners (s.map .char) = [] := by
    simp [Modifiers.inners, List.filterMap_map, Modifiers.Chunk.inner?]
  have htokens : Modifiers.inners (inners.flatMap fun inner => [.char ' ', .token inner]) =
      inners := by
    induction inners with
    | nil => rfl
    | cons inner inners ih => exact congrArg (inner :: ·) ih
  have hsplit : Modifiers.inners (loopChunks count inners) =
      Modifiers.inners ((counted count).map .char) ++
        Modifiers.inners (inners.flatMap fun inner => [.char ' ', .token inner]) :=
    List.filterMap_append
  rw [hsplit, hchars, htokens, List.nil_append]

/-- There is no bracket in a loop without modifiers. -/
theorem not_mem_open_counted (count : Nat) : '<' ∉ counted count := by
  intro hmem
  rw [counted_eq] at hmem
  rcases List.mem_append.mp hmem with hmem | hmem
  · exact absurd hmem (by decide)
  · exact Numeral.forall_mem_toDigits (p := (· ≠ '<')) (by decide) count _ hmem rfl

/-- The pieces of a loop line are proper if its tokens are. -/
theorem proper_loopChunks (count : Nat) {inners : List (List Char)}
    (h : ∀ inner ∈ inners, (Modifiers.Chunk.token inner).Proper) :
    ∀ chunk ∈ loopChunks count inners, chunk.Proper := by
  intro chunk hmem
  rcases List.mem_append.mp hmem with hmem | hmem
  · obtain ⟨c, hc, rfl⟩ := List.mem_map.mp hmem
    rintro rfl
    exact not_mem_open_counted count hc
  · obtain ⟨inner, hinner, hmem⟩ := List.mem_flatMap.mp hmem
    rcases List.mem_cons.mp hmem with rfl | hmem
    · exact show ' ' ≠ '<' by decide
    · rw [List.mem_singleton.mp hmem]
      exact h inner hinner

/-- A loop with a count is trimmed. -/
theorem trim_counted (count : Nat) : Text.trim (counted count) = counted count := by
  rw [counted_eq]
  refine Text.trim_eq_self (by simp [Text.isBlank]) ?_
  rw [List.getLast?_append_of_ne_nil _ Nat.toDigits_ne_nil]
  exact fun c hc => Numeral.isBlank_toDigits count c (List.mem_of_getLast? hc)

/-- When the modifiers of a loop line are taken out, the loop and its count are left. -/
theorem trim_left_loopChunks (count : Nat) {inners : List (List Char)}
    (h : ∀ inner ∈ inners, Modifiers.isModifier inner = true) :
    Text.trim (Modifiers.render (Modifiers.left Modifiers.isModifier (loopChunks count inners))) =
      counted count := by
  have hchars (s : List Char) :
      Modifiers.left Modifiers.isModifier (s.map .char) = s.map .char :=
    List.filter_eq_self.mpr (by simp [Modifiers.Chunk.isLeft])
  have htokens :
      Modifiers.left Modifiers.isModifier (inners.flatMap fun inner => [.char ' ', .token inner]) =
        (List.replicate inners.length ' ').map .char := by
    induction inners with
    | nil => rfl
    | cons inner inners ih =>
      obtain ⟨hinner, hothers⟩ := List.forall_mem_cons.mp h
      have hrest := ih hothers
      unfold Modifiers.left at hrest ⊢
      rw [List.flatMap_cons, List.filter_append, hrest, List.length_cons, List.replicate_succ,
        List.filter_cons_of_pos rfl,
        List.filter_cons_of_neg (by simp [Modifiers.Chunk.isLeft, hinner])]
      rfl
  have hsplit : Modifiers.left Modifiers.isModifier (loopChunks count inners) =
      Modifiers.left Modifiers.isModifier ((counted count).map .char) ++
        Modifiers.left Modifiers.isModifier
          (inners.flatMap fun inner => [.char ' ', .token inner]) :=
    List.filter_append ..
  have hblank : ∀ c ∈ List.replicate inners.length ' ', Text.isBlank c = true := by
    intro c hc
    rw [List.eq_of_mem_replicate hc]
    rfl
  rw [hsplit, hchars, htokens, ← List.map_append, render_chars, Text.trim_append_of_blank _ hblank,
    trim_counted]

/-- A loop line is trimmed. -/
theorem trim_loopChunks (count : Nat) (inners : List (List Char)) :
    Text.trim (Modifiers.render (loopChunks count inners)) =
      Modifiers.render (loopChunks count inners) := by
  rw [render_loopChunks]
  rcases List.eq_nil_or_concat inners with rfl | ⟨others, last, rfl⟩
  · rw [List.flatMap_nil, List.append_nil, trim_counted]
  · -- The last token ends with its bracket.
    have hlast : counted count ++
        (others ++ [last]).flatMap (fun inner => ' ' :: '<' :: (inner ++ ['>'])) =
        (counted count ++ others.flatMap (fun inner => ' ' :: '<' :: (inner ++ ['>'])) ++
          ' ' :: '<' :: last) ++ ['>'] := by
      simp
    refine Text.trim_eq_self (by simp [counted_eq, Text.isBlank]) ?_
    rw [List.concat_eq_append, hlast, List.getLast?_concat]
    simp [Text.isBlank]

/-- A loop line is read as a loop with its count and its modifiers. -/
theorem command_loopChunks (reader : LineReader) {count : Nat} (hcount : count ≤ Numeral.max32)
    {inners : List (List Char)} (hproper : ∀ inner ∈ inners, (Modifiers.Chunk.token inner).Proper)
    (hknown : ∀ inner ∈ inners, Modifiers.isModifier inner = true) {modifiers : Modifiers}
    (hmodifiers : Modifiers.ofInners inners = some modifiers) :
    reader.command (Modifiers.render (loopChunks count inners)) =
      .ok (some
        { text := String.ofList (Modifiers.render (loopChunks count inners))
          kind := .loop (some count)
          wait := modifiers.wait
          maxWait := modifiers.maxWaitOrDefault
          index := modifiers.index
          echo := modifiers.echo }) := by
  have hextract : Modifiers.extract (Modifiers.render (loopChunks count inners) ++ []) =
      .ok (modifiers, counted count) := by
    refine (Modifiers.extract_render_eq_ok_iff (proper_loopChunks count hproper)
      (List.not_mem_nil)).mpr ⟨by rw [inners_loopChunks, hmodifiers], ?_⟩
    rw [List.append_nil, trim_left_loopChunks count hknown]
  rw [List.append_nil] at hextract
  have hkind (line : String) :
      Line.kindAndDelay reader line modifiers (counted count) = .ok (.loop (some count), none) := by
    rw [counted_eq]
    have hsplit : Line.splitVerb? ("/loop ".toList ++ Nat.toDigits 10 count) =
        some ("loop".toList, Nat.toDigits 10 count) :=
      Line.splitVerb?_count (show "loop".toList ≠ [] by decide) (Text.forall_of_all rfl) count
    have hverb : Verb.ofWord? (String.ofList (Text.lower "loop".toList)) = some .loop := rfl
    have hfound : Line.kindOf .loop line (Nat.toDigits 10 count) modifiers =
        .ok (.loop (some count)) :=
      Line.kindOf_of_makes (.loop (Numeral.count?_toDigits hcount)) line
    exact Line.kindAndDelay_of_verb hsplit hverb hfound
  exact LineReader.command_of_extract (trim_loopChunks count inners)
    (by simp [render_loopChunks, counted_eq]) hextract (hkind _)

/-- The characters of a token are read from the text. -/
theorem mem_of_mem_tokensAfter {current : Option (List Char)} {s token : List Char} {c : Char}
    (h : token ∈ tokensAfter current s) (hc : c ∈ token) : c ∈ current.getD [] ∨ c ∈ s := by
  induction s generalizing current with
  | nil => cases h
  | cons first s ih =>
    cases current with
    | none =>
      rcases ih h with hmem | hmem
      · by_cases hopen : first = '<'
        · rw [if_pos hopen, Option.getD_some, ← hopen] at hmem
          exact .inr (List.mem_cons.mpr (.inl (List.mem_singleton.mp hmem)))
        · rw [if_neg hopen] at hmem
          cases hmem
      · exact .inr (List.mem_cons_of_mem _ hmem)
    | some opened =>
      have hlonger (hmem : c ∈ first :: opened) : c ∈ opened ∨ c ∈ first :: s := by
        rcases List.mem_cons.mp hmem with rfl | hmem
        · exact .inr List.mem_cons_self
        · exact .inl hmem
      rw [tokensAfter] at h
      split at h
      · next hclose =>
        rcases List.mem_cons.mp h with rfl | hmem
        · exact hlonger (hclose ▸ List.mem_reverse.mp hc)
        · rcases ih hmem with hmem | hmem
          · cases hmem
          · exact .inr (List.mem_cons_of_mem _ hmem)
      · rcases ih h with hmem | hmem
        · exact hlonger hmem
        · exact .inr (List.mem_cons_of_mem _ hmem)

/-- A loop line is read as the loop that is there, with another count. -/
def withCount (count : Nat) (loop : Command) : Command :=
  { loop with
    text := String.ofList (loopLine count loop.text.toList)
    kind := .loop (some count) }

/-- The tokens of a line are among its pieces. -/
theorem token_mem_of_mem_inners {chunks : List Modifiers.Chunk} {inner : List Char}
    (h : inner ∈ Modifiers.inners chunks) : .token inner ∈ chunks := by
  obtain ⟨chunk, hchunk, hfound⟩ := List.mem_filterMap.mp h
  cases chunk with
  | char c => cases hfound
  | token found => exact Option.some.inj hfound ▸ hchunk

/-- Where a loop is left, every token was a modifier. -/
theorem isModifier_of_isLoop {chunks : List Modifiers.Chunk} {tail word arguments : List Char}
    (h : Line.IsLoop
      (Text.trim (Modifiers.render (Modifiers.left Modifiers.isModifier chunks) ++ tail)) word
        arguments) :
    ∀ inner ∈ Modifiers.inners chunks, Modifiers.isModifier inner = true := by
  intro inner hinner
  by_contra hunknown
  -- Any other token would be left, and a loop has no bracket.
  have hleft : .token inner ∈ Modifiers.left Modifiers.isModifier chunks :=
    List.mem_filter.mpr
      ⟨token_mem_of_mem_inners hinner, by simpa [Modifiers.Chunk.isLeft] using hunknown⟩
  have hopen : '<' ∈ Modifiers.render (Modifiers.left Modifiers.isModifier chunks) :=
    List.mem_flatMap.mpr ⟨_, hleft, List.mem_cons_self⟩
  exact h.not_mem_open (Text.mem_trim_of_mem (List.mem_append_left _ hopen) rfl)

/-- The loop line that replaces the line of a loop is read as the loop with the other count. -/
theorem command_loopLine {count : Nat} (hcount : count ≤ Numeral.max32)
    (hcommand : reader.command line = .ok (some command)) (hloop : command.verb = .loop)
    (hflat : ∀ token ∈ tokensAfter none line, '<' ∉ token.tail) :
    reader.command (loopLine count line) = .ok (some (withCount count command)) := by
  obtain ⟨modifiers, rest, delay, hextract, hkind, hfields⟩ := LineReader.exists_of_command hcommand
  obtain ⟨rfl, word, arguments, hisLoop⟩ := Line.exists_isLoop hkind hloop
  rw [← tokensAfter_trim] at hflat
  obtain ⟨chunks, tail, hchunks, hproper, htail, htokens⟩ :=
    exists_chunks_of_opened (Text.trim line) none (by simp) hflat
  have hline : Text.trim line = Modifiers.render chunks ++ tail := hchunks
  rw [hline] at hextract
  obtain ⟨hmodifiers, hrest⟩ := (Modifiers.extract_render_eq_ok_iff hproper htail).mp hextract
  have htext : loopLine count command.text.toList =
      Modifiers.render (loopChunks count (Modifiers.inners chunks)) := by
    rw [hfields, String.toList_ofList]
    exact loopLine_eq count htokens
  rw [loopLine_eq count ((tokensAfter_trim line).symm.trans htokens),
    command_loopChunks reader hcount
      (fun inner hinner => hproper _ (token_mem_of_mem_inners hinner))
      (isModifier_of_isLoop (hrest ▸ hisLoop)) hmodifiers,
    withCount, htext, hfields]
  rfl

/-- The loop line that is added is read as a loop without modifiers. -/
theorem command_loopLine_nil (reader : LineReader) {count : Nat} (hcount : count ≤ Numeral.max32) :
    reader.command (loopLine count []) =
      .ok (some { text := String.ofList (loopLine count []), kind := .loop (some count) }) := by
  have htext : loopLine count [] = Modifiers.render (loopChunks count []) := loopLine_eq count rfl
  have hmodifiers : Modifiers.ofInners [] = some {} := rfl
  rw [htext]
  exact command_loopChunks reader hcount (List.forall_mem_nil _) (List.forall_mem_nil _) hmodifiers

/-! ## The last loop -/

/-- The commands are as before but for the count of the last loop, or there was no loop and one is
at the end. -/
inductive LastLoopSet (count : Nat) : List Command → List Command → Prop
  | replaced {before after : List Command} {loop : Command} (hloop : loop.verb = .loop)
      (hlast : ∀ command ∈ after, command.verb ≠ .loop) :
      LastLoopSet count (before ++ loop :: after) (before ++ withCount count loop :: after)
  | added {commands : List Command} (hnone : ∀ command ∈ commands, command.verb ≠ .loop) :
      LastLoopSet count commands
        (commands ++ [{ text := String.ofList (loopLine count []), kind := .loop (some count) }])

/-- The scan for loop lines and the reader see the same on a line: it ends where the scan takes it
to end, a loop begins with its verb, what looks like a loop is not for the game, and its brackets do
not nest. -/
structure InPlainSight (reader : LineReader) (line : List Char) : Prop where
  unbroken : '\r' ∉ Text.trim line
  verb_first : reader.ReadsAs line .loop →
    (Text.dropHeadBy Text.sameLetter "/loop".toList (Text.trim line)).isSome = true
  not_native : isLoopLine line = true → ¬reader.ReadsAs line .native
  flat : isLoopLine line = true → ∀ token ∈ tokensAfter none line, '<' ∉ token.tail

instance (reader : LineReader) (line : List Char) : Decidable (InPlainSight reader line) :=
  decidable_of_iff
    ('\r' ∉ Text.trim line ∧
      (reader.ReadsAs line .loop →
        (Text.dropHeadBy Text.sameLetter "/loop".toList (Text.trim line)).isSome = true) ∧
      (isLoopLine line = true → ¬reader.ReadsAs line .native) ∧
      (isLoopLine line = true → ∀ token ∈ tokensAfter none line, '<' ∉ token.tail))
    ⟨fun ⟨unbroken, verb_first, not_native, flat⟩ => ⟨unbroken, verb_first, not_native, flat⟩,
      fun ⟨unbroken, verb_first, not_native, flat⟩ => ⟨unbroken, verb_first, not_native, flat⟩⟩

/-- A line that is no loop line is not read as a loop. -/
theorem InPlainSight.not_loop (h : InPlainSight reader line) (hline : isLoopLine line = false) :
    ¬reader.ReadsAs line .loop := by
  rintro ⟨command, hcommand, hloop⟩
  have hfound := isLoopLine_of_loop hcommand hloop (h.verb_first ⟨command, hcommand, hloop⟩)
  cases hline.symm.trans hfound

/-- A line in plain sight is not broken between its blanks. -/
theorem InPlainSight.isBreak_eq_false {body : List Char} (h : InPlainSight reader line)
    (hmem : line ∈ Text.lines body) : ∀ c ∈ Text.trim line, Text.isBreak c = false := by
  intro c hc
  have hreturn : c ≠ '\r' := fun heq => h.unbroken (heq ▸ hc)
  have hfeed : c ≠ '\n' := fun heq =>
    Text.not_mem_of_mem_lines hmem (heq ▸ Text.mem_of_mem_trim hc)
  simp [Text.isBreak, hreturn, hfeed]

/-- A loop line is not broken if the line is not that it was written for. -/
theorem isBreak_loopLine (count : Nat) (h : ∀ c ∈ Text.trim line, Text.isBreak c = false) :
    ∀ c ∈ Text.trim (loopLine count line), Text.isBreak c = false := by
  intro c hc
  rcases List.mem_append.mp (Text.mem_of_mem_trim hc) with hmem | hmem
  · rw [← counted, counted_eq] at hmem
    rcases List.mem_append.mp hmem with hmem | hmem
    · exact Text.forall_of_all rfl c hmem
    · exact Numeral.forall_mem_toDigits (p := (Text.isBreak · = false)) (by decide) count c hmem
  · obtain ⟨token, htoken, hmem⟩ := List.mem_flatMap.mp hmem
    rw [← tokensAfter_trim] at htoken
    rcases List.mem_cons.mp hmem with rfl | hmem
    · rfl
    · rcases mem_of_mem_tokensAfter htoken hmem with hmem | hmem
      · cases hmem
      · exact h c hmem

/-- The count is set on the last loop line, or on a new line if there is none. -/
theorem setLastLoop_cases (count : Nat) (body : List Char) :
    (∃ before line after, Text.lines body = before ++ line :: after ∧ isLoopLine line = true ∧
      (∀ line ∈ after, isLoopLine line = false) ∧
      setLastLoop count body = Text.joinLines (before ++ loopLine count line :: after)) ∨
    (∀ line ∈ Text.lines body, isLoopLine line = false) ∧
      setLastLoop count body = Text.joinLines (Text.lines body ++ [loopLine count []]) := by
  let others := (Text.lines body).reverse.takeWhile (!isLoopLine ·)
  have hsplit : others ++ (Text.lines body).reverse.dropWhile (!isLoopLine ·) =
      (Text.lines body).reverse :=
    List.takeWhile_append_dropWhile
  have hothers : ∀ line ∈ others, isLoopLine line = false := by
    intro line hmem
    simpa using List.all_eq_true.mp List.all_takeWhile line hmem
  unfold setLastLoop setFirstLoop
  rw [List.span_eq_takeWhile_dropWhile]
  cases hdrop : (Text.lines body).reverse.dropWhile (!isLoopLine ·) with
  | nil =>
    right
    rw [hdrop, List.append_nil] at hsplit
    rw [hsplit] at hothers
    exact ⟨fun line hmem => hothers line (List.mem_reverse.mpr hmem), by simp⟩
  | cons line before =>
    left
    have hline : isLoopLine line = true := by
      have hhead := List.head?_dropWhile_not (!isLoopLine ·) (Text.lines body).reverse
      rw [hdrop] at hhead
      simpa using hhead
    rw [hdrop] at hsplit
    refine ⟨before.reverse, line, others.reverse, ?_, hline, ?_, ?_⟩
    · rw [← List.reverse_reverse (Text.lines body), ← hsplit]
      simp
    · exact fun line hmem => hothers line (List.mem_reverse.mp hmem)
    · simp [others]

variable {body : List Char} {count : Nat} {commands : List Command}

/-- Setting the last loop of a body that is in plain sight sets the count of the last loop that is
read, or adds a loop at the end. -/
theorem exists_lastLoopSet (hcount : count ≤ Numeral.max32)
    (hsight : ∀ line ∈ Text.lines body, InPlainSight reader line)
    (hcommands : reader.commands body = .ok commands) :
    ∃ changed, reader.commands (setLastLoop count body) = .ok changed ∧
      LastLoopSet count commands changed := by
  have hunbroken : ∀ line ∈ Text.lines body, ∀ c ∈ Text.trim line, Text.isBreak c = false :=
    fun line hmem => (hsight line hmem).isBreak_eq_false hmem
  have hreads : reader.Reads (Text.lines body) commands := by
    rw [LineReader.commands_eq_ok_iff, Text.statements_lines] at hcommands
    exact (LineReader.reads_flatMap_statements hunbroken).mp hcommands
  rcases setLastLoop_cases count body with
    ⟨before, line, after, hlines, hline, hafter, hset⟩ | ⟨hnone, hset⟩
  · rw [hlines] at hsight hreads hunbroken
    have hmem : line ∈ before ++ line :: after := List.mem_append_right _ List.mem_cons_self
    obtain ⟨front, _, rfl, hfront, hback⟩ := hreads.exists_of_append
    rcases hback with _ | ⟨hcommand, hrest⟩
    obtain ⟨loop, rfl, hloop⟩ :=
      exists_loop_of_isLoopLine hcommand hline ((hsight line hmem).not_native hline)
    have hlast := hrest.forall_ne fun other hother =>
      (hsight other (List.mem_append_right _ (List.mem_cons_of_mem _ hother))).not_loop
        (hafter other hother)
    refine ⟨_, ?_, .replaced hloop hlast⟩
    rw [hset, LineReader.commands_joinLines_eq_ok_iff]
    · exact hfront.append
        (.cons (command_loopLine hcount hcommand hloop ((hsight line hmem).flat hline)) hrest)
    · obtain ⟨hbefore, hothers⟩ := List.forall_mem_append.mp hunbroken
      obtain ⟨hline, hothers⟩ := List.forall_mem_cons.mp hothers
      exact List.forall_mem_append.mpr
        ⟨hbefore, List.forall_mem_cons.mpr ⟨isBreak_loopLine count hline, hothers⟩⟩
  · have hnoLoop := hreads.forall_ne fun line hmem => (hsight line hmem).not_loop (hnone line hmem)
    refine ⟨_, ?_, .added hnoLoop⟩
    rw [hset, LineReader.commands_joinLines_eq_ok_iff]
    · exact hreads.append (.cons (command_loopLine_nil reader hcount) .nil)
    · have hadded : ∀ c ∈ Text.trim (loopLine count []), Text.isBreak c = false :=
        isBreak_loopLine count (List.forall_mem_nil _)
      exact List.forall_mem_append.mpr ⟨hunbroken, List.forall_mem_singleton.mpr hadded⟩

/-- Lines that end in either way, a comment, and two loops, the last of which has modifiers. -/
theorem exists_lastLoopSet_of_two_loops :
    ∃ commands changed,
      (LineReader.ofSettings {}).commands
          "# twice\r\n/loop 2\n  /LOOP 3 <wait.1> <echo>\r\n/echo done".toList =
        .ok commands ∧
      (LineReader.ofSettings {}).commands
          (setLastLoop 5 "# twice\r\n/loop 2\n  /LOOP 3 <wait.1> <echo>\r\n/echo done".toList) =
        .ok changed ∧
      LastLoopSet 5 commands changed := by
  let body := "# twice\r\n/loop 2\n  /LOOP 3 <wait.1> <echo>\r\n/echo done".toList
  have hread : ((LineReader.ofSettings {}).commands body).isOk = true := by decide +kernel
  have hsight : ∀ line ∈ Text.lines body, InPlainSight (.ofSettings {}) line := by decide +kernel
  cases hcommands : (LineReader.ofSettings {}).commands body with
  | error error =>
    rw [hcommands] at hread
    cases hread
  | ok commands =>
    obtain ⟨changed, hchanged, hset⟩ :=
      exists_lastLoopSet (show 5 ≤ Numeral.max32 by decide) hsight hcommands
    exact ⟨commands, changed, rfl, hchanged, hset⟩

/-- Where a macro has a loop there are as many commands as before. -/
theorem LastLoopSet.length_eq {changed : List Command} (h : LastLoopSet count commands changed)
    (hloop : ∃ command ∈ commands, command.verb = .loop) : changed.length = commands.length := by
  cases h with
  | replaced => simp
  | added hnone =>
    obtain ⟨command, hmem, hverb⟩ := hloop
    exact absurd hverb (hnone command hmem)

/-- The scan does not see the loop between lone carriage returns and adds another one. -/
theorem not_lastLoopSet_between_returns :
    ∃ commands changed,
      (LineReader.ofSettings {}).commands "/echo a\r/loop 2\r/echo b".toList = .ok commands ∧
      (LineReader.ofSettings {}).commands (setLastLoop 5 "/echo a\r/loop 2\r/echo b".toList) =
        .ok changed ∧
      ¬LastLoopSet 5 commands changed := by
  let native (text : String) : Command := { text, kind := .native text }
  let loop : Command := { text := "/loop 2", kind := .loop (some 2) }
  let added : Command := { text := "/loop 5", kind := .loop (some 5) }
  refine ⟨[native "/echo a", loop, native "/echo b"],
    [native "/echo a", loop, native "/echo b", added], by decide +kernel, by decide +kernel, ?_⟩
  intro hset
  have hmem : loop ∈ [native "/echo a", loop, native "/echo b"] :=
    List.mem_cons_of_mem _ List.mem_cons_self
  exact absurd (hset.length_eq ⟨loop, hmem, rfl⟩) (by decide)

end CraftLoop

end GameMacros
