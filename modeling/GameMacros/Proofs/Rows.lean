import GameMacros.Proofs.LoopLines

/-!
# Rows

The rows of a text are what its line ends stand between. A macro is read row by row. Texts that are
joined line by line have the rows of all of them, so they are read one after the other, with the
numbers of their lines moved on. Blanks around a text only put blank rows around its own, and these
count, but nothing is read off them.
-/

namespace GameMacros

namespace Text

variable {s t : List Char}

/-! ## Rows -/

/-- No carriage return is left. -/
theorem not_mem_unifyBreaks (s : List Char) : '\r' ∉ unifyBreaks s := by
  induction s using unifyBreaks.induct with
  | case1 rest ih => simpa [unifyBreaks] using ih
  | case2 rest hrest ih => simpa [unifyBreaks.eq_2 _ hrest] using ih
  | case3 c rest hpair hreturn ih =>
    rw [unifyBreaks.eq_3 _ _ hpair hreturn]
    exact List.not_mem_cons_of_ne_of_not_mem (fun heq => hreturn heq.symm) ih
  | case4 => exact List.not_mem_nil

/-- Line ends are made the same on both sides of a place that does not stand inside one. -/
theorem unifyBreaks_append (h : s.getLast? = some '\r' → t.head? ≠ some '\n') :
    unifyBreaks (s ++ t) = unifyBreaks s ++ unifyBreaks t := by
  induction s using unifyBreaks.induct with
  | case1 rest ih =>
    have hrest := ih fun hlast => h (by simp [List.getLast?_cons, hlast])
    simp only [List.cons_append, unifyBreaks, hrest]
  | case2 rest hrest ih =>
    have hothers := ih fun hlast => h (by simp [List.getLast?_cons, hlast])
    have hfeed : ∀ more, rest ++ t = '\n' :: more → False := by
      intro more hmore
      cases rest with
      | nil => exact h rfl (by simpa using congrArg List.head? hmore)
      | cons c rest => exact hrest rest (by rw [(List.cons.inj hmore).1])
    rw [List.cons_append, unifyBreaks.eq_2 _ hfeed, unifyBreaks.eq_2 _ hrest, hothers]
    rfl
  | case3 c rest hpair hreturn ih =>
    have hothers := ih fun hlast => h (by simp [List.getLast?_cons, hlast])
    have hpair' : ∀ more, c = '\r' → rest ++ t = '\n' :: more → False :=
      fun _ heq _ => hreturn heq
    rw [List.cons_append, unifyBreaks.eq_3 _ _ hpair' hreturn, unifyBreaks.eq_3 _ _ hpair hreturn,
      hothers]
    rfl
  | case4 => rfl

/-- A text without line ends has none to change. -/
theorem unifyBreaks_of_unbroken (h : ∀ c ∈ s, isBreak c = false) : unifyBreaks s = s := by
  induction s with
  | nil => rfl
  | cons c s ih =>
    obtain ⟨hc, hothers⟩ := List.forall_mem_cons.mp h
    have hreturn : c = '\r' → False := by
      rintro rfl
      cases hc
    rw [unifyBreaks.eq_3 _ _ (fun _ heq _ => hreturn heq) hreturn, ih hothers]

/-- The rows of a text: its lines, and what stands behind the last line end. -/
def rows (s : List Char) : List (List Char) :=
  (unifyBreaks s).splitOn '\n'

/-- A row is what stands before a line feed. -/
theorem splitOn_append_feed (s t : List Char) :
    (s ++ '\n' :: t).splitOn '\n' = s.splitOn '\n' ++ t.splitOn '\n' :=
  List.splitOnP_append_cons s t (beq_self_eq_true '\n')

/-- A text without separators is one piece. -/
theorem splitOn_of_not_mem {separator : Char} (h : separator ∉ s) : s.splitOn separator = [s] := by
  refine List.splitOnP_eq_singleton fun c hc => beq_eq_false_iff_ne.mpr ?_
  rintro rfl
  exact h hc

/-- What pieces are joined to holds nothing but the pieces and the separators. -/
theorem mem_intercalate {separator c : Char} {pieces : List (List Char)}
    (h : c ∈ List.intercalate [separator] pieces) :
    c = separator ∨ ∃ piece ∈ pieces, c ∈ piece := by
  induction pieces with
  | nil => cases h
  | cons piece pieces ih =>
    cases pieces with
    | nil => exact .inr ⟨piece, List.mem_singleton_self _, by simpa [List.intercalate] using h⟩
    | cons next others =>
      rw [List.intercalate_cons_cons, List.append_assoc, List.mem_append, List.mem_append] at h
      obtain hpiece | hseparator | hothers := h
      · exact .inr ⟨piece, List.mem_cons_self, hpiece⟩
      · exact .inl (List.mem_singleton.mp hseparator)
      · exact (ih hothers).imp_right fun ⟨other, hother, hc⟩ =>
          ⟨other, List.mem_cons_of_mem _ hother, hc⟩

/-- A text without carriage returns has its lines as rows, and maybe an empty row behind them. -/
theorem splitOn_eq_lines (h : '\r' ∉ s) :
    s.splitOn '\n' = lines s ∨ s.splitOn '\n' = lines s ++ [[]] := by
  have hafter (current : List Char) (hcurrent : '\r' ∉ current) (hopen : '\n' ∉ current) :
      (current.reverse ++ s).splitOn '\n' = linesAfter current s ∨
        (current.reverse ++ s).splitOn '\n' = linesAfter current s ++ [[]] := by
    induction s generalizing current with
    | nil =>
      rw [List.append_nil, splitOn_of_not_mem (mt List.mem_reverse.mp hopen), linesAfter]
      cases current with
      | nil => exact .inr rfl
      | cons c current => exact .inl rfl
    | cons c s ih =>
      obtain ⟨hc, hothers⟩ := List.ne_and_not_mem_of_not_mem_cons h
      rw [linesAfter]
      split
      · next hfeed =>
        have hclose : closeLine current = current.reverse := by
          unfold closeLine
          split
          · simp at hcurrent
          · rfl
        rw [hfeed, splitOn_append_feed, splitOn_of_not_mem (mt List.mem_reverse.mp hopen), hclose,
          List.singleton_append, List.cons_append, List.cons_inj_right, List.cons_inj_right]
        exact ih hothers [] List.not_mem_nil List.not_mem_nil
      · next hfeed =>
        have hrest := ih hothers (c :: current) (List.not_mem_cons_of_ne_of_not_mem hc hcurrent)
          (List.not_mem_cons_of_ne_of_not_mem (Ne.symm hfeed) hopen)
        rwa [List.reverse_cons, List.append_assoc, List.singleton_append] at hrest
  exact hafter [] List.not_mem_nil List.not_mem_nil

/-- The rows of two texts with a line feed between them follow one another. A carriage return in
front of the line feed would belong to the same line end. -/
theorem rows_line (h : s.getLast? ≠ some '\r') (t : List Char) :
    rows (s ++ '\n' :: t) = rows s ++ rows t := by
  rw [rows, unifyBreaks_append fun hlast => absurd hlast h,
    unifyBreaks.eq_3 _ _ (by simp) (by simp), splitOn_append_feed]
  rfl

/-- A text without line ends is one row. -/
theorem rows_of_unbroken (h : ∀ c ∈ s, isBreak c = false) : rows s = [s] := by
  rw [rows, unifyBreaks_of_unbroken h]
  refine splitOn_of_not_mem fun hmem => ?_
  cases h _ hmem

/-- Texts that are joined line by line have the rows of all of them. -/
theorem rows_joinLines {parts : List (List Char)} (hne : parts ≠ [])
    (h : ∀ part ∈ parts, part.getLast? ≠ some '\r') :
    rows (joinLines parts) = parts.flatMap rows := by
  unfold joinLines
  induction parts with
  | nil => exact absurd rfl hne
  | cons part parts ih =>
    obtain ⟨hpart, hothers⟩ := List.forall_mem_cons.mp h
    cases parts with
    | nil => simp
    | cons next parts =>
      rw [List.intercalate_cons_cons, List.append_assoc, List.singleton_append, rows_line hpart,
        ih (by simp) hothers]
      rfl

/-! ## Blank rows -/

/-- Blanks in front of a text only put blank rows in front. -/
theorem exists_splitOn_append {front : List Char} (h : ∀ c ∈ front, isBlank c = true)
    (s : List Char) :
    ∃ blank, ((front ++ s).splitOn '\n').map trim =
      List.replicate blank [] ++ (s.splitOn '\n').map trim := by
  induction front with
  | nil => exact ⟨0, rfl⟩
  | cons c front ih =>
    obtain ⟨hc, hothers⟩ := List.forall_mem_cons.mp h
    obtain ⟨blank, hblank⟩ := ih hothers
    unfold List.splitOn at hblank ⊢
    rw [List.cons_append, List.splitOnP_cons_eq_if_modifyHead]
    split
    · exact ⟨blank + 1, congrArg ([] :: ·) hblank⟩
    · refine ⟨blank, ?_⟩
      rw [← hblank]
      cases hrows : List.splitOnP (· == '\n') (front ++ s) with
      | nil => rfl
      | cons row rows =>
        rw [List.modifyHead_cons, List.map_cons, List.map_cons, trim_cons_of_blank hc]

/-- What is put behind a text goes on with its last piece. -/
theorem exists_splitOn_append_of_not_mem {separator : Char} {back : List Char}
    (h : separator ∉ back) (s : List Char) :
    ∃ parts last, s.splitOn separator = parts ++ [last] ∧
      (s ++ back).splitOn separator = parts ++ [last ++ back] := by
  induction s with
  | nil => exact ⟨[], [], rfl, splitOn_of_not_mem h⟩
  | cons first s ih =>
    obtain ⟨parts, last, hparts, hlonger⟩ := ih
    unfold List.splitOn at hparts hlonger ⊢
    rw [List.cons_append, List.splitOnP_cons_eq_if_modifyHead,
      List.splitOnP_cons_eq_if_modifyHead, hparts, hlonger]
    split
    · exact ⟨[] :: parts, last, rfl, rfl⟩
    · cases parts with
      | nil => exact ⟨[], first :: last, rfl, rfl⟩
      | cons part parts => exact ⟨(first :: part) :: parts, last, rfl, rfl⟩

/-- Blanks behind a text only put blank rows behind. -/
theorem exists_splitOn_append_blank {back : List Char} (h : ∀ c ∈ back, isBlank c = true)
    (s : List Char) :
    ∃ blank, ((s ++ back).splitOn '\n').map trim =
      (s.splitOn '\n').map trim ++ List.replicate blank [] := by
  induction back generalizing s with
  | nil => exact ⟨0, by simp⟩
  | cons c back ih =>
    obtain ⟨hc, hothers⟩ := List.forall_mem_cons.mp h
    obtain ⟨blank, hblank⟩ := ih hothers (s ++ [c])
    rw [List.append_assoc, List.singleton_append] at hblank
    by_cases hfeed : c = '\n'
    · refine ⟨blank + 1, ?_⟩
      have hrow : ([] : List Char).splitOn '\n' = [[]] := rfl
      rw [hblank, hfeed, splitOn_append_feed, hrow, List.map_append, List.append_assoc,
        List.replicate_succ]
      rfl
    · have hsingle : '\n' ∉ [c] := by simpa using Ne.symm hfeed
      obtain ⟨rows, last, hrows, hlonger⟩ := exists_splitOn_append_of_not_mem hsingle s
      refine ⟨blank, ?_⟩
      rw [hblank, hlonger, hrows, List.map_append, List.map_append, List.map_singleton,
        List.map_singleton, trim_concat_of_blank hc]

/-- A line end of a blank text is blank. -/
theorem isBlank_unifyBreaks (h : ∀ c ∈ s, isBlank c = true) :
    ∀ c ∈ unifyBreaks s, isBlank c = true := by
  induction s using unifyBreaks.induct with
  | case1 rest ih =>
    exact List.forall_mem_cons.mpr ⟨rfl, ih fun c hc => h c (by simp [hc])⟩
  | case2 rest hrest ih =>
    rw [unifyBreaks.eq_2 _ hrest]
    exact List.forall_mem_cons.mpr ⟨rfl, ih fun c hc => h c (by simp [hc])⟩
  | case3 c rest hpair hreturn ih =>
    rw [unifyBreaks.eq_3 _ _ hpair hreturn]
    obtain ⟨hc, hothers⟩ := List.forall_mem_cons.mp h
    exact List.forall_mem_cons.mpr ⟨hc, ih hothers⟩
  | case4 => exact h

/-- The blank lines in front of all others. -/
def leadingBlanks (s : List Char) : Nat :=
  ((lines (unifyBreaks s)).takeWhile fun line => (trim line).isEmpty).length

/-- The lines in front that are blank are the rows in front that are blank, if there is anything
behind them. -/
theorem leadingBlanks_eq {blank : Nat} {row : List Char} {others : List (List Char)}
    (h : (rows s).map trim = List.replicate blank [] ++ row :: others) (hrow : row ≠ []) :
    leadingBlanks s = blank := by
  have hempty : row.isEmpty = false := by simpa using hrow
  have hall : ∀ row ∈ List.replicate blank ([] : List Char), row.isEmpty = true := by
    intro row hmem
    rw [List.eq_of_mem_replicate hmem]
    rfl
  have hrows : (((rows s).map trim).takeWhile List.isEmpty).length = blank := by
    rw [h, List.takeWhile_append_of_pos hall, List.takeWhile_cons_of_neg (by simp [hempty]),
      List.append_nil, List.length_replicate]
  have hlines : leadingBlanks s =
      (((lines (unifyBreaks s)).map trim).takeWhile List.isEmpty).length := by
    rw [List.takeWhile_map, List.length_map]
    rfl
  rw [hlines, ← hrows]
  obtain hsame | hlonger := splitOn_eq_lines (not_mem_unifyBreaks s)
  · rw [rows, hsame]
  · rw [rows, hlonger, List.map_append, List.takeWhile_append]
    split
    · next hfull =>
      -- Otherwise every row would be blank.
      have hblank : ∀ row ∈ (rows s).map trim, row.isEmpty = true := by
        rw [rows, hlonger, List.map_append]
        refine List.forall_mem_append.mpr ⟨?_, by simp [trim, trimStart, trimEnd]⟩
        rw [← (List.takeWhile_sublist List.isEmpty).eq_of_length hfull]
        exact List.all_eq_true.mp List.all_takeWhile
      rw [h] at hblank
      have hfirst := hblank row (by simp)
      simp [hempty] at hfirst
    · rfl

/-- Trimming a text that is not blank takes away its blank rows in front, and blank ones behind. -/
theorem exists_rows_trim (h : trim s ≠ []) :
    ∃ row others blank, (rows (trim s)).map trim = row :: others ∧ row ≠ [] ∧
      (rows s).map trim =
        List.replicate (leadingBlanks s) [] ++ (row :: others) ++ List.replicate blank [] := by
  obtain ⟨front, back, hfront, hback, _, hsplit⟩ := exists_eq_trim s
  have hlast : (trim s).getLast? ≠ some '\r' := by
    intro hreturn
    cases getLast?_trim _ hreturn
  have hhead : (trim s ++ back).head? ≠ some '\n' := by
    intro hfeed
    rw [List.head?_append_of_ne_nil _ h] at hfeed
    cases head?_trim _ hfeed
  have hunified : unifyBreaks s =
      unifyBreaks front ++ (unifyBreaks (trim s) ++ unifyBreaks back) := by
    rw [← unifyBreaks_append fun hreturn => absurd hreturn hlast,
      ← unifyBreaks_append fun _ => hhead, ← List.append_assoc, ← hsplit]
  obtain ⟨lead, hlead⟩ := exists_splitOn_append (isBlank_unifyBreaks hfront)
    (unifyBreaks (trim s) ++ unifyBreaks back)
  obtain ⟨blank, hblank⟩ := exists_splitOn_append_blank (isBlank_unifyBreaks hback)
    (unifyBreaks (trim s))
  rw [hblank, ← hunified] at hlead
  have hfirst : ∃ row others, (rows (trim s)).map trim = row :: others ∧ row ≠ [] := by
    cases htrim : trim s with
    | nil => exact absurd htrim h
    | cons c rest =>
      have hc : isBlank c = false := head?_trim c (by rw [htrim]; rfl)
      have hreturn : c = '\r' → False := by
        rintro rfl
        cases hc
      have hfeed : (c == '\n') = false := by
        refine beq_eq_false_iff_ne.mpr ?_
        rintro rfl
        cases hc
      rw [rows, unifyBreaks.eq_3 _ _ (fun _ heq _ => hreturn heq) hreturn, List.splitOn,
        List.splitOnP_cons_eq_if_modifyHead, hfeed]
      cases hrows : List.splitOnP (· == '\n') (unifyBreaks rest) with
      | nil => exact absurd hrows (List.splitOnP_ne_nil _ _)
      | cons row rows =>
        refine ⟨trim (c :: row), rows.map trim, rfl, fun hnil => ?_⟩
        have hmem := mem_trim_of_mem (s := c :: row) List.mem_cons_self hc
        rw [hnil] at hmem
        cases hmem
  obtain ⟨row, others, hrows, hrow⟩ := hfirst
  have hall : (rows s).map trim =
      List.replicate lead [] ++ (row :: others) ++ List.replicate blank [] := by
    rw [← hrows, List.append_assoc]
    exact hlead
  have hcount : leadingBlanks s = lead := by
    rw [List.append_assoc, List.cons_append] at hall
    exact leadingBlanks_eq hall hrow
  exact ⟨row, others, blank, hrows, hrow, hcount ▸ hall⟩

end Text

/-- The same error so many rows further on. -/
def ScriptError.later (rows : Nat) (error : ScriptError) : ScriptError :=
  ⟨error.lineNumber + rows, error.cause⟩

namespace LineReader

variable {reader : LineReader} {lines others : List (List Char)}

/-! ## Reading rows -/

/-- Lines after lines are read with their numbers moved on. -/
theorem commandsFrom_append (reader : LineReader) (first : Nat) (lines others : List (List Char)) :
    reader.commandsFrom first (lines ++ others) =
      (reader.commandsFrom first lines).bind fun commands =>
        (reader.commandsFrom (first + lines.length) others).map (commands ++ ·) := by
  induction lines generalizing first with
  | nil =>
    simp only [List.nil_append, commandsFrom, Except.bind, List.length_nil, Nat.add_zero]
    cases reader.commandsFrom first others <;> rfl
  | cons line lines ih =>
    rw [List.cons_append, commandsFrom, commandsFrom, ih]
    cases reader.command line with
    | error cause => rfl
    | ok command =>
      have hplace : first + 1 + lines.length = first + (line :: lines).length := by
        rw [List.length_cons]
        omega
      rw [hplace]
      cases reader.commandsFrom (first + 1) lines with
      | error error => rfl
      | ok commands =>
        cases reader.commandsFrom (first + (line :: lines).length) others with
        | error error => rfl
        | ok more => simp [Except.map, Except.bind]

/-- Blanks around lines do not matter. -/
theorem commandsFrom_congr (first : Nat) (h : lines.map Text.trim = others.map Text.trim) :
    reader.commandsFrom first lines = reader.commandsFrom first others := by
  induction lines generalizing first others with
  | nil =>
    obtain rfl := List.map_eq_nil_iff.mp h.symm
    rfl
  | cons line lines ih =>
    obtain ⟨other, others, rfl, hline, hothers⟩ := List.map_eq_cons_iff.mp h.symm
    have hcommand : reader.command line = reader.command other := by
      rw [← reader.command_trim line, ← hline, reader.command_trim]
    rw [commandsFrom, commandsFrom, hcommand, ih (first + 1) hothers.symm]

/-- There is nothing on blank lines. -/
theorem commandsFrom_blank (reader : LineReader) (first blank : Nat) :
    reader.commandsFrom first (List.replicate blank []) = .ok [] := by
  induction blank generalizing first with
  | zero => rfl
  | succ blank ih =>
    rw [List.replicate_succ, commandsFrom, command_of_blank rfl, ih]
    rfl

/-- Blank lines behind the others do not matter. -/
theorem commandsFrom_append_blank (first blank : Nat) (lines : List (List Char)) :
    reader.commandsFrom first (lines ++ List.replicate blank []) =
      reader.commandsFrom first lines := by
  rw [commandsFrom_append, commandsFrom_blank]
  cases reader.commandsFrom first lines with
  | error error => rfl
  | ok commands => simp [Except.bind, Except.map]

/-- Further on the same lines are read as the same commands. -/
theorem commandsFrom_add (reader : LineReader) (first rows : Nat) (lines : List (List Char)) :
    reader.commandsFrom (first + rows) lines =
      (reader.commandsFrom first lines).mapError (ScriptError.later rows) := by
  induction lines generalizing first with
  | nil => rfl
  | cons line lines ih =>
    rw [commandsFrom, commandsFrom, Nat.add_right_comm, ih]
    cases reader.command line with
    | error cause => rfl
    | ok command? => cases reader.commandsFrom (first + 1) lines <;> rfl

/-- Blank lines in front only move the others on. -/
theorem commandsFrom_blank_append (first blank : Nat) (lines : List (List Char)) :
    reader.commandsFrom first (List.replicate blank [] ++ lines) =
      (reader.commandsFrom first lines).mapError (ScriptError.later blank) := by
  rw [commandsFrom_append, commandsFrom_blank, List.length_replicate, commandsFrom_add]
  cases reader.commandsFrom first lines <;> rfl

/-- Lines that cannot be read have a first one that cannot. -/
theorem exists_fault {first : Nat} {error : ScriptError}
    (h : reader.commandsFrom first lines = .error error) :
    ∃ before line after, lines = before ++ line :: after ∧
      (∀ earlier ∈ before, ∃ command?, reader.command earlier = .ok command?) ∧
      error.lineNumber = first + before.length ∧ reader.command line = .error error.cause := by
  induction lines generalizing first with
  | nil => cases h
  | cons line lines ih =>
    rw [commandsFrom] at h
    cases hline : reader.command line with
    | error cause =>
      simp only [hline, Except.error.injEq] at h
      subst h
      exact ⟨[], line, lines, rfl, by simp, rfl, hline⟩
    | ok command? =>
      cases hothers : reader.commandsFrom (first + 1) lines with
      | ok commands => simp [hline, hothers, Except.map] at h
      | error other =>
        simp only [hline, hothers, Except.map, Except.error.injEq] at h
        subst h
        obtain ⟨before, fault, after, rfl, hbefore, hnumber, hfault⟩ := ih hothers
        refine ⟨line :: before, fault, after, rfl, ?_, ?_, hfault⟩
        · exact List.forall_mem_cons.mpr ⟨⟨command?, hline⟩, hbefore⟩
        · rw [hnumber, List.length_cons]
          omega

/-- A macro is read row by row. -/
theorem commands_eq_rows (source : List Char) :
    reader.commands source = reader.commandsFrom 1 (Text.rows source) := by
  have hlines := Text.splitOn_eq_lines (Text.not_mem_unifyBreaks source)
  rw [commands, Text.rows]
  obtain hlines | hlines := hlines
  · rw [hlines]
  · rw [hlines]
    exact (commandsFrom_append_blank 1 1 _).symm

/-- Trimming a macro takes its blank lines in front away from the numbers of its lines. -/
theorem commands_eq_trim (reader : LineReader) (source : List Char) :
    reader.commands source = (reader.commands (Text.trim source)).mapError
      (ScriptError.later (Text.leadingBlanks source)) := by
  by_cases hblank : Text.trim source = []
  · have hnothing : reader.commands (Text.trim source) = .ok [] := by
      rw [hblank]
      rfl
    rw [hnothing]
    exact commands_trim.mp hnothing
  · obtain ⟨row, others, blank, htrimmed, -, hrows⟩ := Text.exists_rows_trim hblank
    rw [commands_eq_rows, commands_eq_rows]
    have hsource : (Text.rows source).map Text.trim =
        (List.replicate (Text.leadingBlanks source) [] ++ Text.rows (Text.trim source) ++
          List.replicate blank []).map Text.trim := by
      have hempty : Text.trim [] = [] := rfl
      simp only [List.map_append, List.map_replicate, hempty, hrows, htrimmed]
    rw [commandsFrom_congr 1 hsource, commandsFrom_append_blank, commandsFrom_blank_append]

end LineReader

end GameMacros
