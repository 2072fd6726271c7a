import GameMacros.Proofs.LastLoop
import GameMacros.Proofs.Rows

/-!
# Line ends

A macro is read line by line, and the first line that cannot be read is the error. How the lines are
ended makes no difference: each way of ending them leads to the same rows, up to blank ones at the
end.
-/

namespace GameMacros

namespace Text

/-! ## Ways of ending a line -/

/-- How the lines of a macro end. -/
inductive LineEnd where
  | feed
  | returnFeed
  | carriageReturn
  deriving DecidableEq, Repr

namespace LineEnd

/-- The characters of a line end. -/
def text : LineEnd → List Char
  | .feed => ['\n']
  | .returnFeed => ['\r', '\n']
  | .carriageReturn => ['\r']

/-- Lines with line ends between them, and with one behind the last line if the text is closed. -/
def join (lineEnd : LineEnd) (closed : Bool) (lines : List (List Char)) : List Char :=
  List.intercalate lineEnd.text lines ++ if closed then lineEnd.text else []

variable {lineEnd : LineEnd} {closed : Bool} {lines : List (List Char)} {s t : List Char}

/-- The first line of several ends before the second one. -/
theorem join_cons_cons (lineEnd : LineEnd) (closed : Bool) (line next : List Char)
    (rest : List (List Char)) :
    lineEnd.join closed (line :: next :: rest) =
      line ++ (lineEnd.text ++ lineEnd.join closed (next :: rest)) := by
  simp only [join, List.intercalate_cons_cons, List.append_assoc]

/-- No line feed is in front where lines end with carriage returns. -/
theorem head?_join (h : ∀ line ∈ lines, ∀ c ∈ line, isBreak c = false) :
    (carriageReturn.join closed lines).head? ≠ some '\n' := by
  have hend : (if closed then carriageReturn.text else []).head? ≠ some '\n' := by
    cases closed <;> decide
  cases lines with
  | nil => exact hend
  | cons line rest =>
    have hline : line.head? ≠ some '\n' := by
      intro hhead
      cases h line List.mem_cons_self _ (List.mem_of_mem_head? hhead)
    cases rest with
    | nil =>
      cases line with
      | nil => exact hend
      | cons c line => exact hline
    | cons next rest =>
      rw [join_cons_cons]
      cases line with
      | nil => exact fun hhead => by cases hhead
      | cons c line => exact hline

/-- Line ends of each kind become line feeds. -/
theorem unifyBreaks_text (h : lineEnd = .carriageReturn → s.head? ≠ some '\n') :
    unifyBreaks (lineEnd.text ++ s) = '\n' :: unifyBreaks s := by
  cases lineEnd with
  | feed => exact unifyBreaks.eq_3 _ _ (by simp) (by simp)
  | returnFeed => rfl
  | carriageReturn =>
    refine unifyBreaks.eq_2 _ ?_
    rintro more rfl
    exact h rfl rfl

/-- A line is the row before its end. -/
theorem rows_append_text (hs : ∀ c ∈ s, isBreak c = false)
    (ht : lineEnd = .carriageReturn → t.head? ≠ some '\n') :
    rows (s ++ (lineEnd.text ++ t)) = s :: rows t := by
  have hlast : s.getLast? = some '\r' → (lineEnd.text ++ t).head? ≠ some '\n' := by
    intro hlast
    cases hs _ (List.mem_of_getLast? hlast)
  have hfeed : '\n' ∉ s := by
    intro hmem
    cases hs _ hmem
  rw [rows, unifyBreaks_append hlast, unifyBreaks_of_unbroken hs, unifyBreaks_text ht,
    splitOn_append_feed, splitOn_of_not_mem hfeed]
  rfl

/-- Whatever ends the lines, they are the rows, up to blank ones at the end. -/
theorem exists_rows_join (lineEnd : LineEnd) (closed : Bool)
    (h : ∀ line ∈ lines, ∀ c ∈ line, isBreak c = false) :
    ∃ blank, rows (lineEnd.join closed lines) = lines ++ List.replicate blank [] := by
  have hend {s : List Char} (hs : ∀ c ∈ s, isBreak c = false) :
      rows (s ++ lineEnd.text) = [s, []] := by
    have hrows := @rows_append_text lineEnd s [] hs (by simp)
    have hempty : rows [] = [[]] := rfl
    rwa [List.append_nil, hempty] at hrows
  induction lines with
  | nil =>
    cases closed with
    | false => exact ⟨1, rfl⟩
    | true => exact ⟨2, hend (s := []) (by simp)⟩
  | cons line rest ih =>
    obtain ⟨hline, hrest⟩ := List.forall_mem_cons.mp h
    cases rest with
    | nil =>
      cases closed with
      | false => exact ⟨0, by simp [join, rows_of_unbroken hline]⟩
      | true => exact ⟨1, by simpa [join] using hend hline⟩
    | cons next rest =>
      obtain ⟨blank, hrows⟩ := ih hrest
      refine ⟨blank, ?_⟩
      rw [join_cons_cons, rows_append_text hline, hrows]
      · rfl
      · rintro rfl
        exact head?_join hrest

end LineEnd

end Text

namespace LineReader

variable {reader : LineReader} {lines others : List (List Char)}

/-! ## The first error -/

/-- Lines that can all be read have commands. -/
theorem exists_commandsFrom (first : Nat)
    (h : ∀ line ∈ lines, ∃ command?, reader.command line = .ok command?) :
    ∃ commands, reader.commandsFrom first lines = .ok commands := by
  induction lines generalizing first with
  | nil => exact ⟨[], rfl⟩
  | cons line lines ih =>
    obtain ⟨⟨command?, hline⟩, hothers⟩ := List.forall_mem_cons.mp h
    obtain ⟨commands, hcommands⟩ := ih (first + 1) hothers
    exact ⟨_, by simp only [commandsFrom, hline, hcommands, Except.map]; rfl⟩

/-- What reading lines comes to: the commands of all of them in their order, or the first error and
the number of its line, counted from one. -/
inductive ReadsTo (reader : LineReader) (lines : List (List Char)) :
    Except ScriptError (List Command) → Prop
  | commands {commands : List Command} (hreads : Reads reader lines commands) :
      ReadsTo reader lines (.ok commands)
  | fault {before after : List (List Char)} {line : List Char} {cause : LineError}
      (hlines : lines = before ++ line :: after)
      (hbefore : ∀ earlier ∈ before, ∃ command?, reader.command earlier = .ok command?)
      (hfault : reader.command line = .error cause) :
      ReadsTo reader lines (.error ⟨before.length + 1, cause⟩)

/-- Numbered lines are read up to the first error. -/
theorem commandsFrom_one_eq_iff {result : Except ScriptError (List Command)} :
    reader.commandsFrom 1 lines = result ↔ ReadsTo reader lines result := by
  constructor
  · intro h
    cases result with
    | ok commands => exact .commands (commandsFrom_eq_ok_iff.mp h)
    | error error =>
      obtain ⟨before, line, after, hlines, hbefore, hnumber, hfault⟩ := exists_fault h
      have herror : error = ⟨before.length + 1, error.cause⟩ := by
        rw [Nat.add_comm, ← hnumber]
      rw [herror]
      exact .fault hlines hbefore hfault
  · intro h
    cases h with
    | commands hreads => exact commandsFrom_eq_ok_iff.mpr hreads
    | @fault before after line cause hlines hbefore hfault =>
      obtain ⟨commands, hcommands⟩ := exists_commandsFrom 1 hbefore
      rw [hlines, commandsFrom_append, hcommands]
      simp only [Except.bind, commandsFrom, hfault, Except.map, Nat.add_comm]

/-! ## Reading texts -/

/-- Two texts with a line feed between them hold the commands of both. -/
theorem commands_append_feed_eq_ok_iff {first second : List Char} {commands : List Command} :
    reader.commands (first ++ '\n' :: second) = .ok commands ↔
      ∃ front back, commands = front ++ back ∧ reader.commands first = .ok front ∧
        reader.commands second = .ok back := by
  simp only [commands_eq_ok_iff]
  have hstatements : Text.statements (first ++ '\n' :: second) =
      Text.statements first ++ Text.statements second := Text.statementsAfter_line [] first second
  rw [hstatements]
  constructor
  · exact Reads.exists_of_append
  · rintro ⟨front, back, rfl, hfront, hback⟩
    exact hfront.append hback

/-- A macro of these lines is read line by line. -/
structure ReadsByLine (reader : LineReader) (lines : List (List Char)) : Prop where
  /-- However the lines are ended, the result is theirs. -/
  result_iff : ∀ (lineEnd : Text.LineEnd) (closed : Bool)
    (result : Except ScriptError (List Command)),
    reader.commands (lineEnd.join closed lines) = result ↔ ReadsTo reader lines result
  /-- The way of ending them makes no difference. -/
  same : ∀ (lineEnd other : Text.LineEnd) (closed otherClosed : Bool),
    reader.commands (lineEnd.join closed lines) = reader.commands (other.join otherClosed lines)
  /-- What is put behind a line feed, be it these lines or any text, is read by itself. -/
  append_iff : ∀ (first second : List Char) (commands : List Command),
    reader.commands (first ++ '\n' :: second) = .ok commands ↔
      ∃ front back, commands = front ++ back ∧ reader.commands first = .ok front ∧
        reader.commands second = .ok back

/-- A macro is read line by line, whatever ends its lines, up to the first error. -/
theorem readsByLine_of_unbroken (reader : LineReader)
    (h : ∀ line ∈ lines, ∀ c ∈ line, Text.isBreak c = false) : ReadsByLine reader lines := by
  have hjoin (lineEnd : Text.LineEnd) (closed : Bool) :
      reader.commands (lineEnd.join closed lines) = reader.commandsFrom 1 lines := by
    obtain ⟨blank, hrows⟩ := lineEnd.exists_rows_join closed h
    rw [commands_eq_rows, hrows, commandsFrom_append_blank]
  exact {
    result_iff := fun lineEnd closed result => by rw [hjoin, commandsFrom_one_eq_iff]
    same := fun lineEnd other closed otherClosed => by rw [hjoin, hjoin]
    append_iff := fun first second commands => commands_append_feed_eq_ok_iff }

/-- A blank line and a comment count, and nothing behind the first error is read. -/
theorem readsByLine_of_unbroken_behind_comment :
    ∃ (reader : LineReader) (lines : List (List Char)),
      (∀ line ∈ lines, ∀ c ∈ line, Text.isBreak c = false) ∧ ReadsByLine reader lines ∧
        ∀ (lineEnd : Text.LineEnd) (closed : Bool), reader.commands (lineEnd.join closed lines) =
          .error ⟨4, .invalidArgument .loop "/loop x"⟩ := by
  let reader : LineReader := ⟨["echo"]⟩
  let before := ["/echo a".toList, [], " # b".toList]
  let lines := before ++ " /loop x ".toList :: ["/craft".toList]
  have hlines : ∀ line ∈ lines, ∀ c ∈ line, Text.isBreak c = false := by
    simp only [lines, before, List.cons_append, List.nil_append, List.forall_mem_cons]
    exact ⟨Text.forall_of_all rfl, by simp, Text.forall_of_all rfl, Text.forall_of_all rfl,
      Text.forall_of_all rfl, by simp⟩
  have hbefore : ∀ earlier ∈ before, ∃ command?, reader.command earlier = .ok command? := by
    have hecho : ∃ command?, reader.command "/echo a".toList = .ok command? := by
      refine ⟨some { text := "/echo a", kind := .native "/echo a" }, ?_⟩
      decide +kernel
    simp only [before, List.forall_mem_cons]
    exact ⟨hecho, ⟨none, rfl⟩, ⟨none, by decide +kernel⟩, by simp⟩
  have hfault : reader.command " /loop x ".toList = .error (.invalidArgument .loop "/loop x") := by
    decide +kernel
  have hreads := readsByLine_of_unbroken reader hlines
  exact ⟨reader, lines, hlines, hreads, fun lineEnd closed =>
    (hreads.result_iff lineEnd closed _).mpr (.fault rfl hbefore hfault)⟩

end LineReader

end GameMacros
