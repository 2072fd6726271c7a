import GameMacros.Proofs.Quoting
import GameMacros.Proofs.Seconds
import GameMacros.Proofs.WellFormed

/-!
# Delays

A delay is written behind the verb `/wait` or between the brackets of a modifier. In front of the
reader of seconds the verb has a check of its own, on the form of what stands behind it. The check
lets everything pass that is read, so both ways of writing a delay come to the same, and the verb
says no exactly where the modifier is malformed. Of both on one line it is the verb that counts.
-/

namespace GameMacros

open Text (IsWord IsGap)

/-! ## The form of a delay -/

namespace Wait

/-- Digits of some kind, one or more. -/
structure IsRun (digit : Char → Prop) (s : List Char) : Prop where
  ne_nil : s ≠ []
  digit : ∀ c ∈ s, digit c

/-- Digits, or digits on both sides of a point. -/
inductive IsNumber (digit : Char → Prop) : List Char → Prop
  | whole {s : List Char} (hwhole : IsRun digit s) : IsNumber digit s
  | fraction {whole fraction : List Char} (hwhole : IsRun digit whole)
      (hfraction : IsRun digit fraction) : IsNumber digit (whole ++ '.' :: fraction)

/-- A number, or two with a dash between. -/
inductive HasForm (digit : Char → Prop) : List Char → Prop
  | fixed {s : List Char} (hnumber : IsNumber digit s) : HasForm digit s
  | range {start stop : List Char} (hstart : IsNumber digit start) (hstop : IsNumber digit stop) :
      HasForm digit (start ++ '-' :: stop)

variable {digit : Char → Prop} {s : List Char} {wait : Wait}

/-- What denotes a number is made of digits, of any kind that includes the ASCII digits. -/
theorem isRun_of_denotes (hdigit : ∀ c, c.isDigit = true → digit c) {n : Nat}
    (h : Numeral.Denotes s n) : IsRun digit s :=
  ⟨h.ne_nil, fun c hc => hdigit c (h.isDigit c hc)⟩

/-- What is read as a decimal has the form of a number. -/
theorem isNumber_of_ofText? (hdigit : ∀ c, c.isDigit = true → digit c) {d : Decimal}
    (h : Decimal.ofText? s = some d) : IsNumber digit s := by
  have hspells := Decimal.spells_of_ofText? h
  generalize d.value = v at hspells
  cases hspells with
  | whole hwhole => exact .whole (isRun_of_denotes hdigit hwhole)
  | fraction hwhole hfraction =>
    exact .fraction (isRun_of_denotes hdigit hwhole) (isRun_of_denotes hdigit hfraction)

/-- What passes the check has the form of a delay. -/
theorem hasForm_of_isInForm (hdigit : ∀ c, c.isDigit = true → digit c) (h : isInForm s = true) :
    HasForm digit s := by
  have hnumber {s : List Char} (h : (Decimal.ofText? s).isSome = true) : IsNumber digit s := by
    obtain ⟨d, hread⟩ := Option.isSome_iff_exists.mp h
    exact isNumber_of_ofText? hdigit hread
  unfold isInForm at h
  split at h
  · next start stop hcut =>
    rw [Bool.and_eq_true] at h
    exact Text.eq_append_of_splitOnce hcut ▸ .range (hnumber h.1) (hnumber h.2)
  · exact .fixed (hnumber h)

/-- The check lets everything without blanks pass that is read as a wait. -/
theorem isInForm_of_ofSeconds? (hplain : ∀ c ∈ s, Text.isBlank c = false)
    (h : ofSeconds? s = some wait) : isInForm s = true := by
  have hdecimal {s : List Char} {ms : Nat} (hplain : ∀ c ∈ s, Text.isBlank c = false)
      (hms : milliseconds? s = some ms) : (Decimal.ofText? s).isSome = true := by
    obtain ⟨d, hread, -⟩ := Option.map_eq_some_iff.mp hms
    rw [Text.trim_of_not_blank hplain] at hread
    exact Option.isSome_iff_exists.mpr ⟨d, hread⟩
  have hends {start stop : List Char} {least bound : Nat}
      (hcut : Text.splitOnce '-' s = some (start, stop)) (hstart : milliseconds? start = some least)
      (hstop : milliseconds? stop = some bound) : isInForm s = true := by
    rw [Text.eq_append_of_splitOnce hcut] at hplain
    obtain ⟨hfront, hback⟩ := List.forall_mem_append.mp hplain
    simp only [isInForm, hcut, hdecimal hfront hstart,
      hdecimal (List.forall_mem_cons.mp hback).2 hstop, Bool.and_self]
  cases ofSeconds?_eq_some_iff.mp h with
  | fixed hcut hms => simp only [isInForm, hcut, hdecimal hplain hms]
  | same hcut hstart hstop => exact hends hcut hstart hstop
  | range hcut hstart hstop _ => exact hends hcut hstart hstop

/-- Nothing but digits, points, dashes and blanks is in what is read as a wait. -/
theorem not_mem_of_ofSeconds? {c : Char} (hdigit : c.isDigit = false) (hpoint : c ≠ '.')
    (hdash : c ≠ '-') (hblank : Text.isBlank c = false) (h : ofSeconds? s = some wait) : c ∉ s := by
  have hnumber {s : List Char} {ms : Nat} (hms : milliseconds? s = some ms) : c ∉ s := by
    obtain ⟨d, hread, -⟩ := Option.map_eq_some_iff.mp hms
    exact not_mem_of_spells hdigit hpoint hblank (Decimal.spells_of_ofText? hread)
  have hends {start stop : List Char} {least bound : Nat}
      (hcut : Text.splitOnce '-' s = some (start, stop)) (hstart : milliseconds? start = some least)
      (hstop : milliseconds? stop = some bound) : c ∉ s := by
    obtain rfl := Text.eq_append_of_splitOnce hcut
    simp [hdash, hnumber hstart, hnumber hstop]
  cases ofSeconds?_eq_some_iff.mp h with
  | fixed _ hms => exact hnumber hms
  | same hcut hstart hstop => exact hends hcut hstart hstop
  | range hcut hstart hstop _ => exact hends hcut hstart hstop

end Wait

/-- A delay without blanks is read like any number of seconds. -/
theorem Line.delay?_of_isWord {argument : List Char} (h : IsWord argument) :
    delay? argument = Wait.ofSeconds? argument := by
  unfold delay?
  split
  · rfl
  · next hform =>
    symm
    refine Option.eq_none_iff_forall_ne_some.mpr fun wait hread => hform ?_
    exact Wait.isInForm_of_ofSeconds? h.not_blank hread

/-- The delay behind the verb is read like any number of seconds, once it has been found to be in
form. The digits that the check allows may be more than those that are read. -/
theorem Line.delay?_eq_some_iff {digit : Char → Prop} {argument : List Char} {wait : Wait}
    (hdigit : ∀ c, c.isDigit = true → digit c) (hword : IsWord argument) :
    delay? argument = some wait ↔
      Wait.HasForm digit argument ∧ Wait.ofSeconds? argument = some wait := by
  rw [delay?_of_isWord hword]
  refine ⟨fun h => ⟨?_, h⟩, And.right⟩
  exact Wait.hasForm_of_isInForm hdigit (Wait.isInForm_of_ofSeconds? hword.not_blank h)

/-! ## The modifier and the verb -/

/-- A wait by itself brings the delay between its brackets. -/
theorem Modifiers.extract_wait {body : List Char} {wait : Wait}
    (h : Wait.ofSeconds? body = some wait) :
    extract (token .wait body) = .ok ({ wait }, []) := by
  have hopen : '<' ∉ body := Wait.not_mem_of_ofSeconds? rfl (by decide) (by decide) rfl h
  have hclose : '>' ∉ body := Wait.not_mem_of_ofSeconds? rfl (by decide) (by decide) rfl h
  rw [extract_token hopen hclose, ofBody?, h]
  rfl

namespace LineReader

variable {reader : LineReader} {line rest word gap argument : List Char} {modifiers : Modifiers}

/-- Where the modifiers of a line leave a verb, the line is read as what the verb says. -/
theorem command_of_slash
    (hextract : Modifiers.extract (Text.trim line) = .ok (modifiers, '/' :: rest)) :
    reader.command line =
      (Line.kindAndDelay reader (String.ofList (Text.trim line)) modifiers ('/' :: rest)).map
        fun (kind, delay) => some
          { text := String.ofList (Text.trim line)
            kind
            wait := delay.getD modifiers.wait
            maxWait := modifiers.maxWaitOrDefault
            index := modifiers.index
            echo := modifiers.echo } := by
  have hcomment : (Text.trim line).head? ≠ some '#' := by
    intro hhead
    obtain ⟨s, hline⟩ : ∃ s, Text.trim line = ['#'] ++ s := by
      cases hs : Text.trim line with
      | nil => simp [hs] at hhead
      | cons c s => exact ⟨s, by simpa [hs] using hhead⟩
    rw [hline] at hextract
    obtain ⟨more, hmore⟩ := Modifiers.exists_of_extract_append_of_unbroken (List.cons_ne_nil _ _)
      (by simp [Text.isBlank]) hextract
    cases hmore
  have hsome : (Text.trim line).isEmpty = false := by
    cases hs : Text.trim line with
    | nil =>
      have hnone : Modifiers.extract [] = .ok ({}, []) := by decide +kernel
      rw [hs, hnone] at hextract
      cases hextract
    | cons => rfl
  simp only [LineReader.command, hsome, hcomment, hextract, bind, Except.bind]
  cases Line.kindAndDelay reader (String.ofList (Text.trim line)) modifiers ('/' :: rest) <;> rfl

/-- The command of a wait whose delay stands behind the verb. -/
def waiting (line : List Char) (modifiers : Modifiers) (wait : Wait) : Command where
  text := String.ofList (Text.trim line)
  kind := .wait
  wait
  maxWait := modifiers.maxWaitOrDefault
  index := modifiers.index
  echo := modifiers.echo

/-- The verb is read by the seconds behind it, whatever the modifiers of the line are. -/
theorem command_of_wait (hword : Verb.wait.IsSpelled word) (hgap : IsGap gap)
    (hargument : IsWord argument)
    (hextract : Modifiers.extract (Text.trim line) =
      .ok (modifiers, '/' :: (word ++ gap ++ argument))) :
    reader.command line =
      match Wait.ofSeconds? argument with
      | some wait => .ok (some (waiting line modifiers wait))
      | none => .error (.invalidArgument .wait (String.ofList (Text.trim line))) := by
  have hwritten : Verb.wait ∈ Verb.written := by decide
  obtain ⟨hne, hletters⟩ := hword.plain hwritten
  have hfeed : '\n' ∉ argument := fun hmem => absurd (hargument.not_blank _ hmem) (by decide)
  have hsplit := Line.splitVerb?_append hne (fun c hc => (hletters c hc).1) hgap.ne_nil hgap.blank
    hargument.trim_eq hfeed
  have hsome : argument.isEmpty = false := by simpa using hargument.ne_nil
  have hdelay := Line.delay?_of_isWord hargument
  rw [command_of_slash hextract]
  simp only [Line.kindAndDelay, hsplit, hword.ofWord?_eq hwritten, Line.kindOf, hsome, hdelay]
  cases Wait.ofSeconds? argument <;> rfl

/-! ## Both ways of writing a delay -/

/-- The line is a wait with this delay. -/
def WaitsFor (reader : LineReader) (line : List Char) (wait : Wait) : Prop :=
  ∃ command, reader.command line = .ok (some command) ∧ command.kind = .wait ∧ command.wait = wait

/-- The line waits as the modifier with the argument between its brackets would, and is refused if
that is malformed. -/
structure ReadsDelay (reader : LineReader) (argument line : List Char) : Prop where
  waitsFor_iff : ∀ wait, reader.WaitsFor line wait ↔ ∃ modifiers rest,
    Modifiers.extract (Modifiers.token .wait argument) = .ok (modifiers, rest) ∧
      modifiers.wait = wait
  invalid_iff : reader.command line =
      .error (.invalidArgument .wait (String.ofList (Text.trim line))) ↔
    Modifiers.extract (Modifiers.token .wait argument) =
      .error (.malformedModifier .wait (String.ofList (Modifiers.token .wait argument)))

/-- A line with a wait in it is read like the modifier. -/
theorem readsDelay_of_extract (hword : Verb.wait.IsSpelled word) (hgap : IsGap gap)
    (hargument : IsWord argument) (hopen : '<' ∉ argument) (hclose : '>' ∉ argument)
    (hextract : Modifiers.extract (Text.trim line) =
      .ok (modifiers, '/' :: (word ++ gap ++ argument))) : ReadsDelay reader argument line := by
  have hcommand := @command_of_wait reader _ _ _ _ _ hword hgap hargument hextract
  have htoken := @Modifiers.extract_token .wait argument hopen hclose
  rw [Modifiers.ofBody?] at htoken
  cases hread : Wait.ofSeconds? argument with
  | some wait =>
    rw [hread] at hcommand htoken
    exact ⟨fun other => by simp [WaitsFor, hcommand, htoken, waiting], by simp [hcommand, htoken]⟩
  | none =>
    rw [hread] at hcommand htoken
    exact ⟨fun other => by simp [WaitsFor, hcommand, htoken], by simp [hcommand, htoken]⟩

/-- A delay means the same behind the verb as between the brackets of the modifier. -/
structure SameDelay (reader : LineReader) (argument : List Char) : Prop where
  alone : ∀ word gap, Verb.wait.IsSpelled word → IsGap gap →
    ReadsDelay reader argument ('/' :: (word ++ gap ++ argument))
  /-- The argument overrides the modifiers that the line has, wherever they stand. -/
  overriding : ∀ line word gap modifiers, Verb.wait.IsSpelled word → IsGap gap →
    Modifiers.extract (Text.trim line) = .ok (modifiers, '/' :: (word ++ gap ++ argument)) →
    ReadsDelay reader argument line
  overriding_behind : ∀ word gap gap' body, Verb.wait.IsSpelled word → IsGap gap →
    (∀ c ∈ gap', Text.isBlank c = true) → Modifiers.isWellFormed .wait body = true →
    ReadsDelay reader argument
      ('/' :: (word ++ gap ++ argument) ++ gap' ++ Modifiers.token .wait body)
  /-- The check in front of the reader of seconds keeps nothing out that would be read. -/
  hasForm : ∀ digit : Char → Prop, (∀ c, c.isDigit = true → digit c) → ∀ wait,
    Line.delay? argument = some wait ↔
      Wait.HasForm digit argument ∧ Wait.ofSeconds? argument = some wait

/-- The verb and the modifier read the same delay off any argument. -/
theorem sameDelay_of_isWord (reader : LineReader) (hargument : IsWord argument)
    (hopen : '<' ∉ argument) (hclose : '>' ∉ argument) : SameDelay reader argument where
  alone word gap hword hgap := by
    have hplain : Modifiers.Plain ('/' :: (word ++ gap ++ argument)) := fun c hc =>
      Text.sameFolded_open fun heq =>
        hword.open_not_mem (by decide) hgap.blank hopen (heq ▸ hc)
    have htrim :=
      Text.trim_cons_append (c := '/') rfl hargument.ne_nil hargument.trim_eq (word ++ gap)
    have hextract := Modifiers.extract_plain hplain
    rw [htrim] at hextract
    exact readsDelay_of_extract hword hgap hargument hopen hclose (by rwa [htrim])
  overriding line word gap modifiers hword hgap hextract :=
    readsDelay_of_extract hword hgap hargument hopen hclose hextract
  overriding_behind word gap gap' body hword hgap hgap' hbody := by
    obtain ⟨wait, hwait⟩ := Option.isSome_iff_exists.mp hbody
    have hbare : '<' ∉ '/' :: (word ++ gap ++ argument) ++ gap' := by
      have hnotGap : '<' ∉ gap' := fun hmem => absurd (hgap' _ hmem) (by decide)
      simpa [hnotGap] using hword.open_not_mem (by decide) hgap.blank hopen
    have htrim :=
      Text.trim_cons_append (c := '/') rfl hargument.ne_nil hargument.trim_eq (word ++ gap)
    have hextract :=
      Modifiers.extract_append_of_nothing_left hbare (Modifiers.extract_wait hwait)
    rw [Text.trim_append_of_blank _ hgap', htrim] at hextract
    have hline :
        Text.trim ('/' :: (word ++ gap ++ argument) ++ gap' ++ Modifiers.token .wait body) =
          '/' :: (word ++ gap ++ argument) ++ gap' ++ Modifiers.token .wait body := by
      refine Text.trim_eq_self (by simp [Text.isBlank]) ?_
      rw [Modifiers.token, ← List.append_assoc, List.getLast?_concat]
      simp [Text.isBlank]
    exact readsDelay_of_extract hword hgap hargument hopen hclose (by rwa [hline])
  hasForm digit hdigit wait := Line.delay?_eq_some_iff hdigit hargument

/-- On a line with both, the verb counts. -/
theorem sameDelay_of_two : SameDelay ⟨[]⟩ "2".toList ∧
    (⟨[]⟩ : LineReader).WaitsFor "/WAIT 2 <wait.9>".toList (.fixed 2000) := by
  have hargument : IsWord "2".toList := ⟨by decide, by simp [Text.isBlank]⟩
  have hsame := sameDelay_of_isWord ⟨[]⟩ hargument (by decide) (by decide)
  have hspelled : Verb.wait.IsSpelled "WAIT".toList := ⟨"wait", by decide, by decide⟩
  have hread := hsame.overriding_behind _ _ [' '] "9".toList hspelled Text.isGap_space
    Text.isGap_space.blank (by decide +kernel)
  exact ⟨hsame, (hread.waitsFor_iff _).mpr ⟨_, _, Modifiers.extract_wait (by decide +kernel), rfl⟩⟩

end LineReader

end GameMacros
