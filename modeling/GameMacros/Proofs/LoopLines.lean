import GameMacros.Proofs.Lines
import GameMacros.Proofs.Tokens
import Mathlib.Data.Bool.AllAny

/-!
# Loop lines

The scan for loop lines takes a line for a loop if it begins with the verb, in either case, and a
blank, a modifier or nothing after it. The reader takes out the modifiers first, then folds the verb
to lower case as a whole. A loop whose line begins with its verb is found on a loop line. What is
found on a loop line is a loop, unless the verb goes on behind a modifier, and then it can be one of
the game's.
-/

namespace GameMacros

namespace Text

variable {c : Char} {s front back : List Char}

/-! ## Blanks -/

/-- A text is what is left before the blanks at its end. -/
theorem exists_eq_trimEnd (s : List Char) :
    ∃ back, (∀ c ∈ back, isBlank c = true) ∧ s = trimEnd s ++ back := by
  refine ⟨(s.reverse.takeWhile isBlank).reverse, fun c hc => ?_, ?_⟩
  · exact List.all_eq_true.mp List.all_takeWhile c (List.mem_reverse.mp hc)
  · rw [trimEnd, ← List.reverse_append, List.takeWhile_append_dropWhile, List.reverse_reverse]

/-- A text is what is left between the blanks at its ends. -/
theorem exists_eq_trim (s : List Char) :
    ∃ front back, (∀ c ∈ front, isBlank c = true) ∧ (∀ c ∈ back, isBlank c = true) ∧
      trimStart s = trim s ++ back ∧ s = front ++ trim s ++ back := by
  obtain ⟨back, hback, hend⟩ := exists_eq_trimEnd (trimStart s)
  refine ⟨s.takeWhile isBlank, back, List.all_eq_true.mp List.all_takeWhile, hback, hend, ?_⟩
  rw [List.append_assoc]
  exact (@List.takeWhile_append_dropWhile _ isBlank s).symm.trans (congrArg _ hend)

/-- What is left between the blanks was there. -/
theorem mem_of_mem_trim (h : c ∈ trim s) : c ∈ s := by
  obtain ⟨front, back, _, _, _, heq⟩ := exists_eq_trim s
  rw [heq]
  exact List.mem_append_left _ (List.mem_append_right _ h)

/-- What is not blank is not trimmed. -/
theorem mem_trim_of_mem (h : c ∈ s) (hc : isBlank c = false) : c ∈ trim s := by
  obtain ⟨front, back, hfront, hback, _, heq⟩ := exists_eq_trim s
  rw [heq] at h
  rcases List.mem_append.mp h with hmem | hmem
  · rcases List.mem_append.mp hmem with hmem | hmem
    · simp [hfront c hmem] at hc
    · exact hmem
  · simp [hback c hmem] at hc

/-- Trimming leaves a beginning without blanks as it is. -/
theorem trim_append_of_not_blank (hne : front ≠ []) (hfront : ∀ c ∈ front, isBlank c = false)
    (s : List Char) : trim (front ++ s) = front ++ trimEnd s := by
  have hstart : trimStart (front ++ s) = front ++ s := by
    refine trimStart_eq_self fun c hc => hfront c ?_
    rw [List.head?_append_of_ne_nil _ hne] at hc
    exact List.mem_of_mem_head? hc
  have hend : trimEnd (front ++ s) = front ++ trimEnd s := by
    have hlast : front.reverse.dropWhile isBlank = front.reverse := by
      refine trimStart_eq_self fun c hc => hfront c ?_
      exact List.mem_reverse.mp (List.mem_of_mem_head? hc)
    unfold trimEnd
    rw [List.reverse_append, List.dropWhile_append]
    split
    · next hnil => rw [List.isEmpty_iff.mp hnil, hlast]; simp
    · simp
  rw [trim, hstart, hend]

/-- Blanks at the end are trimmed. -/
theorem trim_append_of_blank (s : List Char) (hback : ∀ c ∈ back, isBlank c = true) :
    trim (s ++ back) = trim s := by
  induction back generalizing s with
  | nil => rw [List.append_nil]
  | cons c back ih =>
    obtain ⟨hc, hothers⟩ := List.forall_mem_cons.mp hback
    have hsplit : s ++ c :: back = (s ++ [c]) ++ back := by simp
    rw [hsplit, ih _ hothers, trim_concat_of_blank hc]

/-! ## Letters in either case -/

/-- The lowercase form of a capital. -/
theorem toNat_asciiLower {c : Char} (h : 'A' ≤ c ∧ c ≤ 'Z') :
    (asciiLower c).toNat = c.toNat + 32 ∧ asciiLower (asciiLower c) = asciiLower c := by
  have hleast : 65 ≤ c.toNat := h.1
  have hmost : c.toNat ≤ 90 := h.2
  rw [asciiLower, if_pos h]
  generalize c.toNat = code at hleast hmost
  interval_cases code <;> decide

/-- An ASCII letter is not blank, whether it is a capital or not. -/
theorem isBlank_asciiLower (c : Char) : isBlank (asciiLower c) = isBlank c := by
  by_cases hupper : 'A' ≤ c ∧ c ≤ 'Z'
  · have hleast : 65 ≤ c.toNat := hupper.1
    have hmost : c.toNat ≤ 90 := hupper.2
    rw [isBlank, isBlank, (toNat_asciiLower hupper).1]
    generalize c.toNat = code at hleast hmost
    interval_cases code <;> rfl
  · rw [asciiLower, if_neg hupper]

/-- A character that is the same letter as one that is not blank is not blank. -/
theorem isBlank_of_sameLetter {letter : Char} (h : sameLetter letter c = true)
    (hletter : isBlank (asciiLower letter) = false) : isBlank c = false := by
  have heq : asciiLower letter = asciiLower c := by simpa [sameLetter] using h
  rwa [heq, isBlank_asciiLower] at hletter

/-- Letters in either case are neither blank nor brackets if their lowercase forms are not. -/
theorem plain_of_sameLetter {word front : List Char}
    (h : List.Forall₂ (sameLetter · · = true) word front)
    (hword : ∀ c ∈ word, isBlank (asciiLower c) = false ∧ asciiLower c ≠ '<') :
    ∀ c ∈ front, isBlank c = false ∧ c ≠ '<' := by
  induction h with
  | nil => simp
  | @cons letter c word front hsame _ ih =>
    obtain ⟨⟨hblank, hopen⟩, hothers⟩ := List.forall_mem_cons.mp hword
    refine List.forall_mem_cons.mpr ⟨⟨isBlank_of_sameLetter hsame hblank, ?_⟩, ih hothers⟩
    rintro rfl
    have heq : asciiLower letter = asciiLower '<' := by simpa [sameLetter] using hsame
    exact hopen heq

/-- A character that is the same letter as an ASCII character is one itself. -/
theorem lt_of_sameLetter {letter : Char} (h : sameLetter letter c = true)
    (hletter : (asciiLower letter).toNat < 128) : c.toNat < 128 := by
  have heq : asciiLower letter = asciiLower c := by simpa [sameLetter] using h
  rw [heq] at hletter
  unfold asciiLower at hletter
  split at hletter
  · next hupper =>
    have hmost : c.toNat ≤ 90 := hupper.2
    omega
  · exact hletter

/-- The one character whose lowercase form depends on what is around it is not ASCII. -/
theorem ne_sigma_of_ascii (h : c.toNat < 128) : c ≠ 'Σ' := by
  rintro rfl
  exact absurd h (by decide)

/-- The lowercase form of an ASCII character does not depend on what is around it. -/
theorem lowerAfter_cons_of_ascii (h : c.toNat < 128) (before rest : List Char) :
    lowerAfter before (c :: rest) = asciiLower c :: lowerAfter (c :: before) rest := by
  rw [lowerAfter, if_neg (ne_sigma_of_ascii h), lowerChar, if_pos h]
  rfl

/-- Letters in either case have one lowercase form. -/
theorem lowerAfter_of_sameLetter {word front : List Char}
    (h : List.Forall₂ (sameLetter · · = true) word front)
    (hword : ∀ c ∈ word, asciiLower c = c ∧ c.toNat < 128) (before s : List Char) :
    lowerAfter before (front ++ s) = word ++ lowerAfter (front.reverse ++ before) s := by
  induction h generalizing before with
  | nil => rfl
  | @cons letter c word front hsame _ ih =>
    obtain ⟨⟨hlower, hascii⟩, hothers⟩ := List.forall_mem_cons.mp hword
    have heq : asciiLower letter = asciiLower c := by simpa [sameLetter] using hsame
    have hc : c.toNat < 128 := lt_of_sameLetter hsame (by rwa [hlower])
    rw [List.cons_append, lowerAfter_cons_of_ascii hc, ih hothers, ← heq, hlower]
    simp

/-- A word in either case has the one lowercase form. -/
theorem lower_eq_of_sameLetter {word front : List Char}
    (h : List.Forall₂ (sameLetter · · = true) word front)
    (hword : ∀ c ∈ word, asciiLower c = c ∧ c.toNat < 128) : lower front = word := by
  have hafter := lowerAfter_of_sameLetter h hword [] []
  simpa [lowerAfter, lower] using hafter

/-- A text does not get shorter in lower case. -/
theorem length_le_length_lower (before s : List Char) :
    s.length ≤ (lowerAfter before s).length := by
  induction s generalizing before with
  | nil => exact Nat.zero_le _
  | cons c rest ih =>
    have hrest := ih (c :: before)
    have hchar : 1 ≤ (lowerChar c).length := by
      unfold lowerChar
      split
      · exact Nat.le_refl _
      · split
        · simp
        · split <;> exact Nat.le_refl _
    unfold lowerAfter
    split
    · simpa using hrest
    · simp only [List.length_cons, List.length_append]
      omega

/-- An ASCII character is found in the lowercase form of a text. -/
theorem mem_lowerAfter (hc : c.toNat < 128) (h : c ∈ s) (before : List Char) :
    asciiLower c ∈ lowerAfter before s := by
  induction s generalizing before with
  | nil => cases h
  | cons first rest ih =>
    rcases List.mem_cons.mp h with rfl | hmem
    · rw [lowerAfter_cons_of_ascii hc]
      exact List.mem_cons_self
    · have hrest := ih hmem (first :: before)
      unfold lowerAfter
      split
      · exact List.mem_cons_of_mem _ hrest
      · exact List.mem_append_right _ hrest

/-- What is cut off in front is the head, letter by letter. -/
theorem exists_of_dropHeadBy {same : Char → Char → Bool} {head rest : List Char}
    (h : dropHeadBy same head s = some rest) :
    ∃ front, s = front ++ rest ∧ List.Forall₂ (same · · = true) head front := by
  induction head generalizing s with
  | nil =>
    cases h
    exact ⟨[], rfl, .nil⟩
  | cons first head ih =>
    cases s with
    | nil => cases h
    | cons c s =>
      rw [dropHeadBy] at h
      split at h
      · next hsame =>
        obtain ⟨front, rfl, hfront⟩ := ih h
        exact ⟨c :: front, rfl, .cons hsame hfront⟩
      · cases h

end Text

namespace Verb

/-- Only one word stands for a loop. -/
theorem eq_loop_of_ofWord? {word : String} (h : ofWord? word = some .loop) : word = "loop" := by
  have hword : "loop" = word := by simpa [name, alias?] using List.find?_some h
  exact hword.symm

/-- No other verb starts like a loop. -/
theorem ofWord?_of_loop {rest : List Char} {verb : Verb}
    (h : ofWord? (String.ofList ("loop".toList ++ rest)) = some verb) : verb = .loop := by
  have hword := List.find?_some h
  have hname (name : String) (hne : name.toList.head? ≠ some 'l') :
      name ≠ String.ofList ("loop".toList ++ rest) := by
    rintro rfl
    simp at hne
  simp only [Bool.or_eq_true, beq_iff_eq] at hword
  cases verb with
  | loop => rfl
  | action | craft =>
    rcases hword with heq | heq
    · exact absurd heq (hname _ (by decide))
    · exact absurd (Option.some.inj heq) (hname _ (by decide))
  | click | hold | item | native | recipe | release | require | requireQuality | requireRepair
  | requireSpiritbond | requireStats | runMacro | send | target | wait | waitAddon =>
    rcases hword with heq | heq
    · exact absurd heq (hname _ (by decide))
    · cases heq

end Verb

namespace Line

/-- What is left of a line that is a loop. -/
structure IsLoop (rest word arguments : List Char) : Prop where
  split : splitVerb? rest = some (word, arguments)
  lower_word : Text.lower word = "loop".toList
  arguments_eq : arguments = [] ∨ Numeral.isDigits arguments = true

/-- What is not blank after the slash begins the verb. -/
theorem word_of_splitVerb? {front s word arguments : List Char}
    (hfront : ∀ c ∈ front, Text.isBlank c = false)
    (h : splitVerb? ('/' :: (front ++ s)) = some (word, arguments)) :
    word = front ++ s.takeWhile (!Text.isBlank ·) := by
  obtain ⟨_, heq, rfl, _⟩ := splitVerb?_eq_some h
  obtain rfl := (List.cons.inj heq).2
  exact List.takeWhile_append_of_pos fun c hc => by simp [hfront c hc]

/-- No bracket is left of a loop. -/
theorem IsLoop.not_mem_open {rest word arguments : List Char} (h : IsLoop rest word arguments) :
    '<' ∉ rest := by
  obtain ⟨s, rfl, hword, harguments⟩ := splitVerb?_eq_some h.split
  intro hmem
  have hs : '<' ∈ s := by simpa using hmem
  rw [← List.takeWhile_append_dropWhile (p := (!Text.isBlank ·)) (l := s)] at hs
  rcases List.mem_append.mp hs with hs | hs
  · rw [← hword] at hs
    have hlower : Text.asciiLower '<' ∈ Text.lower word := Text.mem_lowerAfter (by decide) hs []
    rw [h.lower_word] at hlower
    exact absurd hlower (by decide)
  · have hargument : '<' ∈ arguments := by
      rw [harguments]
      obtain ⟨_, back, _, _, hstart, _⟩ := Text.exists_eq_trim (s.dropWhile (!Text.isBlank ·))
      rw [hstart]
      exact Text.mem_trim_of_mem (List.mem_append_left _ (Text.mem_trim_of_mem hs rfl)) rfl
    rcases h.arguments_eq with rfl | hdigits
    · cases hargument
    · have hdigit := List.all_eq_true.mp (Bool.and_eq_true_iff.mp hdigits).2 '<' hargument
      exact absurd hdigit (by decide)

/-- A loop is read off its verb and its count, and names no delay itself. -/
theorem exists_isLoop {reader : LineReader} {line : String} {modifiers : Modifiers}
    {rest : List Char} {kind : Command.Kind} {delay : Option Wait}
    (h : kindAndDelay reader line modifiers rest = .ok (kind, delay)) (hkind : kind.verb = .loop) :
    delay = none ∧ ∃ word arguments, IsLoop rest word arguments := by
  rcases kindAndDelay_cases h with
    ⟨word, arguments, verb, hsplit, hverb, hfound, hdelay⟩ | ⟨rfl, _⟩ | ⟨_, rfl, _⟩
  · obtain rfl : .loop = verb := hkind.symm.trans (verb_of_kindOf hfound)
    have hword : Text.lower word = "loop".toList := by
      have hloop := congrArg String.toList (Verb.eq_loop_of_ofWord? hverb)
      rwa [String.toList_ofList] at hloop
    have hwait : kind ≠ .wait := by
      rintro rfl
      cases hkind
    rw [if_neg hwait] at hdelay
    refine ⟨hdelay, word, arguments, hsplit, hword, ?_⟩
    cases makes_of_kindOf hfound with
    | named hnaming => cases hnaming
    | @keys _ motion _ hverb => cases motion <;> cases hverb
    | endlessLoop hnone => exact .inl hnone
    | loop hcount =>
      unfold Numeral.count? at hcount
      split at hcount
      · next hdigits => exact .inr (Bool.and_eq_true_iff.mp hdigits).1
      · cases hcount
  · cases hkind
  · cases hkind

end Line

namespace Modifiers

/-- A plain text in front stays where it is when a modifier with a value is taken out. -/
theorem takeValue_append_eq_ok_iff {α : Type} {modifier : ValuedModifier}
    {read? : List Char → Option α} {plain line s rest : List Char} {value? : Option α}
    (hplain : Plain plain) (other : List Char) :
    takeValue modifier read? line (plain ++ s) = .ok (value?, rest) ↔
      ∃ kept, rest = plain ++ kept ∧ takeValue modifier read? other s = .ok (value?, kept) := by
  unfold takeValue
  rw [takeOut_append (bracketed_valued _) hplain]
  cases takeOut (valued modifier.name.toList) s with
  | mk body? left =>
    cases body? with
    | none => simp [and_comm, eq_comm]
    | some body =>
      cases hread : read? body with
      | none => simp [hread]
      | some value => simp [hread, and_comm, eq_comm]

/-- A plain text in front stays where it is when a modifier without a value is taken out. -/
theorem takeFlag_append {plain : List Char} (hplain : Plain plain) (name : String)
    (s : List Char) :
    takeFlag name (plain ++ s) = ((takeFlag name s).1, plain ++ (takeFlag name s).2) := by
  rw [takeFlag, takeOut_append (bracketed_flag _) hplain]
  rfl

/-- Taking out modifiers leaves a plain text in front. -/
theorem exists_of_extract_append {plain s rest : List Char} {modifiers : Modifiers}
    (hplain : Plain plain) (h : extract (plain ++ s) = .ok (modifiers, rest)) :
    ∃ kept, rest = Text.trim (plain ++ kept) := by
  obtain ⟨⟨wait, rest⟩, hwait, h⟩ := exists_of_bind_eq_ok h
  obtain ⟨s, rfl, -⟩ := (takeValue_append_eq_ok_iff hplain s).mp hwait
  obtain ⟨⟨maxWait, rest⟩, hmaxWait, h⟩ := exists_of_bind_eq_ok h
  obtain ⟨s, rfl, -⟩ := (takeValue_append_eq_ok_iff hplain s).mp hmaxWait
  obtain ⟨⟨condition, rest⟩, hcondition, h⟩ := exists_of_bind_eq_ok h
  obtain ⟨s, rfl, -⟩ := (takeValue_append_eq_ok_iff hplain s).mp hcondition
  obtain ⟨⟨index, rest⟩, hindex, h⟩ := exists_of_bind_eq_ok h
  obtain ⟨s, rfl, -⟩ := (takeValue_append_eq_ok_iff hplain s).mp hindex
  simp only [takeFlag_append hplain] at h
  cases h
  exact ⟨_, rfl⟩

/-- The modifiers behind a plain text are those that would be found without it. -/
theorem exists_extract_append {plain s rest : List Char} {modifiers : Modifiers}
    (hplain : Plain plain) (h : extract s = .ok (modifiers, rest)) :
    ∃ kept, rest = Text.trim kept ∧
      extract (plain ++ s) = .ok (modifiers, Text.trim (plain ++ kept)) := by
  have hbehind {α : Type} {modifier : ValuedModifier} {read? : List Char → Option α}
      {value? : Option α} {other kept : List Char}
      (h : takeValue modifier read? s other = .ok (value?, kept)) :
      takeValue modifier read? (plain ++ s) (plain ++ other) = .ok (value?, plain ++ kept) :=
    (takeValue_append_eq_ok_iff hplain s).mpr ⟨kept, rfl, h⟩
  obtain ⟨⟨wait, _⟩, hwait, h⟩ := exists_of_bind_eq_ok h
  obtain ⟨⟨maxWait, _⟩, hmaxWait, h⟩ := exists_of_bind_eq_ok h
  obtain ⟨⟨condition, _⟩, hcondition, h⟩ := exists_of_bind_eq_ok h
  obtain ⟨⟨index, _⟩, hindex, h⟩ := exists_of_bind_eq_ok h
  obtain ⟨rfl, rfl⟩ := Prod.mk.inj (Except.ok.inj h)
  refine ⟨_, rfl, ?_⟩
  simp only [extract, bind, Except.bind, hbehind hwait, hbehind hmaxWait, hbehind hcondition,
    hbehind hindex, takeFlag_append hplain]
  rfl

/-- Taking out modifiers leaves a beginning without blanks and brackets as it is. -/
theorem exists_of_extract_append_of_unbroken {front s rest : List Char} {modifiers : Modifiers}
    (hne : front ≠ []) (hfront : ∀ c ∈ front, Text.isBlank c = false ∧ c ≠ '<')
    (h : extract (front ++ s) = .ok (modifiers, rest)) : ∃ more, rest = front ++ more := by
  have hplain : Plain front := fun c hc => Text.sameFolded_open (hfront c hc).2
  obtain ⟨kept, rfl⟩ := exists_of_extract_append hplain h
  exact ⟨_, Text.trim_append_of_not_blank hne (fun c hc => (hfront c hc).1) kept⟩

end Modifiers

namespace LineReader

variable {reader : LineReader} {line : List Char} {command : Command}

/-- The line is read as a command with this verb. -/
def ReadsAs (reader : LineReader) (line : List Char) (verb : Verb) : Prop :=
  ∃ command, reader.command line = .ok (some command) ∧ command.verb = verb

instance (reader : LineReader) (line : List Char) (verb : Verb) :
    Decidable (reader.ReadsAs line verb) :=
  match h : reader.command line with
  | .ok (some command) =>
    decidable_of_iff (command.verb = verb) (by simp [ReadsAs, h])
  | .ok none => isFalse (by simp [ReadsAs, h])
  | .error _ => isFalse (by simp [ReadsAs, h])

/-- A line with something on it that is no comment holds a command, if it can be read. -/
theorem exists_command_of_head {command? : Option Command}
    (h : reader.command line = .ok command?) (hhead : (Text.trim line).head? = some '/') :
    ∃ command, command? = some command := by
  unfold LineReader.command at h
  have hne : (Text.trim line).isEmpty = false := by
    cases htrim : Text.trim line with
    | nil => simp [htrim] at hhead
    | cons => rfl
  simp only [hne, hhead] at h
  obtain ⟨_, _, h⟩ := exists_of_bind_eq_ok h
  obtain ⟨_, _, h⟩ := exists_of_bind_eq_ok h
  cases h
  exact ⟨_, rfl⟩

end LineReader

namespace CraftLoop

variable {reader : LineReader} {line : List Char} {command : Command}

/-! ## Loop lines -/

/-- Blanks around a line do not matter for whether it is a loop line. -/
theorem isLoopLine_trim (line : List Char) : isLoopLine (Text.trim line) = isLoopLine line := by
  have htrimmed : Text.trimStart (Text.trim line) = Text.trim line :=
    Text.trimStart_eq_self Text.head?_trim
  obtain ⟨_, back, _, hback, hstart, _⟩ := Text.exists_eq_trim line
  unfold isLoopLine
  rw [htrimmed, hstart]
  cases back with
  | nil => rw [List.append_nil]
  | cons b back =>
    have hblank : Text.isBlank b = true := hback b List.mem_cons_self
    have hstop : ∀ c ∈ "/loop".toList, Text.sameLetter c b = false := by
      intro c hc
      rw [Bool.eq_false_iff]
      intro hsame
      have hletters : ∀ c ∈ "/loop".toList, Text.isBlank (Text.asciiLower c) = false :=
        Text.forall_of_all rfl
      cases hblank.symm.trans (Text.isBlank_of_sameLetter hsame (hletters c hc))
    rw [Text.dropHeadBy_append_of_stop hstop]
    cases Text.dropHeadBy Text.sameLetter "/loop".toList (Text.trim line) with
    | none => rfl
    | some rest =>
      cases rest with
      | nil => simp [hblank]
      | cons c rest => rfl

/-- A text that begins like a loop begins with a slash and four letters that are the word in either
case. -/
theorem exists_letters {s rest : List Char}
    (h : Text.dropHeadBy Text.sameLetter "/loop".toList s = some rest) :
    ∃ letters, s = '/' :: (letters ++ rest) ∧ letters.length = 4 ∧
      (∀ c ∈ '/' :: letters, Text.isBlank c = false ∧ c ≠ '<') ∧
      ∀ s, ∃ more, Text.lower (letters ++ s) = "loop".toList ++ more ∧
        s.length ≤ more.length := by
  obtain ⟨front, rfl, hfront⟩ := Text.exists_of_dropHeadBy h
  have hplain := Text.plain_of_sameLetter hfront (List.all_iff_forall_prop.mp rfl)
  cases hfront with
  | @cons _ c _ letters hslash hletters =>
    obtain rfl : c = '/' := by
      have hsame : Text.sameLetter '/' c = true := hslash
      have hlower : Text.asciiLower '/' = Text.asciiLower c := by
        simpa [Text.sameLetter] using hsame
      exact Text.eq_of_asciiLower (by decide) hlower.symm
    refine ⟨letters, rfl, hletters.length_eq.symm, hplain, fun s => ?_⟩
    exact ⟨_, Text.lowerAfter_of_sameLetter hletters (List.all_iff_forall_prop.mp rfl) [] s,
      Text.length_le_length_lower _ s⟩

/-- A loop whose line begins with its verb is found on a loop line. -/
theorem isLoopLine_of_loop (hcommand : reader.command line = .ok (some command))
    (hloop : command.verb = .loop)
    (hfirst : (Text.dropHeadBy Text.sameLetter "/loop".toList (Text.trim line)).isSome = true) :
    isLoopLine line = true := by
  obtain ⟨tail, htail⟩ := Option.isSome_iff_exists.mp hfirst
  rw [← isLoopLine_trim, isLoopLine, Text.trimStart_eq_self Text.head?_trim, htail]
  cases tail with
  | nil => rfl
  | cons c tail =>
    -- Any other character would belong to the verb.
    by_contra hother
    obtain ⟨hblank, hopen⟩ : Text.isBlank c = false ∧ c ≠ '<' := by simpa using hother
    obtain ⟨letters, htext, hlength, hletters, hlower⟩ := exists_letters htail
    have hverb : ∀ d ∈ '/' :: (letters ++ [c]), Text.isBlank d = false ∧ d ≠ '<' := by
      intro d hd
      rw [← List.cons_append] at hd
      rcases List.mem_append.mp hd with hd | hd
      · exact hletters d hd
      · exact List.mem_singleton.mp hd ▸ ⟨hblank, hopen⟩
    have hline : Text.trim line = '/' :: (letters ++ [c]) ++ tail := by simp [htext]
    obtain ⟨modifiers, rest, delay, hextract, hkind, _⟩ := LineReader.exists_of_command hcommand
    rw [hline] at hextract
    obtain ⟨more, rfl⟩ :=
      Modifiers.exists_of_extract_append_of_unbroken (by simp) hverb hextract
    obtain ⟨_, word, arguments, hisLoop⟩ := Line.exists_isLoop hkind hloop
    obtain rfl := Line.word_of_splitVerb?
      (fun d hd => (hverb d (List.mem_cons_of_mem _ hd)).1) hisLoop.split
    have hword := hisLoop.lower_word
    rw [List.append_assoc] at hword
    obtain ⟨after, hafter, hle⟩ := hlower ([c] ++ more.takeWhile (!Text.isBlank ·))
    have hlong := congrArg List.length (hword.symm.trans hafter)
    simp only [List.length_append, List.length_singleton] at hlong hle
    omega

/-- What is found on a loop line is a loop, unless it is a line for the game. -/
theorem exists_loop_of_isLoopLine {command? : Option Command}
    (hcommand : reader.command line = .ok command?) (hline : isLoopLine line = true)
    (hnative : ¬reader.ReadsAs line .native) :
    ∃ command, command? = some command ∧ command.verb = .loop := by
  rw [← isLoopLine_trim, isLoopLine, Text.trimStart_eq_self Text.head?_trim] at hline
  cases hdrop : Text.dropHeadBy Text.sameLetter "/loop".toList (Text.trim line) with
  | none =>
    rw [hdrop] at hline
    cases hline
  | some tail =>
    obtain ⟨letters, htext, hlength, hletters, hlower⟩ := exists_letters hdrop
    obtain ⟨command, rfl⟩ := LineReader.exists_command_of_head hcommand (by simp [htext])
    refine ⟨command, rfl, ?_⟩
    obtain ⟨modifiers, rest, delay, hextract, hkind, _⟩ := LineReader.exists_of_command hcommand
    have hsplit : Text.trim line = ('/' :: letters) ++ tail := by simp [htext]
    rw [hsplit] at hextract
    obtain ⟨more, rfl⟩ :=
      Modifiers.exists_of_extract_append_of_unbroken (by simp) hletters hextract
    rcases Line.kindAndDelay_cases hkind with
      ⟨word, arguments, verb, hverb, hofWord, hfound, _⟩ | ⟨_, hempty, _⟩ | ⟨_, hgame, _⟩
    · obtain rfl := Line.word_of_splitVerb?
        (fun d hd => (hletters d (List.mem_cons_of_mem _ hd)).1) hverb
      obtain ⟨after, hafter, _⟩ := hlower (more.takeWhile (!Text.isBlank ·))
      rw [hafter] at hofWord
      obtain rfl := Verb.ofWord?_of_loop hofWord
      exact Line.verb_of_kindOf hfound
    · cases hempty
    · exact absurd ⟨command, hcommand, congrArg Command.Kind.verb hgame⟩ hnative

end CraftLoop

end GameMacros
