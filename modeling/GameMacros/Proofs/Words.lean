import GameMacros.Proofs.LoopLines

/-!
# Words

A text without blanks at its ends is its words with a gap between each two, and reading the words
gives them back whatever the gaps are. Put together again, the words have a single space in place of
each gap. So a text comes out as it was exactly if it had no other gaps.
-/

namespace GameMacros.Text

/-- A word has something in it, and no blank. -/
structure IsWord (word : List Char) : Prop where
  ne_nil : word ≠ []
  not_blank : ∀ c ∈ word, isBlank c = false

/-- What stands between two words: one blank or more. -/
structure IsGap (gap : List Char) : Prop where
  ne_nil : gap ≠ []
  blank : ∀ c ∈ gap, isBlank c = true

/-- The text is made of the words, in order, with a gap between each two. -/
inductive Spaced : List (List Char) → List Char → Prop
  | last {word : List Char} (hword : IsWord word) : Spaced [word] word
  | cons {word gap s : List Char} {others : List (List Char)} (hword : IsWord word)
      (hgap : IsGap gap) (hothers : Spaced others s) : Spaced (word :: others) (word ++ gap ++ s)

/-- A space is a gap. -/
theorem isGap_space : IsGap [' '] :=
  ⟨List.cons_ne_nil _ _, by simp [isBlank]⟩

variable {word gap s : List Char} {parts : List (List Char)}

/-- Trimming leaves a word as it is. -/
theorem IsWord.trim_eq (h : IsWord word) : trim word = word :=
  trim_of_not_blank h.not_blank

theorem IsWord.any_isBlank_eq (h : IsWord word) : word.any isBlank = false := by
  simpa using h.not_blank

/-! ## Words in either case -/

/-- A word that can be looked for whatever the case of its letters: ASCII in lower case, without
blanks and without opening brackets. -/
structure IsPlainWord (word : List Char) : Prop where
  ne_nil : word ≠ []
  lower : ∀ c ∈ word, asciiLower c = c ∧ c.toNat < 128
  plain : ∀ c ∈ word, isBlank c = false ∧ c ≠ '<'

/-- The test for such words. -/
def isPlainWord (word : List Char) : Bool :=
  !word.isEmpty && word.all fun c =>
    asciiLower c == c && c.toNat < 128 && !isBlank c && c != '<'

theorem isPlainWord_iff : isPlainWord word = true ↔ IsPlainWord word := by
  have hparts : isPlainWord word = true ↔
      word ≠ [] ∧ ∀ c ∈ word, (asciiLower c = c ∧ c.toNat < 128) ∧ isBlank c = false ∧ c ≠ '<' := by
    simp [isPlainWord, and_assoc]
  rw [hparts]
  constructor
  · rintro ⟨hne, hletters⟩
    exact ⟨hne, fun c hc => (hletters c hc).1, fun c hc => (hletters c hc).2⟩
  · rintro ⟨hne, hlower, hplain⟩
    exact ⟨hne, fun c hc => ⟨hlower c hc, hplain c hc⟩⟩

instance (word : List Char) : Decidable (IsPlainWord word) :=
  decidable_of_iff _ isPlainWord_iff

namespace IsPlainWord

variable {written : List Char}

/-- The word is recognized in either case. -/
theorem lower_eq (h : IsPlainWord word)
    (hwritten : List.Forall₂ (sameLetter · · = true) word written) : Text.lower written = word :=
  lower_eq_of_sameLetter hwritten h.lower

/-- Written in either case it is still a word and brings no bracket. -/
theorem written_plain (h : IsPlainWord word)
    (hwritten : List.Forall₂ (sameLetter · · = true) word written) :
    written ≠ [] ∧ ∀ c ∈ written, isBlank c = false ∧ c ≠ '<' := by
  constructor
  · rintro rfl
    exact h.ne_nil (List.forall₂_nil_right_iff.mp hwritten)
  · refine plain_of_sameLetter hwritten fun c hc => ?_
    rw [(h.lower c hc).1]
    exact h.plain c hc

end IsPlainWord

/-! ## Reading words -/

/-- Characters that are not blank go on with the word being read. -/
theorem wordsAfter_append_of_not_blank (h : ∀ c ∈ word, isBlank c = false)
    (current s : List Char) :
    wordsAfter current (word ++ s) = wordsAfter (word.reverse ++ current) s := by
  induction word generalizing current with
  | nil => rfl
  | cons c word ih =>
    obtain ⟨hc, hothers⟩ := List.forall_mem_cons.mp h
    simp only [List.cons_append, wordsAfter, hc, Bool.false_eq_true, if_false, ih hothers,
      List.reverse_cons, List.append_assoc, List.nil_append]

/-- Blanks before a word are passed over. -/
theorem words_append_of_blank (h : ∀ c ∈ gap, isBlank c = true) (s : List Char) :
    words (gap ++ s) = words s := by
  unfold words
  induction gap with
  | nil => rfl
  | cons c gap ih =>
    obtain ⟨hc, hothers⟩ := List.forall_mem_cons.mp h
    simp only [List.cons_append, wordsAfter, hc, List.isEmpty_nil, if_true, ih hothers]

/-- A word ends where a gap begins. -/
theorem words_append (hword : IsWord word) (hgap : IsGap gap) (s : List Char) :
    words (word ++ gap ++ s) = word :: words s := by
  obtain ⟨b, others, rfl⟩ := List.exists_cons_of_ne_nil hgap.ne_nil
  obtain ⟨hb, hothers⟩ := List.forall_mem_cons.mp hgap.blank
  have hsome : word.reverse.isEmpty = false := by simpa using hword.ne_nil
  have hrest := words_append_of_blank hothers s
  unfold words at hrest ⊢
  rw [List.append_assoc, wordsAfter_append_of_not_blank hword.not_blank, List.append_nil]
  simp only [List.cons_append, wordsAfter, hb, hsome, hrest, if_true, Bool.false_eq_true, if_false,
    List.reverse_reverse]

/-- A word by itself is the only one. -/
theorem words_of_isWord (hword : IsWord word) : words word = [word] := by
  have hsome : word.reverse.isEmpty = false := by simpa using hword.ne_nil
  have hread := wordsAfter_append_of_not_blank hword.not_blank [] []
  rw [List.append_nil, List.append_nil] at hread
  unfold words
  rw [hread, wordsAfter, hsome, if_neg Bool.false_ne_true, List.reverse_reverse]

/-- The words are read back, whatever the gaps between them. -/
theorem Spaced.words_eq (h : Spaced parts s) : words s = parts := by
  induction h with
  | last hword => exact words_of_isWord hword
  | cons hword hgap _ ih => rw [words_append hword hgap, ih]

/-! ## Splitting a text into words -/

/-- A text without a blank in front begins with a word, which goes up to the first blank. -/
theorem exists_isWord_append (hne : s ≠ []) (hhead : ∀ c ∈ s.head?, isBlank c = false) :
    ∃ word behind, IsWord word ∧ (∀ c ∈ behind.head?, isBlank c = true) ∧ s = word ++ behind := by
  refine ⟨s.takeWhile (!isBlank ·), s.dropWhile (!isBlank ·), ⟨?_, ?_⟩, ?_,
    List.takeWhile_append_dropWhile.symm⟩
  · obtain ⟨c, others, rfl⟩ := List.exists_cons_of_ne_nil hne
    simp [hhead c rfl]
  · intro c hc
    simpa using List.all_eq_true.mp List.all_takeWhile c hc
  · intro c hc
    have hnot := List.head?_dropWhile_not (!isBlank ·) s
    rw [hc] at hnot
    simpa using hnot

/-- A text with a blank in front begins with a gap, which goes up to the next word. -/
theorem exists_isGap_append (hne : s ≠ []) (hhead : ∀ c ∈ s.head?, isBlank c = true) :
    ∃ gap rest, IsGap gap ∧ (∀ c ∈ rest.head?, isBlank c = false) ∧ s = gap ++ rest := by
  refine ⟨s.takeWhile isBlank, s.dropWhile isBlank, ⟨?_, ?_⟩, ?_,
    List.takeWhile_append_dropWhile.symm⟩
  · obtain ⟨c, others, rfl⟩ := List.exists_cons_of_ne_nil hne
    simp [hhead c rfl]
  · exact fun c hc => List.all_eq_true.mp List.all_takeWhile c hc
  · intro c hc
    have hnot := List.head?_dropWhile_not isBlank s
    rwa [hc] at hnot

/-- A text without blanks at its ends is made of words. The induction is on its length, since a
word and the gap behind it are taken off together. -/
theorem exists_spaced (hne : s ≠ []) (hhead : ∀ c ∈ s.head?, isBlank c = false)
    (hlast : ∀ c ∈ s.getLast?, isBlank c = false) : ∃ parts, Spaced parts s := by
  generalize hlength : s.length = length
  induction length using Nat.strong_induction_on generalizing s with
  | _ length ih =>
    obtain ⟨word, behind, hword, hbehind, rfl⟩ := exists_isWord_append hne hhead
    by_cases hnil : behind = []
    · rw [hnil, List.append_nil]
      exact ⟨[word], .last hword⟩
    obtain ⟨gap, rest, hgap, hrest, rfl⟩ := exists_isGap_append hnil hbehind
    -- The gap is not the end of the text, which has no blank there.
    have hmore : rest ≠ [] := by
      rintro rfl
      rw [List.append_nil, List.getLast?_append_of_ne_nil _ hgap.ne_nil] at hlast
      have hblank := hgap.blank _ (List.getLast_mem hgap.ne_nil)
      rw [hlast _ (List.getLast?_eq_some_getLast hgap.ne_nil)] at hblank
      cases hblank
    have hend : ∀ c ∈ rest.getLast?, isBlank c = false := by
      rw [← List.append_assoc, List.getLast?_append_of_ne_nil _ hmore] at hlast
      exact hlast
    have hshorter : rest.length < length := by
      have hpos := List.length_pos_iff.mpr hword.ne_nil
      rw [← hlength, List.length_append, List.length_append]
      omega
    obtain ⟨others, hothers⟩ := ih rest.length hshorter hmore hrest hend rfl
    refine ⟨word :: others, ?_⟩
    rw [← List.append_assoc]
    exact .cons hword hgap hothers

/-- The words of a trimmed text, with the gaps between them, make the text. -/
theorem words_eq_iff (hne : s ≠ []) (htrim : trim s = s) : words s = parts ↔ Spaced parts s := by
  constructor
  · rintro rfl
    obtain ⟨parts, hparts⟩ := exists_spaced hne (htrim ▸ head?_trim) (htrim ▸ getLast?_trim)
    rwa [hparts.words_eq]
  · exact Spaced.words_eq

end GameMacros.Text
