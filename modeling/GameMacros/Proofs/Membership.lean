import GameMacros.Proofs.Extraction
import GameMacros.Proofs.Rows

/-!
# Lists of conditions

A list of conditions stands for the set of its names. An action is used under the conditions that
are in the set, or, with a negation in front, under all others. How the names are ordered, repeated,
spaced or capitalized makes no difference, and a list that names nothing is no condition.
-/

namespace GameMacros

namespace Text

variable {separator : Char} {s front back : List Char}

/-! ## Pieces and blanks -/

/-- What is put before a text without a separator goes on with its first piece. -/
theorem pieces_append_of_not_mem (h : separator ∉ front) (s : List Char) :
    pieces separator (front ++ s) = (pieces separator s).modifyHead (front ++ ·) := by
  induction front with
  | nil => cases hs : pieces separator s <;> simp [hs]
  | cons c front ih =>
    obtain ⟨hne, hother⟩ := List.ne_and_not_mem_of_not_mem_cons h
    have hread : (c == separator) = false := beq_eq_false_iff_ne.mpr (Ne.symm hne)
    simp only [pieces_eq_splitOn, List.splitOn] at ih ⊢
    rw [List.cons_append, List.splitOnP_cons_eq_if_modifyHead, hread, ih hother]
    simp [List.modifyHead_modifyHead, Function.comp_def]

/-- There is always a piece. -/
theorem exists_pieces_eq_cons (separator : Char) (s : List Char) :
    ∃ first others, pieces separator s = first :: others := by
  rw [pieces_eq_splitOn]
  exact List.exists_cons_of_ne_nil (List.splitOnP_ne_nil _ _)

/-- Blanks in front of a text are trimmed. -/
theorem trim_append_of_blank_front (h : ∀ c ∈ front, isBlank c = true) (s : List Char) :
    trim (front ++ s) = trim s := by
  rw [trim, trimStart, List.dropWhile_append_of_pos h]
  rfl

/-- Blanks around a text are around its first and its last piece. -/
theorem map_trim_pieces_append (hseparator : isBlank separator = false)
    (hfront : ∀ c ∈ front, isBlank c = true) (hback : ∀ c ∈ back, isBlank c = true)
    (s : List Char) :
    (pieces separator (front ++ s ++ back)).map trim = (pieces separator s).map trim := by
  have hnot {gap : List Char} (hgap : ∀ c ∈ gap, isBlank c = true) : separator ∉ gap := by
    intro hmem
    rw [hgap separator hmem] at hseparator
    cases hseparator
  have hend : (pieces separator (s ++ back)).map trim = (pieces separator s).map trim := by
    obtain ⟨parts, last, hparts, hlonger⟩ := exists_splitOn_append_of_not_mem (hnot hback) s
    rw [pieces_eq_splitOn, pieces_eq_splitOn, hparts, hlonger, List.map_append, List.map_append,
      List.map_singleton, List.map_singleton, trim_append_of_blank last hback]
  obtain ⟨first, others, hpieces⟩ := exists_pieces_eq_cons separator (s ++ back)
  rw [← hend, List.append_assoc, pieces_append_of_not_mem (hnot hfront), hpieces,
    List.modifyHead_cons, List.map_cons, List.map_cons, trim_append_of_blank_front hfront]

/-! ## Capitals -/

/-- The ASCII letters have case, and case rules do not skip over them. -/
theorem inSpans_of_letter {code : Nat} (h : 65 ≤ code ∧ code ≤ 90 ∨ 97 ≤ code ∧ code ≤ 122) :
    inSpans casedSpans code = true ∧ inSpans caseIgnorableSpans code = false := by
  have hgaps : caseIgnorableSpans.all (fun span =>
      (span.2 < 65 || 90 < span.1) && (span.2 < 97 || 122 < span.1)) = true := by decide +kernel
  have hcased : ∀ span ∈ [(65, 90), (97, 122)], span ∈ casedSpans := by
    have hprefix : [(65, 90), (97, 122)] <+: casedSpans := ⟨_, rfl⟩
    exact fun span hspan => hprefix.subset hspan
  constructor
  · refine List.any_eq_true.mpr ?_
    obtain hcapital | hsmall := h
    · exact ⟨(65, 90), hcased _ (by decide), by simpa using hcapital⟩
    · exact ⟨(97, 122), hcased _ (by decide), by simpa using hsmall⟩
  · refine List.any_eq_false.mpr fun span hspan hinside => ?_
    have hgap := List.all_eq_true.mp hgaps span hspan
    simp only [Bool.and_eq_true, Bool.or_eq_true, decide_eq_true_eq] at hgap hinside
    omega

/-- Whether an ASCII letter is a capital does not matter to any test on codes that takes all letters
alike. -/
theorem code_test_asciiLower {test : Nat → Bool} {answer : Bool}
    (htest : ∀ code, 65 ≤ code ∧ code ≤ 90 ∨ 97 ≤ code ∧ code ≤ 122 → test code = answer)
    (c : Char) : test (asciiLower c).toNat = test c.toNat := by
  by_cases hupper : 'A' ≤ c ∧ c ≤ 'Z'
  · have hleast : 65 ≤ c.toNat := hupper.1
    have hmost : c.toNat ≤ 90 := hupper.2
    rw [(toNat_asciiLower hupper).1, htest _ (.inl ⟨hleast, hmost⟩), htest _ (.inr (by omega))]
  · rw [asciiLower, if_neg hupper]

theorem isCased_asciiLower (c : Char) : isCased (asciiLower c) = isCased c :=
  code_test_asciiLower (fun _ hletter => (inSpans_of_letter hletter).1) c

theorem isCaseIgnorable_asciiLower (c : Char) :
    isCaseIgnorable (asciiLower c) = isCaseIgnorable c :=
  code_test_asciiLower (fun _ hletter => (inSpans_of_letter hletter).2) c

/-- A capital letter and its lowercase form are ASCII. -/
theorem ascii_of_capital {c : Char} (h : 'A' ≤ c ∧ c ≤ 'Z') :
    c.toNat < 128 ∧ (asciiLower c).toNat < 128 := by
  have hmost : c.toNat ≤ 90 := h.2
  rw [(toNat_asciiLower h).1]
  omega

theorem lowerChar_asciiLower (c : Char) : lowerChar (asciiLower c) = lowerChar c := by
  by_cases hupper : 'A' ≤ c ∧ c ≤ 'Z'
  · obtain ⟨hascii, hlower⟩ := ascii_of_capital hupper
    rw [lowerChar, lowerChar, if_pos hascii, if_pos hlower, (toNat_asciiLower hupper).2]
  · rw [asciiLower, if_neg hupper]

/-- The capital sigma is no ASCII letter. -/
theorem asciiLower_eq_sigma_iff (c : Char) : asciiLower c = 'Σ' ↔ c = 'Σ' := by
  by_cases hupper : 'A' ≤ c ∧ c ≤ 'Z'
  · obtain ⟨hascii, hlower⟩ := ascii_of_capital hupper
    exact iff_of_false (ne_sigma_of_ascii hlower) (ne_sigma_of_ascii hascii)
  · rw [asciiLower, if_neg hupper]

theorem meetsCased_map_asciiLower (s : List Char) :
    meetsCased (s.map asciiLower) = meetsCased s := by
  have hskip : isCaseIgnorable ∘ asciiLower = isCaseIgnorable :=
    funext isCaseIgnorable_asciiLower
  unfold meetsCased
  rw [List.dropWhile_map, hskip]
  cases s.dropWhile isCaseIgnorable with
  | nil => rfl
  | cons c rest => exact isCased_asciiLower c

theorem lowerAfter_map_asciiLower (before s : List Char) :
    lowerAfter (before.map asciiLower) (s.map asciiLower) = lowerAfter before s := by
  induction s generalizing before with
  | nil => rfl
  | cons c s ih =>
    have hrest := ih (c :: before)
    rw [List.map_cons] at hrest
    rw [List.map_cons, lowerAfter, lowerAfter, hrest, meetsCased_map_asciiLower,
      meetsCased_map_asciiLower, lowerChar_asciiLower]
    simp only [asciiLower_eq_sigma_iff]

/-- Texts that differ in ASCII capitals only have one lowercase form. -/
theorem lower_congr {other : List Char} (h : s.map asciiLower = other.map asciiLower) :
    lower s = lower other := by
  have hsame := lowerAfter_map_asciiLower [] s
  rw [h] at hsame
  exact hsame.symm.trans (lowerAfter_map_asciiLower [] other)

/-- Only nothing has nothing as its lowercase form. -/
theorem lower_eq_nil_iff : lower s = [] ↔ s = [] := by
  constructor
  · intro h
    have hlength := length_le_length_lower [] s
    rw [show lowerAfter [] s = [] from h] at hlength
    exact List.length_eq_zero_iff.mp (Nat.le_zero.mp hlength)
  · rintro rfl
    rfl

end Text

namespace Condition

/-! ## Writing a list -/

/-- What turns a list around when it stands in front: an exclamation mark, or the word for it with
a point, each letter in either case. -/
inductive IsNegation : List Char → Prop
  | mark : IsNegation ['!']
  | word {written : List Char} (hword : written.map Text.asciiLower = "not.".toList) :
      IsNegation written

/-- An entry of a list, which may have blanks around it or be blank. -/
structure IsEntry (entry : List Char) : Prop where
  comma_not_mem : ',' ∉ entry
  open_not_mem : '<' ∉ entry
  close_not_mem : '>' ∉ entry

/-- The list is written for the entries, with commas between them, and is negated or not. A list
that is not negated must not look as if it were. -/
inductive Writes (entries : List (List Char)) : Bool → List Char → Prop
  | plain (hfirst : ∀ first ∈ entries.head?, ∀ opening rest, IsNegation opening →
        Text.trim first ≠ opening ++ rest) :
      Writes entries false (List.intercalate [','] entries)
  | negated {gap opening : List Char} (hgap : ∀ c ∈ gap, Text.isBlank c = true)
      (hopening : IsNegation opening) :
      Writes entries true (gap ++ opening ++ List.intercalate [','] entries)

/-- One of the entries is the current condition, up to blanks around it and to its case. -/
def IsListed (entries : List (List Char)) (current : String) : Prop :=
  ∃ entry ∈ entries, Text.trim entry ≠ [] ∧
    Text.lower (Text.trim entry) = Text.lower (Text.trim current.toList)

/-- Each entry of one list that is not blank has one in the other list that is written with the same
letters between its blanks, whatever the case of the ASCII letters. -/
def Covers (others entries : List (List Char)) : Prop :=
  ∀ entry ∈ entries, Text.trim entry ≠ [] → ∃ other ∈ others,
    (Text.trim other).map Text.asciiLower = (Text.trim entry).map Text.asciiLower

/-- What the modifier with a list says about the current condition, unless it is malformed. -/
def answer? (list : List Char) (current : String) : Option Bool :=
  match Modifiers.extract (Modifiers.token .condition list) with
  | .ok (modifiers, _) => modifiers.condition.map (·.holds current)
  | .error _ => none

variable {entries others : List (List Char)} {negated : Bool} {list body rest : List Char}

theorem normalize_trim (s : List Char) : normalize (Text.trim s) = normalize s := by
  rw [normalize, Text.trim_trim, normalize]

theorem normalize_eq_empty_iff {s : List Char} : normalize s = "" ↔ Text.trim s = [] := by
  rw [normalize, ← Text.lower_eq_nil_iff (s := Text.trim s)]
  simp

/-- The names of a list are the entries that are not blank, in the form in which names are
compared. -/
theorem mem_namesOf_iff {name : String} :
    name ∈ namesOf body ↔ ∃ piece ∈ Text.pieces ',' body, Text.trim piece ≠ [] ∧
      normalize piece = name := by
  rw [namesOf, Text.mem_sortedSet, List.mem_filter, List.mem_map]
  constructor
  · rintro ⟨⟨piece, hpiece, rfl⟩, hne⟩
    exact ⟨piece, hpiece, mt normalize_eq_empty_iff.mpr (of_decide_eq_true hne), rfl⟩
  · rintro ⟨piece, hpiece, hne, rfl⟩
    exact ⟨⟨piece, hpiece, rfl⟩, decide_eq_true (mt normalize_eq_empty_iff.mp hne)⟩

/-- The pieces of a list are its entries, and a list without entries has nothing in it. -/
theorem exists_piece_iff (hentries : ∀ entry ∈ entries, IsEntry entry)
    {p : List Char → Prop} (hp : ¬p []) :
    (∃ piece ∈ Text.pieces ',' (List.intercalate [','] entries), p (Text.trim piece)) ↔
      ∃ entry ∈ entries, p (Text.trim entry) := by
  by_cases hnil : entries = []
  · subst hnil
    have hnone : Text.trim [] = [] := rfl
    simp [Text.pieces, hnone, hp]
  · rw [Text.pieces_eq_splitOn,
      List.splitOn_intercalate ',' (fun entry hentry => (hentries entry hentry).comma_not_mem) hnil]

/-- The same, where blanks around the list are gone. -/
theorem exists_piece_trimmed_iff (hentries : ∀ entry ∈ entries, IsEntry entry)
    {front back : List Char} (hfront : ∀ c ∈ front, Text.isBlank c = true)
    (hback : ∀ c ∈ back, Text.isBlank c = true)
    (hbody : List.intercalate [','] entries = front ++ body ++ back) {p : List Char → Prop}
    (hp : ¬p []) :
    (∃ piece ∈ Text.pieces ',' body, p (Text.trim piece)) ↔
      ∃ entry ∈ entries, p (Text.trim entry) := by
  have hcomma : Text.isBlank ',' = false := by decide
  have hpieces := Text.map_trim_pieces_append hcomma hfront hback body
  have hmem (body : List Char) : (∃ piece ∈ Text.pieces ',' body, p (Text.trim piece)) ↔
      ∃ trimmed ∈ (Text.pieces ',' body).map Text.trim, p trimmed := by simp
  rw [hmem, ← hpieces, ← hbody, ← hmem, exists_piece_iff hentries hp]

/-- The characters of a negation. -/
theorem IsNegation.plain {opening : List Char} (h : IsNegation opening) :
    opening ≠ [] ∧ ',' ∉ opening ∧ '<' ∉ opening ∧ '>' ∉ opening ∧
      ∀ c ∈ opening, Text.isBlank c = false := by
  cases h with
  | mark => simp [Text.isBlank]
  | word hword =>
    have hletter {c : Char} (hc : c ∈ opening) : Text.asciiLower c ∈ "not.".toList :=
      hword ▸ List.mem_map_of_mem hc
    have hblank : ∀ letter ∈ "not.".toList, Text.isBlank letter = false := by
      simp [Text.isBlank]
    refine ⟨?_, fun hc => ?_, fun hc => ?_, fun hc => ?_, fun c hc => ?_⟩
    · rintro rfl
      cases hword
    · exact absurd (hletter hc) (by decide)
    · exact absurd (hletter hc) (by decide)
    · exact absurd (hletter hc) (by decide)
    · rw [← Text.isBlank_asciiLower]
      exact hblank _ (hletter hc)

/-- What follows a negation is the list that is turned around. -/
theorem splitNegation_append {opening : List Char} (h : IsNegation opening) (rest : List Char) :
    splitNegation (opening ++ rest) = (true, rest) := by
  cases h with
  | mark => rfl
  | word hword =>
    have hdrop : Text.dropHeadBy Text.sameLetter "not.".toList (opening ++ rest) = some rest :=
      Text.dropHeadBy_eq_some_iff.mpr ⟨opening, rfl, hword⟩
    unfold splitNegation
    rw [hdrop]

/-- A list that does not start with a negation is not turned around. -/
theorem splitNegation_of_plain (h : ∀ opening rest, IsNegation opening → body ≠ opening ++ rest) :
    splitNegation body = (false, body) := by
  unfold splitNegation
  split
  · next rest hdrop =>
    obtain ⟨written, hbody, hwritten⟩ := Text.dropHeadBy_eq_some_iff.mp hdrop
    exact absurd hbody (h written rest (.word hwritten))
  · split
    · next rest _ => exact absurd rfl (h ['!'] rest .mark)
    · rfl

/-- What is written for the entries is turned around as intended, and what is left for the names is
the entries, up to blanks. -/
theorem Writes.splitNegation_trim (hentries : ∀ entry ∈ entries, IsEntry entry)
    (h : Writes entries negated list) :
    ∃ front back body, (∀ c ∈ front, Text.isBlank c = true) ∧
      (∀ c ∈ back, Text.isBlank c = true) ∧
      List.intercalate [','] entries = front ++ body ++ back ∧
      splitNegation (Text.trim list) = (negated, body) := by
  cases h with
  | plain hfirst =>
    obtain ⟨front, back, hfront, hback, -, hbody⟩ :=
      Text.exists_eq_trim (List.intercalate [','] entries)
    refine ⟨front, back, _, hfront, hback, hbody, splitNegation_of_plain ?_⟩
    intro opening rest hopening hrest
    obtain ⟨hne, hcomma, -, -, hplain⟩ := hopening.plain
    by_cases hnil : entries = []
    · subst hnil
      exact hne (List.append_eq_nil_iff.mp hrest.symm).1
    · -- The negation would be in front of the first entry.
      have hseparator : Text.isBlank ',' = false := by decide
      have hpieces := Text.map_trim_pieces_append hseparator hfront hback
        (Text.trim (List.intercalate [','] entries))
      obtain ⟨first, others, hothers⟩ := Text.exists_pieces_eq_cons ',' rest
      rw [← hbody, hrest, Text.pieces_append_of_not_mem hcomma, hothers, Text.pieces_eq_splitOn,
        List.splitOn_intercalate ',' (fun entry hentry => (hentries entry hentry).comma_not_mem)
          hnil, List.modifyHead_cons, List.map_cons,
        Text.trim_append_of_not_blank hne hplain] at hpieces
      cases entries with
      | nil => exact hnil rfl
      | cons entry entries =>
        exact hfirst entry rfl opening _ hopening (List.cons.inj hpieces).1
  | @negated gap opening hgap hopening =>
    obtain ⟨hne, -, -, -, hplain⟩ := hopening.plain
    obtain ⟨back, hback, hbody⟩ := Text.exists_eq_trimEnd (List.intercalate [','] entries)
    refine ⟨[], back, _, nofun, hback, hbody, ?_⟩
    rw [List.append_assoc, Text.trim_append_of_blank_front hgap,
      Text.trim_append_of_not_blank hne hplain]
    exact splitNegation_append hopening _

/-- There are no brackets in what is written for entries. -/
theorem Writes.not_mem_brackets (hentries : ∀ entry ∈ entries, IsEntry entry)
    (h : Writes entries negated list) : '<' ∉ list ∧ '>' ∉ list := by
  have hjoined {c : Char} (hcomma : c ≠ ',') (hnot : ∀ entry ∈ entries, c ∉ entry) :
      c ∉ List.intercalate [','] entries := by
    intro hc
    obtain heq | ⟨entry, hentry, hmem⟩ := Text.mem_intercalate hc
    · exact hcomma heq
    · exact hnot entry hentry hmem
  have hopen := hjoined (c := '<') (by decide) fun entry hentry =>
    (hentries entry hentry).open_not_mem
  have hclose := hjoined (c := '>') (by decide) fun entry hentry =>
    (hentries entry hentry).close_not_mem
  cases h with
  | plain _ => exact ⟨hopen, hclose⟩
  | @negated gap opening hgap hopening =>
    obtain ⟨-, -, hopen', hclose', -⟩ := hopening.plain
    have hsymbol {c : Char} (hc : Text.isBlank c = false) : c ∉ gap := by
      intro hmem
      rw [hgap c hmem] at hc
      cases hc
    simp only [List.mem_append, not_or]
    exact ⟨⟨⟨hsymbol rfl, hopen'⟩, hopen⟩, ⟨⟨hsymbol rfl, hclose'⟩, hclose⟩⟩

/-- The names of a condition are the entries of its list. -/
theorem Writes.ofText?_eq_some (hentries : ∀ entry ∈ entries, IsEntry entry)
    (h : Writes entries negated list) (hsome : ∃ entry ∈ entries, Text.trim entry ≠ []) :
    ∃ names, ofText? list = some ⟨names, negated⟩ ∧ ∀ name, name ∈ names ↔
      ∃ entry ∈ entries, Text.trim entry ≠ [] ∧ normalize (Text.trim entry) = name := by
  obtain ⟨front, back, body, hfront, hback, hbody, hsplit⟩ := h.splitNegation_trim hentries
  have hnames (name : String) : name ∈ namesOf body ↔
      ∃ entry ∈ entries, Text.trim entry ≠ [] ∧ normalize (Text.trim entry) = name := by
    rw [← exists_piece_trimmed_iff hentries hfront hback hbody
      (p := fun trimmed => trimmed ≠ [] ∧ normalize trimmed = name) (by simp), mem_namesOf_iff]
    simp only [normalize_trim]
  obtain ⟨entry, hentry, hne⟩ := hsome
  refine ⟨namesOf body, ?_, hnames⟩
  unfold ofText?
  rw [hsplit]
  dsimp only
  split
  · next hnone => exact absurd ((hnames _).mpr ⟨entry, hentry, hne, rfl⟩) (by simp [hnone])
  · rfl

/-- A list of blank entries is no condition. -/
theorem Writes.ofText?_eq_none (hentries : ∀ entry ∈ entries, IsEntry entry)
    (h : Writes entries negated list) (hblank : ∀ entry ∈ entries, Text.trim entry = []) :
    ofText? list = none := by
  obtain ⟨front, back, body, hfront, hback, hbody, hsplit⟩ := h.splitNegation_trim hentries
  have hnone : namesOf body = [] := by
    refine List.eq_nil_iff_forall_not_mem.mpr fun name hname => ?_
    obtain ⟨piece, hpiece, hne, -⟩ := mem_namesOf_iff.mp hname
    obtain ⟨entry, hentry, hfull⟩ := (exists_piece_trimmed_iff hentries hfront hback hbody
      (p := (· ≠ [])) (by simp)).mp ⟨piece, hpiece, hne⟩
    exact hfull (hblank entry hentry)
  unfold ofText?
  rw [hsplit]
  simp only [hnone]

/-! ## What a list means -/

instance (entries : List (List Char)) (current : String) : Decidable (IsListed entries current) :=
  inferInstanceAs (Decidable (∃ entry ∈ entries, _))

/-- A condition holds if the current one is among its names, or is not. -/
theorem holds_eq {names : List String} {current : String}
    (hnames : ∀ name, name ∈ names ↔
      ∃ entry ∈ entries, Text.trim entry ≠ [] ∧ normalize (Text.trim entry) = name) :
    holds ⟨names, negated⟩ current = (decide (IsListed entries current) != negated) := by
  have hlisted : normalize current.toList ∈ names ↔ IsListed entries current := by
    rw [hnames, IsListed]
    simp only [normalize, Text.trim_trim, String.ofList_inj]
  rw [holds, List.contains_eq_mem, decide_eq_decide.mpr hlisted]

/-- The modifier with a list of names. -/
theorem Writes.extract_eq_ok (hentries : ∀ entry ∈ entries, IsEntry entry)
    (h : Writes entries negated list) (hsome : ∃ entry ∈ entries, Text.trim entry ≠ []) :
    ∃ condition : Condition, Modifiers.extract (Modifiers.token .condition list) =
        .ok ({ condition := some condition }, []) ∧
      ∀ current, condition.holds current = (decide (IsListed entries current) != negated) := by
  obtain ⟨hopen, hclose⟩ := h.not_mem_brackets hentries
  obtain ⟨names, hread, hnames⟩ := h.ofText?_eq_some hentries hsome
  refine ⟨⟨names, negated⟩, ?_, fun current => holds_eq hnames⟩
  rw [Modifiers.extract_token hopen hclose, Modifiers.ofBody?, hread]
  rfl

/-- The modifier with a list of blank entries. -/
theorem Writes.extract_eq_error (hentries : ∀ entry ∈ entries, IsEntry entry)
    (h : Writes entries negated list) (hblank : ∀ entry ∈ entries, Text.trim entry = []) :
    Modifiers.extract (Modifiers.token .condition list) =
      .error (.malformedModifier .condition (String.ofList (Modifiers.token .condition list))) := by
  obtain ⟨hopen, hclose⟩ := h.not_mem_brackets hentries
  rw [Modifiers.extract_token hopen hclose, Modifiers.ofBody?, h.ofText?_eq_none hentries hblank]
  rfl

/-- What the modifier says about the current condition. -/
theorem Writes.answer?_eq (hentries : ∀ entry ∈ entries, IsEntry entry)
    (h : Writes entries negated list) (current : String) :
    answer? list current = if ∃ entry ∈ entries, Text.trim entry ≠ [] then
      some (decide (IsListed entries current) != negated) else none := by
  split
  · next hsome =>
    obtain ⟨condition, hextract, hholds⟩ := h.extract_eq_ok hentries hsome
    rw [answer?, hextract]
    simp only [Option.map_some, hholds]
  · next hnone =>
    have hblank : ∀ entry ∈ entries, Text.trim entry = [] := by simpa using hnone
    rw [answer?, h.extract_eq_error hentries hblank]

/-- What one list names, one that covers it names too. -/
theorem Covers.isListed (h : Covers others entries) {current : String}
    (hlisted : IsListed entries current) : IsListed others current := by
  obtain ⟨entry, hentry, hne, hcurrent⟩ := hlisted
  obtain ⟨other, hother, hsame⟩ := h entry hentry hne
  refine ⟨other, hother, ?_, (Text.lower_congr hsame).trans hcurrent⟩
  intro hnil
  rw [hnil] at hsame
  exact hne (List.map_eq_nil_iff.mp hsame.symm)

/-- A list that covers one that names something does so as well. -/
theorem Covers.exists_ne (h : Covers others entries)
    (hsome : ∃ entry ∈ entries, Text.trim entry ≠ []) : ∃ other ∈ others, Text.trim other ≠ [] := by
  obtain ⟨entry, hentry, hne⟩ := hsome
  -- An entry is in its own list, so it is the current condition for once.
  obtain ⟨other, hother, hfull, -⟩ :=
    @Covers.isListed _ _ h (String.ofList entry) ⟨entry, hentry, hne, by rw [String.toList_ofList]⟩
  exact ⟨other, hother, hfull⟩

/-- What a list of entries means that is written with or without a negation. -/
structure MeansMembership (entries : List (List Char)) (negated : Bool) (list : List Char) :
    Prop where
  malformed_iff : Modifiers.extract (Modifiers.token .condition list) =
      .error (.malformedModifier .condition (String.ofList (Modifiers.token .condition list))) ↔
    ∀ entry ∈ entries, Text.trim entry = []
  holds_iff : (∃ entry ∈ entries, Text.trim entry ≠ []) → ∃ condition : Condition,
    Modifiers.extract (Modifiers.token .condition list) =
        .ok ({ condition := some condition }, []) ∧
      ∀ current, condition.holds current = true ↔ ¬(IsListed entries current ↔ negated = true)
  /-- How the entries are ordered, padded, repeated and capitalized does not matter. -/
  answer_eq : ∀ others list', (∀ other ∈ others, IsEntry other) → Writes others negated list' →
    Covers others entries → Covers entries others →
    ∀ current, answer? list' current = answer? list current
  complement : ∀ list', Writes entries (!negated) list' →
    ∀ current, answer? list' current = (answer? list current).map (!·)

/-- A list of conditions stands for the set of its names or for all others. -/
theorem meansMembership_of_writes (hentries : ∀ entry ∈ entries, IsEntry entry)
    (h : Writes entries negated list) : MeansMembership entries negated list where
  malformed_iff := by
    refine ⟨fun hmalformed => ?_, h.extract_eq_error hentries⟩
    by_contra hblank
    obtain ⟨condition, hextract, -⟩ := h.extract_eq_ok hentries (by simpa using hblank)
    cases hextract.symm.trans hmalformed
  holds_iff hsome := by
    obtain ⟨condition, hextract, hholds⟩ := h.extract_eq_ok hentries hsome
    refine ⟨condition, hextract, fun current => ?_⟩
    rw [hholds]
    cases negated <;> simp
  answer_eq others list' hothers hwrites hcover hcover' current := by
    have hlisted : IsListed others current ↔ IsListed entries current :=
      ⟨hcover'.isListed, hcover.isListed⟩
    have hsome : (∃ other ∈ others, Text.trim other ≠ []) ↔
        ∃ entry ∈ entries, Text.trim entry ≠ [] := ⟨hcover'.exists_ne, hcover.exists_ne⟩
    rw [hwrites.answer?_eq hothers, h.answer?_eq hentries]
    simp only [hlisted, hsome]
  complement list' hwrites current := by
    rw [hwrites.answer?_eq hentries, h.answer?_eq hentries]
    split
    · cases negated <;> simp
    · rfl

/-- `NOT. Poor,,normal ` admits any condition but the two, as `!normal,POOR` does. -/
theorem meansMembership_of_poor_or_normal :
    ∃ (list list' : List Char), list = "NOT. Poor,,normal ".toList ∧
      list' = "!normal,POOR".toList ∧
      MeansMembership [" Poor".toList, [], "normal ".toList] true list ∧
      answer? list' "Normal" = some false ∧ answer? list' "Good" = some true ∧
      (∀ current, answer? list' current = answer? list current) := by
  have hentries : ∀ entry ∈ [" Poor".toList, [], "normal ".toList], IsEntry entry := by
    refine List.forall_mem_cons.mpr ⟨⟨by decide, by decide, by decide⟩, ?_⟩
    refine List.forall_mem_cons.mpr ⟨⟨by decide, by decide, by decide⟩, ?_⟩
    exact List.forall_mem_singleton.mpr ⟨by decide, by decide, by decide⟩
  have hothers : ∀ other ∈ ["normal".toList, "POOR".toList], IsEntry other := by
    refine List.forall_mem_cons.mpr ⟨⟨by decide, by decide, by decide⟩, ?_⟩
    exact List.forall_mem_singleton.mpr ⟨by decide, by decide, by decide⟩
  have hmeans := meansMembership_of_writes hentries
    (@Writes.negated _ [] "NOT.".toList nofun (.word (by decide)))
  have hcover : Covers ["normal".toList, "POOR".toList] [" Poor".toList, [], "normal ".toList] := by
    unfold Covers
    decide
  have hcover' :
      Covers [" Poor".toList, [], "normal ".toList] ["normal".toList, "POOR".toList] := by
    unfold Covers
    decide
  have hwrites : Writes ["normal".toList, "POOR".toList] true "!normal,POOR".toList :=
    @Writes.negated _ [] ['!'] nofun .mark
  exact ⟨_, _, rfl, rfl, hmeans, (hwrites.answer?_eq hothers "Normal").trans (by decide),
    (hwrites.answer?_eq hothers "Good").trans (by decide),
    hmeans.answer_eq _ _ hothers hwrites hcover hcover'⟩

end Condition

end GameMacros
