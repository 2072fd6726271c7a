import GameMacros.Proofs.Counts
import GameMacros.Proofs.Rows

/-!
# Combinations of keys

A combination is printed as the names of its keys with plus signs between them, and what is printed
is read as the same combination. So however a combination is written there is one text for it. A
text that is no combination is refused with the first of its pieces that names no key, and so are
the commands that take a combination.
-/

namespace GameMacros

namespace Numeral

variable {limit : Nat} {beyond : NumeralFault} {zeros number : List Char}

/-- Zeros in front of a number do not change it. -/
theorem readAfter_zeros (hzeros : ∀ c ∈ zeros, c = '0') (number : List Char) :
    readAfter limit beyond 0 (zeros ++ number) = readAfter limit beyond 0 number := by
  induction zeros with
  | nil => rfl
  | cons c zeros ih =>
    obtain ⟨rfl, hothers⟩ := List.forall_mem_cons.mp hzeros
    have hzero : digit? '0' = some 0 := by decide
    rw [List.cons_append, readAfter, hzero]
    simpa using ih hothers

/-- Digits are read without looking for a sign. -/
theorem unsigned_of_digits (hne : number ≠ []) (hdigits : ∀ c ∈ number, c.isDigit = true) :
    unsigned limit number = readAfter limit .tooLarge 0 number := by
  have hsign (rest : List Char) : number ≠ '+' :: rest := by
    rintro rfl
    exact absurd (hdigits '+' List.mem_cons_self) (by decide)
  unfold unsigned
  split
  · exact absurd rfl hne
  · exact absurd rfl (hsign [])
  · next rest _ => exact absurd rfl (hsign rest)
  · rfl

/-- Zeros in front of digits make no difference. -/
theorem unsigned_zeros (hne : number ≠ []) (hdigits : ∀ c ∈ number, c.isDigit = true)
    (hzeros : ∀ c ∈ zeros, c = '0') : unsigned limit (zeros ++ number) = unsigned limit number := by
  have hall : ∀ c ∈ zeros ++ number, c.isDigit = true := by
    refine List.forall_mem_append.mpr ⟨fun c hc => ?_, hdigits⟩
    rw [hzeros c hc]
    rfl
  rw [unsigned_of_digits (by simp [hne]) hall, unsigned_of_digits hne hdigits,
    readAfter_zeros hzeros]

end Numeral

namespace Key

variable {name other : List Char} {code : UInt8} {key : Key}

/-! ## The keys that have names -/

/-- The codes of the keys that have names: those that are listed, the letters, the digits of either
pad and the function keys. -/
def namedCodes : List UInt8 :=
  listed.map (·.2) ++ (List.range 26).map (fun n => UInt8.ofNat (0x41 + n)) ++
    (List.range 10).map (fun n => 0x30 + UInt8.ofNat n) ++
    (List.range 10).map (fun n => 0x60 + UInt8.ofNat n) ++
    (List.range 24).map (fun n => 0x6F + UInt8.ofNat (n + 1))

/-- What follows the head of a name is one digit. -/
theorem exists_of_digitAfter? {head : List Char} {d : UInt8} (h : digitAfter? head name = some d) :
    ∃ n < 10, UInt8.ofNat n = d := by
  unfold digitAfter? at h
  split at h
  · next c _ =>
    obtain ⟨n, hn, rfl⟩ := Option.map_eq_some_iff.mp h
    unfold Numeral.digit? at hn
    split at hn
    · next hdigit =>
      cases hn
      have hmost : c.toNat ≤ 57 := hdigit.2
      exact ⟨c.toNat - 48, by omega, rfl⟩
    · cases hn
  · cases h

/-- There are 24 function keys. -/
theorem exists_of_functionNumber? {d : UInt8} (h : functionNumber? name = some d) :
    ∃ n < 24, UInt8.ofNat (n + 1) = d := by
  obtain ⟨number, -, h⟩ := Option.bind_eq_some_iff.mp h
  split at h
  · next n _ =>
    split at h
    · next hbounds =>
      cases h
      exact ⟨n - 1, by omega, by rw [Nat.sub_add_cancel hbounds.1]⟩
    · cases h
  · cases h

/-- What is read as a key is one that has a name. -/
theorem mem_namedCodes (h : codeOfCapitals? name = some code) : code ∈ namedCodes := by
  simp only [namedCodes, List.mem_append, List.mem_map, List.mem_range]
  unfold codeOfCapitals? at h
  split at h
  · next found hlisted =>
    cases h
    obtain ⟨entry, hentry, hcode⟩ := Option.map_eq_some_iff.mp hlisted
    exact .inl (.inl (.inl (.inl ⟨entry, List.mem_of_find?_eq_some hentry, hcode⟩)))
  · split at h
    · next c _ =>
      split at h
      · next hletter =>
        cases h
        have hleast : 65 ≤ c.toNat := hletter.1
        have hmost : c.toNat ≤ 90 := hletter.2
        exact .inl (.inl (.inl (.inr ⟨c.toNat - 65, by omega,
          by rw [Nat.add_sub_cancel' hleast]⟩)))
      · cases h
    · split at h
      · next d hdigit =>
        cases h
        obtain ⟨n, hn, rfl⟩ := exists_of_digitAfter? hdigit
        exact .inl (.inl (.inr ⟨n, hn, rfl⟩))
      · split at h
        · next d hdigit =>
          cases h
          obtain ⟨n, hn, rfl⟩ := exists_of_digitAfter? hdigit
          exact .inl (.inr ⟨n, hn, rfl⟩)
        · obtain ⟨d, hnumber, rfl⟩ := Option.map_eq_some_iff.mp h
          obtain ⟨n, hn, rfl⟩ := exists_of_functionNumber? hnumber
          exact .inr ⟨n, hn, rfl⟩

/-- The key is read off its canonical name, which can stand between plus signs on a line. -/
structure HasName (key : Key) : Prop where
  reads_back : ofName? key.name.toList = some key
  plain : ∀ c ∈ key.name.toList, Text.isBlank c = false ∧ c ≠ '+' ∧ c ≠ '<'

/-- The keys that have names have canonical ones. -/
theorem hasName_of_mem_namedCodes : ∀ code ∈ namedCodes, HasName ⟨code⟩ := by
  have hall : namedCodes.all (fun code =>
      ofName? (Key.mk code).name.toList == some ⟨code⟩ &&
        (Key.mk code).name.toList.all fun c =>
          !Text.isBlank c && c != '+' && c != '<') = true := by
    decide +kernel
  intro code hcode
  obtain ⟨hread, hplain⟩ := Bool.and_eq_true_iff.mp (List.all_eq_true.mp hall code hcode)
  exact ⟨eq_of_beq hread, by simpa [and_assoc] using hplain⟩

/-- A key that is read off some name has a canonical one. -/
theorem hasName_of_ofName? (h : ofName? name = some key) : key.HasName := by
  obtain ⟨code, hcode, rfl⟩ := Option.map_eq_some_iff.mp h
  exact hasName_of_mem_namedCodes code (mem_namedCodes hcode)

/-! ## Other ways to write a name -/

/-- Two names are alike up to the case of their letters and to blanks around them, or they are names
of function keys that are numbered alike up to zeros in front. -/
inductive SpelledAlike (name other : List Char) : Prop
  | letters (h : (Text.trim name).map Text.asciiUpper = (Text.trim other).map Text.asciiUpper)
  | padded {number zeros zeros' : List Char} (hnumber : number ≠ [])
      (hdigits : ∀ c ∈ number, c.isDigit = true) (hzeros : ∀ c ∈ zeros, c = '0')
      (hzeros' : ∀ c ∈ zeros', c = '0')
      (hname : (Text.trim name).map Text.asciiUpper = 'F' :: (zeros ++ number))
      (hother : (Text.trim other).map Text.asciiUpper = 'F' :: (zeros' ++ number))

/-- The code of a function key is its number. -/
theorem codeOfCapitals?_function {number : List Char} (hne : number ≠ []) :
    codeOfCapitals? ('F' :: number) =
      (match Numeral.unsigned 255 number with
        | .ok n => if 1 ≤ n ∧ n ≤ 24 then some (UInt8.ofNat n) else none
        | .error _ => none).map (0x6F + ·) := by
  have hlisted : listedCode? ('F' :: number) = none := by
    have hheads : listed.all (fun entry => entry.1.toList.head? != some 'F') = true := by
      decide +kernel
    refine Option.map_eq_none_iff.mpr (List.find?_eq_none.mpr fun entry hentry hsame => ?_)
    have hhead := List.all_eq_true.mp hheads entry hentry
    rw [eq_of_beq hsame] at hhead
    cases hhead
  obtain ⟨c, others, rfl⟩ := List.exists_cons_of_ne_nil hne
  unfold codeOfCapitals?
  rw [hlisted]
  rfl

/-- Names that are spelled alike are those of one key. -/
theorem SpelledAlike.ofName?_eq (h : SpelledAlike name other) : ofName? name = ofName? other := by
  unfold ofName?
  cases h with
  | letters h => rw [h]
  | padded hnumber hdigits hzeros hzeros' hname hother =>
    rw [hname, hother, codeOfCapitals?_function (by simp [hnumber]),
      codeOfCapitals?_function (by simp [hnumber]), Numeral.unsigned_zeros hnumber hdigits hzeros,
      Numeral.unsigned_zeros hnumber hdigits hzeros']

end Key

namespace KeyCombo

variable {names : List (List Char)} {s : List Char} {combo : KeyCombo}

/-! ## Printing -/

/-- The first of the names that is no key's. -/
inductive Misnamed : List (List Char) → List Char → Prop
  | here {name : List Char} {others : List (List Char)} (hname : Key.ofName? name = none) :
      Misnamed (name :: others) name
  | there {name bad : List Char} {others : List (List Char)} {key : Key}
      (hname : Key.ofName? name = some key) (hothers : Misnamed others bad) :
      Misnamed (name :: others) bad

/-- What is refused is the first name that is no key's, without the blanks around it. -/
theorem readKeys_eq_error_iff {piece : String} :
    readKeys names = .error piece ↔
      ∃ bad, Misnamed names bad ∧ piece = String.ofList (Text.trim bad) := by
  induction names with
  | nil => exact iff_of_false nofun (fun ⟨_, hbad, _⟩ => nomatch hbad)
  | cons name names ih =>
    rw [readKeys]
    cases hname : Key.ofName? name with
    | none =>
      constructor
      · rintro ⟨⟩
        exact ⟨name, .here hname, rfl⟩
      · rintro ⟨bad, hbad, rfl⟩
        cases hbad with
        | here => rfl
        | there hfound => cases hname.symm.trans hfound
    | some key =>
      constructor
      · intro h
        cases hothers : readKeys names with
        | ok keys => simp [hothers, Except.map] at h
        | error other =>
          obtain ⟨bad, hbad, rfl⟩ := ih.mp (by simpa [hothers, Except.map] using h)
          exact ⟨bad, .there hname hbad, rfl⟩
      · rintro ⟨bad, hbad, rfl⟩
        cases hbad with
        | here hnone => cases hname.symm.trans hnone
        | there _ hothers =>
          rw [ih.mpr ⟨bad, hothers, rfl⟩]
          rfl

/-- A combination is read exactly if its keys are those that are named. -/
theorem ofText_eq_ok_iff :
    ofText s = .ok combo ↔ (Text.pieces '+' s).map Key.ofName? = combo.keys.map some := by
  refine ⟨fun h => (madeOf_of_ofText h).named, fun h => ?_⟩
  unfold ofText
  rw [readKeys_eq_ok_iff.mpr h]
  simp only [keys, List.getLast?_concat, List.dropLast_concat]

/-- What is no combination is refused with the first piece that names no key. -/
theorem ofText_eq_error_iff {piece : String} :
    ofText s = .error piece ↔
      ∃ bad, Misnamed (Text.pieces '+' s) bad ∧ piece = String.ofList (Text.trim bad) := by
  rw [← readKeys_eq_error_iff]
  unfold ofText
  cases hread : readKeys (Text.pieces '+' s) with
  | error other => simp
  | ok keys =>
    -- There is always a piece, so there is a last key.
    have hkeys : keys ≠ [] := by
      rintro rfl
      have hnamed := readKeys_eq_ok_iff.mp hread
      rw [Text.pieces_eq_splitOn, List.map_nil, List.map_eq_nil_iff] at hnamed
      exact List.splitOnP_ne_nil _ _ hnamed
    obtain ⟨primary, hprimary⟩ :=
      Option.ne_none_iff_exists'.mp (mt List.getLast?_eq_none_iff.mp hkeys)
    simp [hprimary]

/-- The keys of what is printed are named by what stands between its plus signs. -/
theorem pieces_text (hkeys : ∀ key ∈ combo.keys, '+' ∉ key.name.toList) :
    Text.pieces '+' combo.text.toList = combo.keys.map (·.name.toList) := by
  have hnames : ∀ name ∈ combo.keys.map (·.name.toList), '+' ∉ name := by
    simpa using hkeys
  have htext : combo.text.toList = List.intercalate ['+'] (combo.keys.map (·.name.toList)) := by
    rw [text, String.toList_intercalate, List.map_map]
    rfl
  rw [Text.pieces_eq_splitOn, htext, List.splitOn_intercalate '+' hnames (by simp [keys])]

/-- The keys of a combination that has been read have names. -/
theorem hasName_of_ofText (h : ofText s = .ok combo) : ∀ key ∈ combo.keys, key.HasName := by
  intro key hkey
  have hnamed := List.mem_map_of_mem (f := some) hkey
  rw [← (madeOf_of_ofText h).named] at hnamed
  obtain ⟨name, -, hname⟩ := List.mem_map.mp hnamed
  exact Key.hasName_of_ofName? hname

/-- What is printed for a combination that has been read is read as this combination. -/
theorem ofText_text (h : ofText s = .ok combo) : ofText combo.text.toList = .ok combo := by
  have hnamed := hasName_of_ofText h
  have hplain : ∀ key ∈ combo.keys, '+' ∉ key.name.toList :=
    fun key hkey hmem => ((hnamed key hkey).plain _ hmem).2.1 rfl
  rw [ofText_eq_ok_iff, pieces_text hplain, List.map_map]
  exact List.map_congr_left fun key hkey => (hnamed key hkey).reads_back

/-- What is printed is one word without brackets. -/
theorem isWord_text (h : ofText s = .ok combo) :
    Text.IsWord combo.text.toList ∧ '<' ∉ combo.text.toList := by
  have hchars : ∀ c ∈ combo.text.toList, Text.isBlank c = false ∧ c ≠ '<' := by
    intro c hc
    rw [text, String.toList_intercalate] at hc
    obtain rfl | ⟨name, hname, hmem⟩ := Text.mem_intercalate hc
    · exact ⟨rfl, by decide⟩
    · obtain ⟨printed, hprinted, rfl⟩ := List.mem_map.mp hname
      obtain ⟨key, hkey, rfl⟩ := List.mem_map.mp hprinted
      obtain ⟨hblank, -, hopen⟩ := (hasName_of_ofText h key hkey).plain c hmem
      exact ⟨hblank, hopen⟩
  refine ⟨⟨fun hnil => ?_, fun c hc => (hchars c hc).1⟩, fun hmem => (hchars _ hmem).2 rfl⟩
  -- Nothing is no combination, but what is printed is one.
  have hnone : ofText [] = .error "" := by decide +kernel
  have hread := ofText_text h
  rw [hnil, hnone] at hread
  cases hread

/-- A text whose pieces are spelled alike is the same combination, or is none either. -/
theorem ofText_eq_ok_iff_of_spelledAlike {other : List Char}
    (h : List.Forall₂ Key.SpelledAlike (Text.pieces '+' s) (Text.pieces '+' other)) :
    ofText s = .ok combo ↔ ofText other = .ok combo := by
  have hsame : (Text.pieces '+' s).map Key.ofName? = (Text.pieces '+' other).map Key.ofName? := by
    generalize Text.pieces '+' s = names at h
    generalize Text.pieces '+' other = others at h
    induction h with
    | nil => rfl
    | cons hname _ ih => rw [List.map_cons, List.map_cons, hname.ofName?_eq, ih]
  rw [ofText_eq_ok_iff, ofText_eq_ok_iff, hsame]

example : (ofText " control+f007".toList).map text = .ok "CONTROL+F7" := by decide +kernel

end KeyCombo

/-! ## Commands with a combination -/

/-- What a verb does with a combination. -/
def Verb.motion? : Verb → Option KeyMotion
  | .send => some .press
  | .hold => some .hold
  | .release => some .release
  | _ => none

namespace LineReader

open Text (IsWord IsGap)

variable {reader : LineReader} {verb : Verb} {motion : KeyMotion} {word gap argument : List Char}

/-- A verb that takes a combination is read as what it does with what stands behind it. -/
theorem command_of_motion? (hmotion : verb.motion? = some motion) (hword : verb.IsSpelled word)
    (hgap : IsGap gap) (hplain : ∀ c ∈ argument, Text.isBlank c = false) (hopen : '<' ∉ argument) :
    reader.command ('/' :: (word ++ gap ++ argument)) =
      (Line.combo verb (String.ofList (Text.trim ('/' :: (word ++ gap ++ argument)))) argument).map
        fun combo => some
          { text := String.ofList (Text.trim ('/' :: (word ++ gap ++ argument)))
            kind := .keys motion combo } := by
  have hverb : verb ∈ Verb.written ∧ verb ≠ .wait := by
    cases verb <;> simp [Verb.motion?] at hmotion <;> decide
  obtain ⟨hsome, hletters⟩ := hword.plain hverb.1
  have hbare := hword.open_not_mem hverb.1 hgap.blank hopen
  have hfeed : '\n' ∉ argument := fun hmem => absurd (hplain _ hmem) (by decide)
  have hsplit := Line.splitVerb?_trim ⟨hsome, fun c hc => (hletters c hc).1⟩ hgap
    (Text.trim_of_not_blank hplain) hfeed
  rw [reader.command_eq_map_kindOf hbare hsplit (hword.ofWord?_eq hverb.1) hverb.2]
  cases verb <;> cases hmotion <;> rw [Line.kindOf] <;>
    cases Line.combo _ _ argument <;> rfl

/-- A word behind the verb is its combination, or is refused with the piece that is no key. -/
theorem command_of_combination (hmotion : verb.motion? = some motion) (hword : verb.IsSpelled word)
    (hgap : IsGap gap) (hargument : IsWord argument) (hopen : '<' ∉ argument) :
    reader.command ('/' :: (word ++ gap ++ argument)) =
      match KeyCombo.ofText argument with
      | .ok combo => .ok (some
          { text := String.ofList ('/' :: (word ++ gap ++ argument)), kind := .keys motion combo })
      | .error piece =>
        .error (.invalidKey piece (String.ofList ('/' :: (word ++ gap ++ argument)))) := by
  have hsome : argument.isEmpty = false := by simpa using hargument.ne_nil
  rw [command_of_motion? hmotion hword hgap hargument.not_blank hopen,
    Text.trim_cons_append rfl hargument.ne_nil hargument.trim_eq, Line.combo, hsome,
    hargument.any_isBlank_eq]
  cases KeyCombo.ofText argument <;> rfl

/-- A verb that takes a combination is refused without one. -/
theorem command_of_no_combination (hmotion : verb.motion? = some motion)
    (hword : verb.IsSpelled word) (hgap : IsGap gap) :
    reader.command ('/' :: (word ++ gap)) =
      .error (.invalidArgument verb (String.ofList (Text.trim ('/' :: (word ++ gap))))) := by
  have hread := @command_of_motion? reader _ _ _ _ [] hmotion hword hgap nofun nofun
  rwa [List.append_nil] at hread

/-- How a line is read that is a verb in front of a combination. -/
structure ReadsCombination (reader : LineReader) (motion : KeyMotion) (front s : List Char) :
    Prop where
  keys_iff : ∀ combo, reader.command (front ++ s) =
      .ok (some { text := String.ofList (front ++ s), kind := .keys motion combo }) ↔
    KeyCombo.ofText s = .ok combo
  invalidKey_iff : ∀ piece, reader.command (front ++ s) =
      .error (.invalidKey piece (String.ofList (front ++ s))) ↔ KeyCombo.ofText s = .error piece
  reads_back : ∀ combo, KeyCombo.ofText s = .ok combo →
    reader.command (front ++ combo.text.toList) =
      .ok (some { text := String.ofList (front ++ combo.text.toList), kind := .keys motion combo })

/-- How a combination is read, printed and read again, by itself and behind a verb. -/
structure SurvivesPrinting (reader : LineReader) (s : List Char) : Prop where
  madeOf : ∀ combo, KeyCombo.ofText s = .ok combo → combo.MadeOf (Text.pieces '+' s)
  reads_back : ∀ combo, KeyCombo.ofText s = .ok combo →
    KeyCombo.ofText combo.text.toList = .ok combo
  /-- Case, padding and zeros in front of the number of a function key make no difference. -/
  respelled : ∀ other,
    List.Forall₂ Key.SpelledAlike (Text.pieces '+' s) (Text.pieces '+' other) →
      ∀ combo, KeyCombo.ofText s = .ok combo ↔ KeyCombo.ofText other = .ok combo
  error_iff : ∀ piece, KeyCombo.ofText s = .error piece ↔
    ∃ bad, KeyCombo.Misnamed (Text.pieces '+' s) bad ∧ piece = String.ofList (Text.trim bad)
  command : ∀ (verb : Verb) (motion : KeyMotion) (word gap : List Char),
    verb.motion? = some motion → verb.IsSpelled word → IsGap gap → IsWord s → '<' ∉ s →
      reader.ReadsCombination motion ('/' :: (word ++ gap)) s
  command_of_nothing : ∀ (verb : Verb) (motion : KeyMotion) (word gap : List Char),
    verb.motion? = some motion → verb.IsSpelled word → IsGap gap →
      reader.command ('/' :: (word ++ gap)) =
        .error (.invalidArgument verb (String.ofList (Text.trim ('/' :: (word ++ gap)))))

/-- Combinations survive printing. -/
theorem survivesPrinting (reader : LineReader) (s : List Char) : SurvivesPrinting reader s where
  madeOf combo := KeyCombo.madeOf_of_ofText
  reads_back combo := KeyCombo.ofText_text
  respelled other hother combo := KeyCombo.ofText_eq_ok_iff_of_spelledAlike hother
  error_iff piece := KeyCombo.ofText_eq_error_iff
  command verb motion word gap hmotion hword hgap hargument hopen := by
    have hread := @command_of_combination reader _ _ _ _ _ hmotion hword hgap hargument hopen
    refine ⟨fun combo => ?_, fun piece => ?_, fun combo hcombo => ?_⟩
    · rw [List.cons_append, hread]
      cases KeyCombo.ofText s <;> simp
    · rw [List.cons_append, hread]
      cases KeyCombo.ofText s <;> simp
    · obtain ⟨hprinted, hbare⟩ := KeyCombo.isWord_text hcombo
      have hagain := @command_of_combination reader _ _ _ _ _ hmotion hword hgap hprinted hbare
      rwa [KeyCombo.ofText_text hcombo] at hagain
  command_of_nothing verb motion word gap := command_of_no_combination

/-- With no argument it is not a key that the refusal is about, though nothing is no key's name. -/
theorem not_invalidKey_of_nothing :
    ¬∀ (reader : LineReader) (argument : List Char), (∀ c ∈ argument, Text.isBlank c = false) →
      '<' ∉ argument → ∀ piece, KeyCombo.ofText argument = .error piece →
        ∃ line, reader.command ("/send ".toList ++ argument) = .error (.invalidKey piece line) := by
  intro h
  have hnothing : KeyCombo.ofText [] = .error "" := by decide +kernel
  have hcommand : (⟨[]⟩ : LineReader).command "/send ".toList =
      .error (.invalidArgument .send "/send") := by decide +kernel
  obtain ⟨line, hline⟩ := h ⟨[]⟩ [] nofun nofun "" hnothing
  rw [List.append_nil, hcommand] at hline
  cases hline

end LineReader

end GameMacros
