import GameMacros.Proofs.Extraction
import GameMacros.Proofs.WellFormed
import GameMacros.Proofs.Words

/-!
# Quoted names

Quotes around a name keep it as it is, whatever it holds, and a name that does not stand between
quotes itself needs none. Modifiers behind the name are read as they are without the name.
-/

namespace GameMacros

/-! ## Writing a name -/

/-- How a name is written behind a verb: between quotes, or as it is, unless quotes around it would
be taken off. -/
inductive Text.WritesName (name : List Char) : List Char → Prop
  | quoted : WritesName name (quote name)
  | bare (hbare : ∀ inner, name ≠ quote inner) : WritesName name name

/-- Nothing is taken off a text that does not stand between quotes. -/
theorem Text.unquote_of_bare {s : List Char} (h : ∀ inner, s ≠ quote inner) : unquote s = s := by
  unfold unquote
  split
  · next rest =>
    split
    · next hlast =>
      have hsplit : rest.dropLast ++ ['"'] = rest := List.dropLast_append_getLast? '"' hlast
      exact absurd (congrArg ('"' :: ·) hsplit.symm) (h rest.dropLast)
    · rfl
  · rfl

/-- A name that can be written on a line: it has no blanks around it, opens no modifier and stays
on one line. -/
structure IsWritable (name : String) : Prop extends IsName name where
  open_not_mem : '<' ∉ name.toList
  feed_not_mem : '\n' ∉ name.toList

namespace Text.WritesName

variable {name : String} {written : List Char}

/-- The name is what is read. -/
theorem name?_eq (h : WritesName name.toList written) (hname : IsName name) :
    Line.name? written = some name := by
  have hunquote : unquote written = name.toList := by
    cases h with
    | quoted => exact unquote_quote name.toList
    | bare hbare => exact unquote_of_bare hbare
  have htrim : trim name.toList = name.toList := by
    rw [← String.toList_ofList (l := trim name.toList)]
    exact congrArg String.toList hname.trimmed_eq
  have hne : name.toList.isEmpty = false := by simpa using hname.ne_empty
  simp only [Line.name?, hunquote, htrim, hne, Bool.false_eq_true, if_false, String.ofList_toList]

/-- What is written has no blanks around it. -/
theorem trim_eq (h : WritesName name.toList written) (hname : IsName name) :
    trim written = written := by
  cases h with
  | quoted =>
    refine trim_eq_self (by simp [quote, isBlank]) ?_
    rw [quote, List.getLast?_concat]
    simp [isBlank]
  | bare =>
    rw [← String.toList_ofList (l := trim name.toList)]
    exact congrArg String.toList hname.trimmed_eq

/-- A character that is written belongs to the name or is a quote. -/
theorem not_mem (h : WritesName name.toList written) {c : Char} (hquote : c ≠ '"')
    (hc : c ∉ name.toList) : c ∉ written := by
  cases h with
  | quoted => simp [quote, hquote, hc]
  | bare => exact hc

end Text.WritesName

/-! ## Writing a verb -/

namespace Verb

/-- The names of a verb on a line. -/
def spellings (verb : Verb) : List String :=
  verb.name :: verb.alias?.toList

/-- The word is one of the names of the verb, each letter in either case. -/
def IsSpelled (verb : Verb) (word : List Char) : Prop :=
  ∃ spelling ∈ verb.spellings, List.Forall₂ (Text.sameLetter · · = true) spelling.toList word

/-- A verb is found by each of its names. -/
theorem ofWord?_of_mem_spellings :
    ∀ verb ∈ written, ∀ spelling ∈ verb.spellings, ofWord? spelling = some verb := by
  decide +kernel

/-- The names of verbs are plain words in lower case. -/
theorem isPlainWord_of_mem_spellings :
    ∀ verb ∈ written, ∀ spelling ∈ verb.spellings, Text.IsPlainWord spelling.toList := by
  decide +kernel

variable {verb : Verb} {word : List Char}

/-- A verb is found whatever the case of its letters. -/
theorem IsSpelled.ofWord?_eq (h : verb.IsSpelled word) (hwritten : verb ∈ written) :
    ofWord? (String.ofList (Text.lower word)) = some verb := by
  obtain ⟨spelling, hspelling, hsame⟩ := h
  have hplain := isPlainWord_of_mem_spellings verb hwritten spelling hspelling
  rw [hplain.lower_eq hsame, String.ofList_toList]
  exact ofWord?_of_mem_spellings verb hwritten spelling hspelling

/-- The letters of a verb are neither blank nor brackets. -/
theorem IsSpelled.plain (h : verb.IsSpelled word) (hwritten : verb ∈ written) :
    word ≠ [] ∧ ∀ c ∈ word, Text.isBlank c = false ∧ c ≠ '<' := by
  obtain ⟨spelling, hspelling, hsame⟩ := h
  exact (isPlainWord_of_mem_spellings verb hwritten spelling hspelling).written_plain hsame

/-- A verb brings no bracket onto its line. -/
theorem IsSpelled.open_not_mem {gap arguments : List Char} (h : verb.IsSpelled word)
    (hwritten : verb ∈ written) (hgap : ∀ c ∈ gap, Text.isBlank c = true)
    (hopen : '<' ∉ arguments) : '<' ∉ '/' :: (word ++ gap ++ arguments) := by
  obtain ⟨-, hletters⟩ := h.plain hwritten
  have hnotWord : '<' ∉ word := fun hmem => (hletters _ hmem).2 rfl
  have hnotGap : '<' ∉ gap := fun hmem => absurd (hgap _ hmem) (by decide)
  simp [hnotWord, hnotGap, hopen]

/-- A verb that takes a name can be written on a line. -/
theorem mem_written_of_naming? {kindFor : Modifiers → String → Command.Kind}
    (h : verb.naming? = some kindFor) : verb ∈ written := by
  cases verb with
  | native => cases h
  | action | click | craft | hold | item | loop | recipe | release | require | requireQuality
  | requireRepair | requireSpiritbond | requireStats | runMacro | send | target | wait
  | waitAddon => decide

/-- What a verb makes of a name is no wait. -/
theorem ne_wait_of_naming? {kindFor : Modifiers → String → Command.Kind}
    (h : verb.naming? = some kindFor) (modifiers : Modifiers) (name : String) :
    kindFor modifiers name ≠ .wait := by
  intro hwait
  have hverb := Line.verb_of_naming? h modifiers name
  rw [hwait] at hverb
  subst hverb
  cases h

end Verb

/-! ## Modifiers behind a name -/

namespace Modifiers

/-- A token that is a modifier and can be read, by what stands between its brackets. -/
structure IsReadable (inner : List Char) : Prop where
  proper : (Chunk.token inner).Proper
  isModifier : IsModifier inner
  isWellFormed : ∀ modifier body, Carries modifier inner body → isWellFormed modifier body = true

/-- Modifiers that can be read are found, and nothing is left of them. -/
theorem exists_extract_of_readable {tokens : List (List Char)}
    (h : ∀ inner ∈ tokens, IsReadable inner) :
    ∃ modifiers, Extraction (tokens.map .token) (.ok (modifiers, [])) ∧
      extract (render (tokens.map .token)) = .ok (modifiers, []) := by
  have hproper : ∀ chunk ∈ tokens.map Chunk.token, chunk.Proper := by
    simp only [List.mem_map]
    rintro _ ⟨inner, hmem, rfl⟩
    exact (h inner hmem).proper
  have hinners : inners (tokens.map .token) = tokens := by
    simp [inners, List.filterMap_map, Function.comp_def, Chunk.inner?]
  have hsound (modifier : ValuedModifier) : ¬IsMalformed modifier tokens := by
    rintro ⟨body, hlast, hmalformed⟩
    cases hlast with
    | present htokens hbody =>
      have hmem := htokens ▸ List.mem_append_right _ List.mem_cons_self
      exact absurd ((h _ hmem).isWellFormed modifier body hbody) (by simp [hmalformed])
  have hleft : left isModifier (tokens.map .token) = [] := by
    refine List.filter_eq_nil_iff.mpr fun chunk hchunk => ?_
    obtain ⟨inner, hmem, rfl⟩ := List.mem_map.mp hchunk
    simp [Chunk.isLeft, isModifier_iff.mpr (h inner hmem).isModifier]
  obtain ⟨modifiers, hmodifiers⟩ := exists_ofInners hsound
  have hextract : extract (render (tokens.map .token)) = .ok (modifiers, []) := by
    refine (extract_eq_ok_iff hproper).mpr ⟨by rwa [hinners], ?_⟩
    rw [hleft]
    rfl
  exact ⟨modifiers, (extract_eq_iff hproper).mp hextract, hextract⟩

/-- The modifiers behind a plain text are taken off it, if nothing else stands there. -/
theorem extract_append_of_nothing_left {plain tail : List Char} {modifiers : Modifiers}
    (hplain : '<' ∉ plain) (h : extract tail = .ok (modifiers, [])) :
    extract (plain ++ tail) = .ok (modifiers, Text.trim plain) := by
  have hopens : Plain plain := fun c hc =>
    Text.sameFolded_open fun heq => hplain (heq ▸ hc)
  obtain ⟨kept, hkept, hextract⟩ := exists_extract_append hopens h
  have hblank : ∀ c ∈ kept, Text.isBlank c = true := by
    intro c hc
    by_contra hnot
    have hmem := Text.mem_trim_of_mem hc (Bool.eq_false_iff.mpr hnot)
    rw [← hkept] at hmem
    cases hmem
  rw [hextract, Text.trim_append_of_blank _ hblank]

/-- No blank stands at the end of tokens. -/
theorem isBlank_getLast?_render (tokens : List (List Char)) :
    ∀ c ∈ (render (tokens.map .token)).getLast?, Text.isBlank c = false := by
  obtain rfl | ⟨before, inner, rfl⟩ := List.eq_nil_or_concat' tokens
  · nofun
  · have hlast : render ((before ++ [inner]).map .token) =
        render (before.map .token) ++ '<' :: inner ++ ['>'] := by
      simp [render, Chunk.text]
    rw [hlast, List.getLast?_concat]
    simp [Text.isBlank]

end Modifiers

/-! ## Reading the line -/

/-- What a line is read as, given the modifiers on it. -/
def Command.ofLine (line : List Char) (kindFor : Modifiers → String → Command.Kind) (name : String)
    (modifiers : Modifiers) : Command where
  text := String.ofList line
  kind := kindFor modifiers name
  wait := modifiers.wait
  maxWait := modifiers.maxWaitOrDefault
  index := modifiers.index
  echo := modifiers.echo

/-- A text is read as a command for a name, with the modifiers that stand behind it: any text that
is modifiers and nothing else, and in particular tokens that can be read, in any order. -/
structure LineReader.ReadsName (reader : LineReader) (front : List Char)
    (kindFor : Modifiers → String → Command.Kind) (name : String) : Prop where
  command_eq : ∀ tail modifiers, (∀ c ∈ tail.getLast?, Text.isBlank c = false) →
    Modifiers.extract tail = .ok (modifiers, []) →
      reader.command (front ++ tail) =
        .ok (some (.ofLine (front ++ tail) kindFor name modifiers))
  exists_command : ∀ tokens : List (List Char), (∀ inner ∈ tokens, Modifiers.IsReadable inner) →
    ∃ modifiers, Modifiers.Extraction (tokens.map .token) (.ok (modifiers, [])) ∧
      reader.command (front ++ Modifiers.render (tokens.map .token)) =
        .ok (some (.ofLine (front ++ Modifiers.render (tokens.map .token)) kindFor name modifiers))

/-- A verb in front of a name, quoted or not, is read as its command for exactly that name, with the
modifiers behind it. -/
theorem LineReader.readsName_of_writesName (reader : LineReader) {verb : Verb}
    {kindFor : Modifiers → String → Command.Kind} {word gap written : List Char} {name : String}
    (hnaming : verb.naming? = some kindFor) (hword : verb.IsSpelled word) (hgap : gap ≠ [])
    (hblank : ∀ c ∈ gap, Text.isBlank c = true) (hname : IsWritable name)
    (hwritten : Text.WritesName name.toList written) :
    reader.ReadsName ('/' :: (word ++ gap ++ written)) kindFor name := by
  have hverb := Verb.mem_written_of_naming? hnaming
  obtain ⟨hwordNe, hletters⟩ := hword.plain hverb
  have hopen : '<' ∉ '/' :: (word ++ gap ++ written) :=
    hword.open_not_mem hverb hblank (hwritten.not_mem (by decide) hname.open_not_mem)
  have hlast : ∀ c ∈ ('/' :: (word ++ gap ++ written)).getLast?, Text.isBlank c = false := by
    have hne : written ≠ [] := by
      rintro rfl
      cases hwritten.name?_eq hname.toIsName
    rw [← List.cons_append, List.getLast?_append_of_ne_nil _ hne]
    exact hwritten.trim_eq hname.toIsName ▸ Text.getLast?_trim
  have htrim : Text.trim ('/' :: (word ++ gap ++ written)) = '/' :: (word ++ gap ++ written) :=
    Text.trim_eq_self (by simp [Text.isBlank]) hlast
  have hsplit := Line.splitVerb?_append hwordNe (fun c hc => (hletters c hc).1) hgap hblank
    (hwritten.trim_eq hname.toIsName) (hwritten.not_mem (by decide) hname.feed_not_mem)
  have hcommand : ∀ tail modifiers, (∀ c ∈ tail.getLast?, Text.isBlank c = false) →
      Modifiers.extract tail = .ok (modifiers, []) →
        reader.command ('/' :: (word ++ gap ++ written) ++ tail) = .ok (some
          (.ofLine ('/' :: (word ++ gap ++ written) ++ tail) kindFor name modifiers)) := by
    intro tail modifiers htail hmodifiers
    have hextract := Modifiers.extract_append_of_nothing_left hopen hmodifiers
    rw [htrim] at hextract
    have hmakes : Line.Makes written modifiers verb (kindFor modifiers name) :=
      .named hnaming (hwritten.name?_eq hname.toIsName)
    refine reader.command_of_verb (Text.trim_eq_self (by simp [Text.isBlank]) ?_) rfl hextract
      hsplit (hword.ofWord?_eq hverb) (Line.kindOf_of_makes hmakes _)
      (Verb.ne_wait_of_naming? hnaming modifiers name)
    intro c hc
    rw [List.getLast?_append, Option.mem_def, Option.or_eq_some_iff] at hc
    obtain hbehind | ⟨_, hfront⟩ := hc
    · exact htail c hbehind
    · exact hlast c hfront
  refine ⟨hcommand, fun tokens hreadable => ?_⟩
  obtain ⟨modifiers, hextraction, hextract⟩ := Modifiers.exists_extract_of_readable hreadable
  exact ⟨modifiers, hextraction,
    hcommand _ modifiers (Modifiers.isBlank_getLast?_render tokens) hextract⟩

/-- A lone quote is a name, and needs no quotes around it. -/
theorem LineReader.readsName_of_lone_quote :
    (⟨[]⟩ : LineReader).command "/tArGeT\t \"<wait.2><ECHO>".toList =
      .ok (some (.ofLine "/tArGeT\t \"<wait.2><ECHO>".toList (fun _ => .target) "\""
        { wait := .fixed 2000, echo := true })) := by
  have hbare : ∀ inner, "\"".toList ≠ Text.quote inner := by simp [Text.quote]
  have hspelled : Verb.target.IsSpelled "tArGeT".toList := ⟨"target", by decide, by decide⟩
  have hwritable : IsWritable "\"" := ⟨⟨by decide, by decide⟩, by decide, by decide⟩
  have hreads : (⟨[]⟩ : LineReader).ReadsName "/tArGeT\t \"".toList (fun _ => .target) "\"" :=
    readsName_of_writesName _ (show Verb.target.naming? = some fun _ => .target from rfl) hspelled
      (show "\t ".toList ≠ [] by decide) (List.all_eq_true.mp rfl) hwritable (.bare hbare)
  refine hreads.command_eq "<wait.2><ECHO>".toList { wait := .fixed 2000, echo := true } ?_ ?_
  · rintro c ⟨⟩
    rfl
  · decide +kernel

end GameMacros
