import GameMacros.Proofs.Quoting
import GameMacros.Proofs.Words

/-!
# Counts

The verbs that take numbers take them in ASCII digits, as many as one likes, as long as their value
fits in 32 bits; the attributes of a crafter are three of them with blanks between. What stands on
the line is what the command asks for, and everything else is an argument that the verb does not
take.
-/

namespace GameMacros

/-! ## Numbers on a line -/

/-- The text is a numeral for the number, in ASCII digits and with any zeros in front. -/
structure Numeral.Denotes (s : List Char) (n : Nat) : Prop where
  ne_nil : s ≠ []
  isDigit : ∀ c ∈ s, c.isDigit = true
  value_eq : Nat.ofDigitChars 10 s 0 = n

/-- The text is a numeral for a number of 32 bits. -/
structure Numeral.IsCount (s : List Char) (n : Nat) : Prop extends Denotes s n where
  lt : n < 2 ^ 32

namespace Numeral

/-- A character is read as a digit exactly if it is one. -/
theorem isSome_digit?_iff {c : Char} : (digit? c).isSome = true ↔ c.isDigit = true := by
  constructor
  · intro h
    unfold digit? at h
    split at h
    · next hrange =>
      obtain ⟨hleast, hmost⟩ := hrange
      exact Char.isDigit_iff_toNat.mpr ⟨hleast, hmost⟩
    · cases h
  · intro h
    rw [digit?_of_isDigit h]
    rfl

/-- A text is read as digits exactly if it is a numeral, and its value is what it denotes. -/
theorem isDigits_and_value_eq_iff {s : List Char} {n : Nat} :
    (isDigits s = true ∧ value s = n) ↔ Denotes s n := by
  have hrun : isDigits s = true ↔ s ≠ [] ∧ ∀ c ∈ s, c.isDigit = true := by
    simp [isDigits, isSome_digit?_iff]
  rw [hrun]
  constructor
  · rintro ⟨⟨hne, hdigits⟩, rfl⟩
    exact ⟨hne, hdigits, (valueAfter_eq_ofDigitChars hdigits 0).symm⟩
  · rintro ⟨hne, hdigits, rfl⟩
    exact ⟨⟨hne, hdigits⟩, valueAfter_eq_ofDigitChars hdigits 0⟩

/-- A count is read exactly if it is a numeral for it. -/
theorem count?_eq_some_iff {s : List Char} {n : Nat} : count? s = some n ↔ IsCount s n := by
  unfold count?
  constructor
  · intro h
    split at h
    · next hguard =>
      cases h
      simp only [Bool.and_eq_true, decide_eq_true_eq] at hguard
      refine ⟨isDigits_and_value_eq_iff.mp ⟨hguard.1, rfl⟩, ?_⟩
      have hle := hguard.2
      unfold max32 at hle
      omega
    · cases h
  · rintro ⟨hdenotes, hlt⟩
    obtain ⟨hdigits, rfl⟩ := isDigits_and_value_eq_iff.mpr hdenotes
    have hle : value s ≤ max32 := by
      unfold max32
      omega
    simp only [hdigits, hle, decide_true, Bool.and_self, if_true]

/-- A numeral has no blanks. -/
theorem Denotes.isWord {s : List Char} {n : Nat} (h : Denotes s n) : Text.IsWord s := by
  refine ⟨h.ne_nil, fun c hc => ?_⟩
  obtain ⟨hleast, hmost⟩ := Char.isDigit_iff_toNat.mp (h.isDigit c hc)
  have hlow : 48 ≤ c.toNat := hleast
  have hhigh : c.toNat ≤ 57 := hmost
  unfold Text.isBlank
  generalize c.toNat = code at hlow hhigh
  interval_cases code <;> rfl

end Numeral

/-- The text is three counts with blanks between them. -/
inductive CraftStats.Written (stats : CraftStats) : List Char → Prop
  | intro {craftsmanship control cp gap other : List Char}
      (hcraftsmanship : Numeral.IsCount craftsmanship stats.craftsmanship)
      (hgap : Text.IsGap gap) (hcontrol : Numeral.IsCount control stats.control)
      (hother : Text.IsGap other) (hcp : Numeral.IsCount cp stats.cp) :
      Written stats (craftsmanship ++ gap ++ (control ++ other ++ cp))

namespace Line

variable {written : List Char}

/-- The text that is read as three words is made of them. -/
theorem stats?_eq_some_iff_words {stats : CraftStats} : stats? written = some stats ↔
    ∃ craftsmanship control cp, Text.words written = [craftsmanship, control, cp] ∧
      Numeral.IsCount craftsmanship stats.craftsmanship ∧
      Numeral.IsCount control stats.control ∧ Numeral.IsCount cp stats.cp := by
  unfold stats?
  split
  · next craftsmanship control cp hwords =>
    simp only [hwords, Option.bind_eq_bind, Option.bind_eq_some_iff, Option.pure_def,
      Option.some.injEq, Numeral.count?_eq_some_iff]
    constructor
    · rintro ⟨a, ha, b, hb, c, hc, rfl⟩
      exact ⟨craftsmanship, control, cp, rfl, ha, hb, hc⟩
    · rintro ⟨_, _, _, heq, ha, hb, hc⟩
      cases heq
      exact ⟨_, ha, _, hb, _, hc, rfl⟩
  · next hother =>
    refine iff_of_false nofun ?_
    rintro ⟨craftsmanship, control, cp, hwords, _⟩
    exact hother _ _ _ hwords

/-- Attributes that are written as three counts are read. -/
theorem stats?_of_written {stats : CraftStats} (h : stats.Written written) :
    stats? written = some stats := by
  obtain ⟨hcraftsmanship, hgap, hcontrol, hother, hcp⟩ := h
  refine stats?_eq_some_iff_words.mpr ⟨_, _, _, Text.Spaced.words_eq ?_, hcraftsmanship, hcontrol,
    hcp⟩
  exact .cons hcraftsmanship.isWord hgap (.cons hcontrol.isWord hother (.last hcp.isWord))

/-- Attributes are read exactly if they are written as three counts. -/
theorem stats?_eq_some_iff (htrim : Text.trim written = written) {stats : CraftStats} :
    stats? written = some stats ↔ stats.Written written := by
  refine ⟨fun h => ?_, stats?_of_written⟩
  obtain ⟨_, _, _, hwords, hcraftsmanship, hcontrol, hcp⟩ := stats?_eq_some_iff_words.mp h
  have hne : written ≠ [] := by
    rintro rfl
    cases hwords
  cases (Text.words_eq_iff hne htrim).mp hwords with
  | cons _ hgap hothers =>
    cases hothers with
    | cons _ hother hlast =>
      cases hlast with
      | last => exact .intro hcraftsmanship hgap hcontrol hother hcp
      | cons _ _ hnone => cases hnone

end Line

/-! ## Verbs that take numbers -/

/-- The kind of command that a verb makes of a count, if it takes one. -/
def Verb.counting? : Verb → Option (Nat → Command.Kind)
  | .craft => some .craft
  | .loop => some fun count => .loop (some count)
  | .requireQuality => some fun least => .require (.quality least)
  | _ => none

/-- A verb takes numbers: one, or the three of a crafter. -/
def Verb.TakesNumbers (verb : Verb) : Prop :=
  verb.counting?.isSome = true ∨ verb = .requireStats

/-- A verb that takes numbers can be written on a line. -/
theorem Verb.mem_written_of_takesNumbers {verb : Verb} (h : verb.TakesNumbers) :
    verb ∈ written := by
  cases verb with
  | native => rcases h with hcounting | hstats <;> contradiction
  | action | click | craft | hold | item | loop | recipe | release | require | requireQuality
  | requireRepair | requireSpiritbond | requireStats | runMacro | send | target | wait
  | waitAddon => decide

/-- What a verb asks for with the numbers behind it. -/
inductive Line.AsksFor (written : List Char) : Verb → Command.Kind → Prop
  | count {verb : Verb} {kindFor : Nat → Command.Kind} {n : Nat}
      (hcounting : verb.counting? = some kindFor) (hcount : Numeral.IsCount written n) :
      AsksFor written verb (kindFor n)
  | stats {stats : CraftStats} (hstats : stats.Written written) :
      AsksFor written .requireStats (.require (.stats stats))

namespace Line

variable {verb : Verb} {written : List Char} {modifiers : Modifiers} {kind : Command.Kind}

/-- What a verb that takes numbers makes of its arguments is what it asks for with them. -/
theorem makes_iff_asksFor (hverb : verb.TakesNumbers) (htrim : Text.trim written = written)
    (hloop : verb = .loop → written ≠ []) :
    Makes written modifiers verb kind ↔ AsksFor written verb kind := by
  constructor
  · intro h
    cases h with
    | craft hcount => exact .count rfl (Numeral.count?_eq_some_iff.mp hcount)
    | loop hcount =>
      exact .count (show Verb.loop.counting? = some fun count => .loop (some count) from rfl)
        (Numeral.count?_eq_some_iff.mp hcount)
    | quality hleast =>
      exact .count
        (show Verb.requireQuality.counting? = some fun least => .require (.quality least) from rfl)
        (Numeral.count?_eq_some_iff.mp hleast)
    | stats hleast => exact .stats ((stats?_eq_some_iff htrim).mp hleast)
    | endlessLoop hnone => exact absurd hnone (hloop rfl)
    | @named verb _ _ hnaming _ =>
      cases verb <;> cases hnaming <;> rcases hverb with hcounting | hstats <;> contradiction
    | @keys _ motion _ hkeys _ _ _ =>
      subst hkeys
      cases motion <;> rcases hverb with hcounting | hstats <;> contradiction
    | repair | anySpiritbond | spiritbond | bareWait | wait =>
      rcases hverb with hcounting | hstats <;> contradiction
  · intro h
    cases h with
    | stats hstats => exact .stats ((stats?_eq_some_iff htrim).mpr hstats)
    | @count verb _ _ hcounting hcount =>
      have hread := Numeral.count?_eq_some_iff.mpr hcount
      cases verb <;> cases hcounting
      · exact .craft hread
      · exact .loop hread
      · exact .quality hread

/-- Numbers are read for what they ask for. -/
theorem kindOf_eq_ok_iff (hverb : verb.TakesNumbers) (htrim : Text.trim written = written)
    (hloop : verb = .loop → written ≠ []) (line : String) (modifiers : Modifiers) :
    kindOf verb line written modifiers = .ok kind ↔ AsksFor written verb kind := by
  rw [← @makes_iff_asksFor verb written modifiers kind hverb htrim hloop]
  exact ⟨makes_of_kindOf, fun hmakes => kindOf_of_makes hmakes line⟩

/-- A verb asks for one thing at most with what is written behind it. -/
theorem AsksFor.eq {other : Command.Kind} (h : AsksFor written verb kind)
    (hother : AsksFor written verb other) : kind = other := by
  cases h with
  | count hcounting hcount =>
    cases hother with
    | count hcounting' hcount' =>
      cases hcounting.symm.trans hcounting'
      rw [← hcount.value_eq, hcount'.value_eq]
    | stats => cases hcounting
  | stats hstats =>
    cases hother with
    | count hcounting => cases hcounting
    | stats hstats' =>
      cases (stats?_of_written hstats).symm.trans (stats?_of_written hstats')
      rfl

/-- A verb that takes numbers and is given anything else refuses the line. -/
theorem kindOf_eq_ok_or_error (hverb : verb.TakesNumbers) (line : String) (written : List Char)
    (modifiers : Modifiers) :
    (∃ kind, kindOf verb line written modifiers = .ok kind) ∨
      kindOf verb line written modifiers = .error (.invalidArgument verb line) := by
  cases verb with
  | craft | requireQuality =>
    cases hcount : Numeral.count? written with
    | none => exact .inr (by simp [kindOf, hcount])
    | some n => exact .inl (by simp [kindOf, hcount])
  | requireStats =>
    cases hstats : stats? written with
    | none => exact .inr (by simp [kindOf, hstats])
    | some stats => exact .inl (by simp [kindOf, hstats])
  | loop =>
    by_cases hnone : written = []
    · exact .inl ⟨.loop none, by simp [kindOf, hnone]⟩
    · cases hcount : Numeral.count? written with
      | none => exact .inr (by simp [kindOf, hnone, hcount])
      | some n => exact .inl ⟨.loop (some n), by simp [kindOf, hnone, hcount]⟩
  | action | click | hold | item | native | recipe | release | require | requireRepair
  | requireSpiritbond | runMacro | send | target | wait | waitAddon =>
    rcases hverb with hcounting | hstats <;> contradiction

/-- The verb and what is written behind it are split, also where nothing is written and the blanks
behind the verb are trimmed. -/
theorem splitVerb?_trim {word gap : List Char} (hword : Text.IsWord word) (hgap : Text.IsGap gap)
    (htrim : Text.trim written = written) (hfeed : '\n' ∉ written) :
    splitVerb? (Text.trim ('/' :: (word ++ gap ++ written))) = some (word, written) := by
  by_cases hnone : written = []
  · subst hnone
    have hbare : Text.trim ('/' :: (word ++ gap ++ [])) = '/' :: word := by
      rw [List.append_nil, ← List.cons_append, Text.trim_append_of_blank _ hgap.blank]
      exact Text.trim_of_not_blank
        (List.forall_mem_cons.mpr ⟨by simp [Text.isBlank], hword.not_blank⟩)
    have hletters : ∀ c ∈ word, (!Text.isBlank c) = true := fun c hc => by
      simp [hword.not_blank c hc]
    have htake := @List.takeWhile_append_of_pos _ _ _ [] hletters
    have hdrop := @List.dropWhile_append_of_pos _ _ _ [] hletters
    rw [List.append_nil, List.takeWhile_nil, List.append_nil] at htake
    rw [List.append_nil, List.dropWhile_nil] at hdrop
    have hsome : word.isEmpty = false := by simpa using hword.ne_nil
    rw [hbare]
    simp [splitVerb?, htake, hdrop, hsome, Text.trimStart, Text.trim, Text.trimEnd]
  · rw [Text.trim_cons_append rfl hnone htrim]
    exact splitVerb?_append hword.ne_nil hword.not_blank hgap.ne_nil hgap.blank htrim hfeed

end Line

/-! ## Lines with numbers -/

/-- A line without brackets is read as what its verb makes of the arguments alone, unless the verb
is one that brings a delay of its own. -/
theorem LineReader.command_eq_map_kindOf (reader : LineReader) {line word arguments : List Char}
    {verb : Verb} (hopen : '<' ∉ line)
    (hsplit : Line.splitVerb? (Text.trim line) = some (word, arguments))
    (hfound : Verb.ofWord? (String.ofList (Text.lower word)) = some verb) (hwait : verb ≠ .wait) :
    reader.command line =
      (Line.kindOf verb (String.ofList (Text.trim line)) arguments {}).map fun kind =>
        some { text := String.ofList (Text.trim line), kind } := by
  obtain ⟨rest, hrest, -⟩ := Line.splitVerb?_eq_some hsplit
  have hplain : Modifiers.Plain (Text.trim line) := by
    intro c hc
    refine Text.sameFolded_open ?_
    rintro rfl
    exact hopen (Text.mem_of_mem_trim hc)
  have hextract : Modifiers.extract (Text.trim line) = .ok ({}, '/' :: rest) := by
    rw [Modifiers.extract_plain hplain, Text.trim_trim, hrest]
  rw [← reader.command_trim]
  cases hkind : Line.kindOf verb (String.ofList (Text.trim line)) arguments {} with
  | ok kind =>
    have hother : kind ≠ .wait := by
      rintro rfl
      exact hwait (Line.verb_of_kindOf hkind).symm
    exact reader.command_of_verb (Text.trim_trim line) (by rw [hrest]; rfl) hextract
      (hrest ▸ hsplit) hfound hkind hother
  | error cause =>
    simp only [LineReader.command, Text.trim_trim, hextract, Line.kindAndDelay, ← hrest, hsplit,
      hfound, hkind, bind, Except.bind]
    rw [hrest]
    rfl

/-- What a line is read as whose verb takes numbers: the command that it asks for, without any
modifier, or else the refusal of the whole line. -/
inductive Line.NumbersRead (line written : List Char) (verb : Verb) :
    Except LineError (Option Command) → Prop
  | command {kind : Command.Kind} (hasked : AsksFor written verb kind) :
      NumbersRead line written verb (.ok (some { text := String.ofList (Text.trim line), kind }))
  | refusal (hnone : ∀ kind, ¬AsksFor written verb kind) :
      NumbersRead line written verb
        (.error (.invalidArgument verb (String.ofList (Text.trim line))))

/-- A line is read in one way only. -/
theorem Line.NumbersRead.eq {line written : List Char} {verb : Verb}
    {result other : Except LineError (Option Command)} (h : NumbersRead line written verb result)
    (hother : NumbersRead line written verb other) : result = other := by
  cases h with
  | command hasked =>
    cases hother with
    | command hasked' => rw [hasked.eq hasked']
    | refusal hnone => exact absurd hasked (hnone _)
  | refusal hnone =>
    cases hother with
    | command hasked => exact absurd hasked (hnone _)
    | refusal => rfl

/-- A verb with something behind it that takes numbers is read as what the numbers say, and as
nothing else. -/
theorem LineReader.command_eq_iff_numbersRead (reader : LineReader) {verb : Verb}
    {word gap written : List Char} (hverb : verb.TakesNumbers) (hword : verb.IsSpelled word)
    (hgap : Text.IsGap gap) (htrim : Text.trim written = written) (hopen : '<' ∉ written)
    (hfeed : '\n' ∉ written) (hloop : verb = .loop → written ≠ [])
    {result : Except LineError (Option Command)} :
    reader.command ('/' :: (word ++ gap ++ written)) = result ↔
      Line.NumbersRead ('/' :: (word ++ gap ++ written)) written verb result := by
  let line := '/' :: (word ++ gap ++ written)
  have hwritten := Verb.mem_written_of_takesNumbers hverb
  obtain ⟨hsome, hletters⟩ := hword.plain hwritten
  have hbare : '<' ∉ line := hword.open_not_mem hwritten hgap.blank hopen
  have hsplit : Line.splitVerb? (Text.trim line) = some (word, written) :=
    Line.splitVerb?_trim ⟨hsome, fun c hc => (hletters c hc).1⟩ hgap htrim hfeed
  have hwait : verb ≠ .wait := by
    rintro rfl
    rcases hverb with hcounting | hstats <;> contradiction
  have hasks (kind : Command.Kind) := @Line.kindOf_eq_ok_iff verb written kind hverb htrim hloop
    (String.ofList (Text.trim line)) {}
  have hread : Line.NumbersRead line written verb (reader.command line) := by
    rw [reader.command_eq_map_kindOf hbare hsplit (hword.ofWord?_eq hwritten) hwait]
    obtain ⟨kind, hkind⟩ | hfault := Line.kindOf_eq_ok_or_error hverb
      (String.ofList (Text.trim line)) written {}
    · rw [hkind]
      exact .command ((hasks kind).mp hkind)
    · rw [hfault]
      refine .refusal fun kind hkind => ?_
      rw [(hasks kind).mpr hkind] at hfault
      cases hfault
  constructor
  · rintro rfl
    exact hread
  · exact hread.eq

/-- Leading zeros and wide gaps are no hindrance. -/
theorem LineReader.command_eq_iff_numbersRead_of_stats :
    (⟨[]⟩ : LineReader).command "/RequireSTATS\t007 \t4294967295\u3000000".toList =
      .ok (some {
        text := "/RequireSTATS\t007 \t4294967295\u3000000"
        kind := .require (.stats ⟨7, 4294967295, 0⟩) }) := by
  have hspelled : Verb.requireStats.IsSpelled "RequireSTATS".toList :=
    ⟨"requirestats", by decide, by decide⟩
  have hgap : Text.IsGap "\t".toList := ⟨by decide, List.all_eq_true.mp rfl⟩
  have hother : Text.IsGap " \t".toList := ⟨by decide, List.all_eq_true.mp rfl⟩
  have hwide : Text.IsGap "\u3000".toList := ⟨by decide, List.all_eq_true.mp rfl⟩
  have hseven : Numeral.IsCount "007".toList 7 :=
    ⟨⟨by decide, List.all_eq_true.mp rfl, by decide⟩, by decide⟩
  have hgreatest : Numeral.IsCount "4294967295".toList 4294967295 :=
    ⟨⟨by decide, List.all_eq_true.mp rfl, by decide⟩, by decide⟩
  have hzero : Numeral.IsCount "000".toList 0 :=
    ⟨⟨by decide, List.all_eq_true.mp rfl, by decide⟩, by decide⟩
  have hstats := @CraftStats.Written.intro ⟨7, 4294967295, 0⟩ _ _ _ _ _ hseven hother hgreatest
    hwide hzero
  have hwritten : Text.trim "007 \t4294967295\u3000000".toList =
      "007 \t4294967295\u3000000".toList := by decide +kernel
  have hline : Text.trim "/RequireSTATS\t007 \t4294967295\u3000000".toList =
      "/RequireSTATS\t007 \t4294967295\u3000000".toList := by decide +kernel
  have hread := (command_eq_iff_numbersRead ⟨[]⟩ (.inr rfl) hspelled hgap hwritten (by decide)
    (by decide) nofun).mpr (.command (.stats hstats))
  have happend : '/' :: ("RequireSTATS".toList ++ "\t".toList ++
      "007 \t4294967295\u3000000".toList) =
      "/RequireSTATS\t007 \t4294967295\u3000000".toList := by decide +kernel
  rwa [happend, hline, String.ofList_toList] at hread

end GameMacros
