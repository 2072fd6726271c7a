import GameMacros.Proofs.Reading

/-!
# What a line does

A line is read in three steps: its modifiers are taken out, what is left is split into a verb and
arguments, and the verb makes a kind of command of the arguments. What can come of each step is said
here once.
-/

namespace GameMacros

/-- What is read and then changed was read. -/
theorem exists_of_map_eq_ok {ε α β : Type} {result : Except ε α} {change : α → β} {value : β}
    (h : result.map change = .ok value) : ∃ found, result = .ok found ∧ change found = value := by
  cases result with
  | error error => cases h
  | ok found => exact ⟨found, rfl, Except.ok.inj h⟩

/-- What is read in two steps was read in each of them. -/
theorem exists_of_bind_eq_ok {ε α β : Type} {first : Except ε α} {next : α → Except ε β}
    {value : β} (h : first >>= next = .ok value) :
    ∃ found, first = .ok found ∧ next found = .ok value := by
  cases first with
  | error error => cases h
  | ok found => exact ⟨found, rfl, h⟩

namespace Verb

/-- The kind of command that a verb makes of the modifiers and the name on its line, if it takes a
name. -/
def naming? : Verb → Option (Modifiers → String → Command.Kind)
  | .action =>
    some fun modifiers name => .action name modifiers.unsafeAction modifiers.condition
  | .click => some fun _ name => .click name
  | .item => some fun modifiers name => .item name modifiers.hq
  | .recipe => some fun _ name => .recipe (Text.lowercase name)
  | .require => some fun _ name => .require (.status name)
  | .runMacro => some fun _ name => .runMacro name
  | .target => some fun _ name => .target name
  | .waitAddon => some fun _ name => .waitAddon name
  | _ => none

end Verb

namespace Line

/-- What the verbs make of arguments and modifiers. -/
inductive Makes (arguments : List Char) (modifiers : Modifiers) : Verb → Command.Kind → Prop
  | named {verb : Verb} {kindFor : Modifiers → String → Command.Kind} {name : String}
      (hnaming : verb.naming? = some kindFor) (hname : name? arguments = some name) :
      Makes arguments modifiers verb (kindFor modifiers name)
  | keys {verb : Verb} {motion : KeyMotion} {combo : KeyCombo}
      (hverb : (Command.Kind.keys motion combo).verb = verb) (hne : arguments ≠ [])
      (hblank : ∀ c ∈ arguments, Text.isBlank c = false)
      (hcombo : KeyCombo.ofText arguments = .ok combo) :
      Makes arguments modifiers verb (.keys motion combo)
  | craft {count : Nat} (hcount : Numeral.count? arguments = some count) :
      Makes arguments modifiers .craft (.craft count)
  | endlessLoop (hnone : arguments = []) : Makes arguments modifiers .loop (.loop none)
  | loop {count : Nat} (hcount : Numeral.count? arguments = some count) :
      Makes arguments modifiers .loop (.loop (some count))
  | quality {least : Nat} (hleast : Numeral.count? arguments = some least) :
      Makes arguments modifiers .requireQuality (.require (.quality least))
  | repair (hnone : arguments = []) :
      Makes arguments modifiers .requireRepair (.require .repair)
  | anySpiritbond (hnone : arguments = []) :
      Makes arguments modifiers .requireSpiritbond (.require (.spiritbond none))
  | spiritbond {within : Decimal} (hwithin : Decimal.ofText? arguments = some within) :
      Makes arguments modifiers .requireSpiritbond
        (.require (.spiritbond (some (Binary32.ofDecimal within))))
  | stats {least : CraftStats} (hleast : stats? arguments = some least) :
      Makes arguments modifiers .requireStats (.require (.stats least))
  | bareWait (hnone : arguments = []) : Makes arguments modifiers .wait .wait
  | wait {delay : Wait} (hdelay : delay? arguments = some delay) :
      Makes arguments modifiers .wait .wait

variable {reader : LineReader} {verb : Verb} {line : String} {rest arguments : List Char}
  {modifiers : Modifiers} {kind : Command.Kind}

/-- A verb makes a kind of command or an error. -/
theorem makes_of_kindOf (h : kindOf verb line arguments modifiers = .ok kind) :
    Makes arguments modifiers verb kind := by
  have hnamed {kindFor : Modifiers → String → Command.Kind} {name : String}
      (hnaming : verb.naming? = some kindFor) (hkind : kindFor modifiers name = kind)
      (hname : name? arguments = some name) : Makes arguments modifiers verb kind :=
    hkind ▸ .named hnaming hname
  have hkeys {motion : KeyMotion} (hverb : ∀ combo, (Command.Kind.keys motion combo).verb = verb)
      (hread : (combo verb line arguments).map (.keys motion) = .ok kind) :
      Makes arguments modifiers verb kind := by
    obtain ⟨found, hfound, rfl⟩ := exists_of_map_eq_ok hread
    unfold combo at hfound
    split at hfound
    · cases hfound
    · next hguard =>
      simp only [Bool.or_eq_true, not_or, List.isEmpty_iff, List.any_eq_true, not_exists, not_and,
        Bool.not_eq_true] at hguard
      split at hfound
      · next hcombo =>
        cases hfound
        exact .keys (hverb found) hguard.1 hguard.2 hcombo
      · cases hfound
  cases verb with
  | hold | release | send => exact hkeys (fun _ => rfl) h
  | native => cases h
  | action | click | item | recipe | require | runMacro | target | waitAddon =>
    cases hname : name? arguments with
    | none => simp [kindOf, hname] at h
    | some name =>
      simp only [kindOf, hname, Option.map_some] at h
      exact hnamed rfl (Except.ok.inj h) hname
  | craft =>
    cases hcount : Numeral.count? arguments with
    | none => simp [kindOf, hcount] at h
    | some count =>
      simp only [kindOf, hcount, Option.map_some] at h
      exact Except.ok.inj h ▸ .craft hcount
  | requireQuality =>
    cases hleast : Numeral.count? arguments with
    | none => simp [kindOf, hleast] at h
    | some least =>
      simp only [kindOf, hleast, Option.map_some] at h
      exact Except.ok.inj h ▸ .quality hleast
  | requireStats =>
    cases hleast : stats? arguments with
    | none => simp [kindOf, hleast] at h
    | some least =>
      simp only [kindOf, hleast, Option.map_some] at h
      exact Except.ok.inj h ▸ .stats hleast
  | requireRepair =>
    by_cases hnone : arguments = []
    · subst hnone
      exact Except.ok.inj h ▸ .repair rfl
    · simp [kindOf, hnone] at h
  | loop =>
    by_cases hnone : arguments = []
    · subst hnone
      exact Except.ok.inj h ▸ .endlessLoop rfl
    · cases hcount : Numeral.count? arguments with
      | none => simp [kindOf, hnone, hcount] at h
      | some count =>
        simp only [kindOf, List.isEmpty_iff, hnone, hcount, Option.map_some, if_false] at h
        exact Except.ok.inj h ▸ .loop hcount
  | requireSpiritbond =>
    by_cases hnone : arguments = []
    · subst hnone
      exact Except.ok.inj h ▸ .anySpiritbond rfl
    · cases hwithin : Decimal.ofText? arguments with
      | none => simp [kindOf, hnone, hwithin] at h
      | some within =>
        simp only [kindOf, List.isEmpty_iff, hnone, hwithin, Option.map_some, if_false] at h
        exact Except.ok.inj h ▸ .spiritbond hwithin
  | wait =>
    by_cases hnone : arguments = []
    · subst hnone
      exact Except.ok.inj h ▸ .bareWait rfl
    · cases hdelay : delay? arguments with
      | none => simp [kindOf, hnone, hdelay] at h
      | some delay =>
        simp only [kindOf, List.isEmpty_iff, hnone, hdelay, Option.map_some, if_false] at h
        exact Except.ok.inj h ▸ .wait hdelay

/-- What a verb makes of arguments is read, whatever the line. -/
theorem kindOf_of_makes (h : Makes arguments modifiers verb kind) (line : String) :
    kindOf verb line arguments modifiers = .ok kind := by
  cases h with
  | @named _ _ name hnaming hname => cases verb <;> cases hnaming <;> simp [kindOf, hname]
  | @keys _ motion found hverb hne hblank hcombo =>
    have hguard : (arguments.isEmpty || arguments.any Text.isBlank) = false := by simpa [hne]
    have hread : combo verb line arguments = .ok found := by
      simp only [combo, hguard, hcombo, Bool.false_eq_true, if_false]
    cases motion <;> cases hverb <;> simp only [kindOf, hread] <;> rfl
  | craft hcount | quality hcount => simp [kindOf, hcount]
  | loop hcount =>
    have hne : arguments ≠ [] := by
      rintro rfl
      cases hcount
    simp [kindOf, hne, hcount]
  | spiritbond hwithin =>
    have hne : arguments ≠ [] := by
      rintro rfl
      cases hwithin
    simp [kindOf, hne, hwithin]
  | stats hleast => simp [kindOf, hleast]
  | wait hdelay => simp [kindOf, hdelay]
  | endlessLoop hnone | repair hnone | anySpiritbond hnone | bareWait hnone => simp [kindOf, hnone]

/-- A verb that takes a name makes a command of its own of it. -/
theorem verb_of_naming? {kindFor : Modifiers → String → Command.Kind}
    (h : verb.naming? = some kindFor) (modifiers : Modifiers) (name : String) :
    (kindFor modifiers name).verb = verb := by
  cases verb <;> cases h <;> rfl

/-- A line does what its verb says. -/
theorem verb_of_kindOf (h : kindOf verb line arguments modifiers = .ok kind) :
    kind.verb = verb := by
  cases makes_of_kindOf h with
  | named hnaming => exact verb_of_naming? hnaming modifiers _
  | keys hverb => exact hverb
  | craft | endlessLoop | loop | quality | repair | anySpiritbond | spiritbond | stats | bareWait
  | wait => rfl

/-- A text that has a verb starts with a slash, and the verb ends where the first blank comes. -/
theorem splitVerb?_eq_some {word : List Char}
    (h : splitVerb? rest = some (word, arguments)) :
    ∃ s, rest = '/' :: s ∧ word = s.takeWhile (!Text.isBlank ·) ∧
      arguments = Text.trim (Text.trimStart (s.dropWhile (!Text.isBlank ·))) := by
  unfold splitVerb? at h
  split at h
  · next s =>
    dsimp only at h
    split at h
    · cases h
    · cases h
      exact ⟨s, rfl, rfl, rfl⟩
  · cases h

/-- A verb and arguments are split at the blanks between them. -/
theorem splitVerb?_append {word gap arguments : List Char} (hword : word ≠ [])
    (hverb : ∀ c ∈ word, Text.isBlank c = false) (hgap : gap ≠ [])
    (hblank : ∀ c ∈ gap, Text.isBlank c = true) (htrim : Text.trim arguments = arguments)
    (hfeed : '\n' ∉ arguments) :
    splitVerb? ('/' :: (word ++ gap ++ arguments)) = some (word, arguments) := by
  have hnonblank : ∀ c ∈ word, (!Text.isBlank c) = true := fun c hc => by simp [hverb c hc]
  obtain ⟨b, others, rfl⟩ := List.exists_cons_of_ne_nil hgap
  have hfirst : Text.isBlank b = true := hblank b List.mem_cons_self
  have htake : (word ++ (b :: others ++ arguments)).takeWhile (!Text.isBlank ·) = word := by
    simp [List.takeWhile_append_of_pos hnonblank, hfirst]
  have hdrop : (word ++ (b :: others ++ arguments)).dropWhile (!Text.isBlank ·) =
      b :: others ++ arguments := by
    simp [List.dropWhile_append_of_pos hnonblank, hfirst]
  have harguments : Text.trimStart (b :: others ++ arguments) = arguments := by
    rw [Text.trimStart, List.dropWhile_append_of_pos hblank]
    exact Text.trimStart_eq_self (htrim ▸ Text.head?_trim)
  have hone : arguments.contains '\n' = false := by simpa using hfeed
  have hsome : word.isEmpty = false := by simpa using hword
  simp only [splitVerb?, List.append_assoc, htake, hdrop, harguments, hone, hsome, htrim,
    Bool.or_self, Bool.false_eq_true, if_false]

/-- A verb with a count behind it is split into both. -/
theorem splitVerb?_count {word : List Char} (hword : word ≠ [])
    (hblank : ∀ c ∈ word, Text.isBlank c = false) (count : Nat) :
    splitVerb? ('/' :: (word ++ ' ' :: Nat.toDigits 10 count)) =
      some (word, Nat.toDigits 10 count) := by
  have hfeed : '\n' ∉ Nat.toDigits 10 count := fun h =>
    Numeral.forall_mem_toDigits (p := (· ≠ '\n')) (by decide) count _ h rfl
  have hsplit := splitVerb?_append hword hblank (List.cons_ne_nil ' ' [])
    (by simp [Text.isBlank]) (Numeral.trim_toDigits count) hfeed
  rwa [List.append_assoc] at hsplit

/-- What is left of a line is for the game: it is said aloud, or goes there as it is because of a
bracket in front or a verb of the game. -/
inductive ForGame (reader : LineReader) (rest : List Char) : String → Prop
  | aloud (hne : rest ≠ []) (hopen : rest.head? ≠ some '<') (hslash : rest.head? ≠ some '/') :
      ForGame reader rest ("/e " ++ String.ofList rest)
  | bracketed (hopen : rest.head? = some '<') : ForGame reader rest (String.ofList rest)
  | verb {word arguments : List Char} (hsplit : splitVerb? rest = some (word, arguments))
      (hother : Verb.ofWord? (String.ofList (Text.lower word)) = none)
      (hnative : String.ofList (Text.lower word) ∈ reader.nativeVerbs) :
      ForGame reader rest (String.ofList rest)

/-- What a line does it does by its verb, unless it is a bare wait or a line for the game. -/
theorem kindAndDelay_cases {delay : Option Wait}
    (h : kindAndDelay reader line modifiers rest = .ok (kind, delay)) :
    (∃ word arguments verb, splitVerb? rest = some (word, arguments) ∧
        Verb.ofWord? (String.ofList (Text.lower word)) = some verb ∧
        kindOf verb line arguments modifiers = .ok kind ∧
        delay = if kind = .wait then delay? arguments else none) ∨
      (kind = .wait ∧ rest = [] ∧ delay = none) ∨
      ∃ text, kind = .native text ∧ ForGame reader rest text ∧ delay = none := by
  unfold kindAndDelay at h
  split at h
  · cases h
    exact .inr (.inl ⟨rfl, rfl, rfl⟩)
  · cases h
    exact .inr (.inr ⟨_, rfl, .bracketed rfl, rfl⟩)
  · split at h
    · cases h
    next word arguments hsplit =>
    dsimp only at h
    split at h
    · next verb hverb =>
      obtain ⟨found, hfound, heq⟩ := exists_of_map_eq_ok h
      obtain ⟨rfl, rfl⟩ := Prod.mk.inj heq
      exact .inl ⟨word, arguments, verb, hsplit, hverb, hfound, rfl⟩
    · next hother =>
      split at h
      · next hlisted =>
        cases h
        exact .inr (.inr ⟨_, rfl, .verb hsplit hother (List.contains_iff_mem.mp hlisted), rfl⟩)
      · cases h
  · next hnil hopen hslash =>
    cases h
    cases rest with
    | nil => exact absurd rfl hnil
    | cons c s =>
      refine .inr (.inr ⟨_, rfl, .aloud (List.cons_ne_nil c s) ?_ ?_, rfl⟩)
      · rintro ⟨⟩
        exact hopen s rfl
      · rintro ⟨⟩
        exact hslash s rfl

/-- A line with a verb does what the verb says. -/
theorem kindAndDelay_of_verb {reader : LineReader} {line : String} {modifiers : Modifiers}
    {rest word arguments : List Char} {verb : Verb} {kind : Command.Kind}
    (hsplit : splitVerb? ('/' :: rest) = some (word, arguments))
    (hverb : Verb.ofWord? (String.ofList (Text.lower word)) = some verb)
    (hkind : kindOf verb line arguments modifiers = .ok kind) :
    kindAndDelay reader line modifiers ('/' :: rest) =
      .ok (kind, if kind = .wait then delay? arguments else none) := by
  simp only [kindAndDelay, hsplit, hverb, hkind]
  rfl

end Line

namespace LineReader

variable {reader : LineReader}

/-- A command is read off the modifiers of its line and what is left. -/
theorem exists_of_command {line : List Char} {command : Command}
    (h : reader.command line = .ok (some command)) :
    ∃ modifiers rest delay, Modifiers.extract (Text.trim line) = .ok (modifiers, rest) ∧
      Line.kindAndDelay reader (String.ofList (Text.trim line)) modifiers rest =
        .ok (command.kind, delay) ∧
      command =
        { text := String.ofList (Text.trim line)
          kind := command.kind
          wait := delay.getD modifiers.wait
          maxWait := modifiers.maxWaitOrDefault
          index := modifiers.index
          echo := modifiers.echo } := by
  unfold LineReader.command at h
  dsimp only at h
  split at h
  · cases h
  · obtain ⟨⟨modifiers, rest⟩, hextract, h⟩ := exists_of_bind_eq_ok h
    obtain ⟨⟨kind, delay⟩, hkind, h⟩ := exists_of_bind_eq_ok h
    cases h
    exact ⟨modifiers, rest, delay, hextract, hkind, rfl⟩

/-- What is read off the modifiers of a line and what is left is its command. -/
theorem command_of_extract {line rest : List Char} {modifiers : Modifiers} {kind : Command.Kind}
    {delay : Option Wait} (htrim : Text.trim line = line) (hhead : line.head? = some '/')
    (hextract : Modifiers.extract line = .ok (modifiers, rest))
    (hkind : Line.kindAndDelay reader (String.ofList line) modifiers rest = .ok (kind, delay)) :
    reader.command line =
      .ok (some
        { text := String.ofList line
          kind
          wait := delay.getD modifiers.wait
          maxWait := modifiers.maxWaitOrDefault
          index := modifiers.index
          echo := modifiers.echo }) := by
  have hne : line.isEmpty = false := by
    cases line with
    | nil => cases hhead
    | cons => rfl
  simp only [LineReader.command, htrim, hne, hhead, hextract, hkind, bind, Except.bind]
  rfl

/-- A line with a verb is read as what the verb says, with the modifiers of the line. -/
theorem command_of_verb {line rest word arguments : List Char} {modifiers : Modifiers} {verb : Verb}
    {kind : Command.Kind} (htrim : Text.trim line = line) (hhead : line.head? = some '/')
    (hextract : Modifiers.extract line = .ok (modifiers, '/' :: rest))
    (hsplit : Line.splitVerb? ('/' :: rest) = some (word, arguments))
    (hverb : Verb.ofWord? (String.ofList (Text.lower word)) = some verb)
    (hkind : Line.kindOf verb (String.ofList line) arguments modifiers = .ok kind)
    (hwait : kind ≠ .wait) :
    reader.command line =
      .ok (some
        { text := String.ofList line
          kind
          wait := modifiers.wait
          maxWait := modifiers.maxWaitOrDefault
          index := modifiers.index
          echo := modifiers.echo }) := by
  have hread := @Line.kindAndDelay_of_verb reader _ _ _ _ _ _ _ hsplit hverb hkind
  rw [if_neg hwait] at hread
  exact command_of_extract htrim hhead hextract hread

end LineReader

end GameMacros
