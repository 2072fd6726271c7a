import GameMacros.Prompt.Session
import GameMacros.Proofs.Counts
import Mathlib.Data.List.Chain

/-!
# Arguments at the prompt

A request names a macro, or holds a macro line. It is taken apart into words, and the words of its
argument are put together again with a space between each two. So an argument is handed over as it
was typed exactly if it has no other gaps, and a macro with any other name cannot be asked for at
all.
-/

namespace GameMacros

/-! ## Words put together -/

namespace Text

/-- Each blank of the text is a space that stands by itself. -/
structure EvenlySpaced (s : List Char) : Prop where
  eq_space : ∀ c ∈ s, isBlank c = true → c = ' '
  apart : s.IsChain fun c next => isBlank c = false ∨ isBlank next = false

open Request (joined)

variable {word s : List Char} {parts : List (List Char)}

theorem joined_cons (word : List Char) (hne : parts ≠ []) :
    joined (word :: parts) = word ++ ' ' :: joined parts := by
  obtain ⟨other, others, rfl⟩ := List.exists_cons_of_ne_nil hne
  simp [joined, List.intercalate]

/-- A word that is held backwards is one. -/
theorem isWord_reverse {current : List Char} (hne : ¬current.isEmpty = true)
    (hcurrent : ∀ c ∈ current, isBlank c = false) : IsWord current.reverse :=
  ⟨by simpa using hne, by simpa using hcurrent⟩

/-- What is read as the words of a text are words. -/
theorem isWord_of_mem_wordsAfter {current : List Char} (hcurrent : ∀ c ∈ current, isBlank c = false)
    (h : word ∈ wordsAfter current s) : IsWord word := by
  induction s generalizing current with
  | nil =>
    unfold wordsAfter at h
    split at h
    · cases h
    · next hne =>
      obtain rfl := List.mem_singleton.mp h
      exact isWord_reverse hne hcurrent
  | cons c s ih =>
    have hnone : ∀ c ∈ ([] : List Char), isBlank c = false := by simp
    unfold wordsAfter at h
    split at h
    · split at h
      · exact ih hnone h
      · next hne =>
        obtain rfl | hothers := List.mem_cons.mp h
        · exact isWord_reverse hne hcurrent
        · exact ih hnone hothers
    · next hc => exact ih (List.forall_mem_cons.mpr ⟨by simpa using hc, hcurrent⟩) h

theorem Spaced.ne_nil (h : Spaced parts s) : parts ≠ [] := by
  cases h <;> exact List.cons_ne_nil _ _

theorem Spaced.isWord (h : Spaced parts s) : ∀ word ∈ parts, IsWord word := by
  induction h with
  | last hword => simpa using hword
  | cons hword _ _ ih => exact List.forall_mem_cons.mpr ⟨hword, ih⟩

/-- A part of an evenly spaced text is evenly spaced. -/
theorem EvenlySpaced.of_isInfix (h : EvenlySpaced s) (hpart : word <:+: s) : EvenlySpaced word := by
  refine ⟨fun c hc => h.eq_space c (hpart.subset hc), ?_⟩
  obtain ⟨front, back, rfl⟩ := hpart
  exact h.apart.left_of_append.right_of_append

/-- A word is evenly spaced. -/
theorem IsWord.evenlySpaced (h : IsWord word) : EvenlySpaced word := by
  refine ⟨fun c hc hblank => ?_, ?_⟩
  · rw [h.not_blank c hc] at hblank
    cases hblank
  · exact (List.pairwise_of_forall_mem_list fun c hc _ _ => .inl (h.not_blank c hc)).isChain

/-- A word and a space may be put before an evenly spaced text that does not start with a blank. -/
theorem EvenlySpaced.append_space (hword : IsWord word) (hs : EvenlySpaced s)
    (hhead : ∀ c ∈ s.head?, isBlank c = false) : EvenlySpaced (word ++ ' ' :: s) := by
  constructor
  · intro c hc
    obtain hfront | hback := List.mem_append.mp hc
    · exact hword.evenlySpaced.eq_space c hfront
    · obtain rfl | hrest := List.mem_cons.mp hback
      · exact fun _ => rfl
      · exact hs.eq_space c hrest
  · refine List.isChain_append.mpr ⟨hword.evenlySpaced.apart, ?_, ?_⟩
    · exact List.isChain_cons.mpr ⟨fun c hc => .inr (hhead c hc), hs.apart⟩
    · exact fun c hc _ _ => .inl (hword.not_blank c (List.mem_of_getLast? hc))

theorem evenlySpaced_joined (h : ∀ word ∈ parts, IsWord word) :
    EvenlySpaced (joined parts) ∧ ∀ c ∈ (joined parts).head?, isBlank c = false := by
  induction parts with
  | nil => exact ⟨⟨by simp [joined], by simp [joined]⟩, by simp [joined]⟩
  | cons word others ih =>
    obtain ⟨hword, hothers⟩ := List.forall_mem_cons.mp h
    obtain ⟨heven, hhead⟩ := ih hothers
    have hfirst : ∀ c ∈ word.head?, isBlank c = false :=
      fun c hc => hword.not_blank c (List.mem_of_head? hc)
    by_cases hnil : others = []
    · subst hnil
      have hjoined : joined [word] = word := by simp [joined]
      rw [hjoined]
      exact ⟨hword.evenlySpaced, hfirst⟩
    · rw [joined_cons word hnil]
      refine ⟨heven.append_space hword hhead, ?_⟩
      rwa [List.head?_append_of_ne_nil _ hword.ne_nil]

/-- The words of a text make it again exactly if it is evenly spaced. -/
theorem Spaced.joined_eq_iff (h : Spaced parts s) : joined parts = s ↔ EvenlySpaced s := by
  constructor
  · intro heq
    exact heq ▸ (evenlySpaced_joined h.isWord).1
  · intro heven
    induction h with
    | last => simp [joined]
    | @cons word gap s others hword hgap hothers ih =>
      obtain ⟨b, rest, rfl⟩ := List.exists_cons_of_ne_nil hgap.ne_nil
      obtain ⟨hb, hrest⟩ := List.forall_mem_cons.mp hgap.blank
      have hgapEven : EvenlySpaced (b :: rest) := heven.of_isInfix ⟨word, s, rfl⟩
      have hbspace := hgapEven.eq_space b List.mem_cons_self hb
      have hsingle : rest = [] := by
        cases rest with
        | nil => rfl
        | cons b' rest =>
          have happart := (List.isChain_cons.mp hgapEven.apart).1 b' rfl
          have hb' := hrest b' List.mem_cons_self
          simp [hb, hb'] at happart
      rw [joined_cons word hothers.ne_nil, ih (heven.of_isInfix (List.suffix_append _ _).isInfix),
        hsingle, hbspace, List.append_assoc, List.singleton_append]

/-! ## Quotes around words -/

/-- A character put before a text goes to its first word. -/
theorem Spaced.cons_front {c : Char} (hc : isBlank c = false) (h : Spaced (word :: parts) s) :
    Spaced ((c :: word) :: parts) (c :: s) := by
  have hfront (hword : IsWord word) : IsWord (c :: word) :=
    ⟨List.cons_ne_nil _ _, List.forall_mem_cons.mpr ⟨hc, hword.not_blank⟩⟩
  cases h with
  | last hword => exact .last (hfront hword)
  | cons hword hgap hothers => exact .cons (hfront hword) hgap hothers

/-- A character put behind a text goes to its last word. -/
theorem Spaced.exists_concat {c : Char} (hc : isBlank c = false) (h : Spaced parts s) :
    ∃ parts', Spaced parts' (s ++ [c]) ∧ joined parts' = joined parts ++ [c] := by
  induction h with
  | @last word hword =>
    have hback : IsWord (word ++ [c]) := by
      refine ⟨by simp, List.forall_mem_append.mpr ⟨hword.not_blank, ?_⟩⟩
      simpa using hc
    exact ⟨[word ++ [c]], .last hback, by simp [joined]⟩
  | @cons word gap s others hword hgap hothers ih =>
    obtain ⟨parts', hspaced, hjoined⟩ := ih
    refine ⟨word :: parts', ?_, ?_⟩
    · rw [List.append_assoc]
      exact .cons hword hgap hspaced
    · rw [joined_cons word hspaced.ne_nil, joined_cons word hothers.ne_nil, hjoined,
        List.append_assoc, List.cons_append]

/-- The words of a text in quotes are those of the text, with a quote at the first and the last. -/
theorem Spaced.exists_quote (h : Spaced parts s) :
    ∃ first others, Spaced (('"' :: first) :: others) (quote s) ∧
      joined (('"' :: first) :: others) = quote (joined parts) := by
  obtain ⟨parts', hspaced, hjoined⟩ := h.exists_concat (c := '"') rfl
  obtain ⟨first, others, rfl⟩ := List.exists_cons_of_ne_nil hspaced.ne_nil
  refine ⟨first, others, hspaced.cons_front rfl, ?_⟩
  have hfront : joined (('"' :: first) :: others) = '"' :: joined (first :: others) := by
    by_cases hnil : others = []
    · simp [hnil, joined]
    · rw [joined_cons _ hnil, joined_cons _ hnil, List.cons_append]
  rw [hfront, hjoined, quote, List.cons_append]

/-- Taking quotes off leaves a part of the text. -/
theorem unquote_isInfix (s : List Char) : unquote s <:+: s := by
  unfold unquote
  split
  · next rest =>
    split
    · exact (List.dropLast_prefix rest).isInfix.trans (List.suffix_cons _ rest).isInfix
    · exact List.infix_rfl
  · exact List.infix_rfl

end Text

/-! ## Keywords -/

namespace Request

/-- The word is the keyword, each letter in either case. -/
def IsKeyword (keyword : String) (word : List Char) : Prop :=
  List.Forall₂ (Text.sameLetter · · = true) keyword.toList word

theorem isKeyword_self (keyword : String) : IsKeyword keyword keyword.toList :=
  List.forall₂_same.mpr fun c _ => by simp [Text.sameLetter]

/-- The keywords that come before an argument. -/
def leading : List String :=
  ["run", "loop", "exec"]

variable {keyword : String} {word : List Char}

/-- Keywords are plain words in lower case. -/
theorem isPlainWord_of_mem_leading : ∀ keyword ∈ leading, Text.IsPlainWord keyword.toList := by
  decide +kernel

/-- A keyword is recognized whatever the case of its letters. -/
theorem IsKeyword.lower_eq (h : IsKeyword keyword word) (hleading : keyword ∈ leading) :
    Text.lower word = keyword.toList :=
  (isPlainWord_of_mem_leading keyword hleading).lower_eq h

/-- A keyword is a word. -/
theorem IsKeyword.isWord (h : IsKeyword keyword word) (hleading : keyword ∈ leading) :
    Text.IsWord word := by
  obtain ⟨hne, hplain⟩ := (isPlainWord_of_mem_leading keyword hleading).written_plain h
  exact ⟨hne, fun c hc => (hplain c hc).1⟩

end Request

/-! ## Counts -/

namespace Numeral

variable {s : List Char} {value limit n : Nat} {beyond : NumeralFault}

/-- A number does not get smaller with more digits. -/
theorem le_valueAfter (value : Nat) (s : List Char) : value ≤ valueAfter value s := by
  induction s generalizing value with
  | nil => exact Nat.le_refl _
  | cons c s ih =>
    have hnext := ih (value * 10 + (digit? c).getD 0)
    rw [valueAfter]
    omega

/-- Digits are read to the end if what they denote is in the range. -/
theorem readAfter_eq_ok (hdigits : ∀ c ∈ s, (digit? c).isSome = true)
    (hle : valueAfter value s ≤ limit) :
    readAfter limit beyond value s = .ok (valueAfter value s) := by
  induction s generalizing value with
  | nil => rfl
  | cons c s ih =>
    obtain ⟨hc, hothers⟩ := List.forall_mem_cons.mp hdigits
    obtain ⟨d, hd⟩ := Option.isSome_iff_exists.mp hc
    rw [valueAfter, hd, Option.getD_some] at hle ⊢
    have hnext := (le_valueAfter (value * 10 + d) s).trans hle
    simp only [readAfter, hd, hnext, if_true]
    exact ih hothers hle

/-- A count is read as a number of 32 bits. -/
theorem IsCount.unsigned_eq (h : IsCount s n) : unsigned max32 s = .ok n := by
  obtain ⟨c, rest, rfl⟩ := List.exists_cons_of_ne_nil h.ne_nil
  have hplus : c ≠ '+' := by
    rintro rfl
    exact absurd (h.isDigit _ List.mem_cons_self) (by decide)
  obtain ⟨-, hvalue⟩ := isDigits_and_value_eq_iff.mpr h.toDenotes
  have hle : value (c :: rest) ≤ max32 := by
    have hlt := h.lt
    unfold max32
    omega
  have hdigits (d : Char) (hd : d ∈ c :: rest) : (digit? d).isSome = true :=
    isSome_digit?_iff.mpr (h.isDigit d hd)
  unfold unsigned
  split
  · next heq => cases heq
  · next heq => exact absurd (List.cons.inj heq).1 hplus
  · next heq => exact absurd (List.cons.inj heq).1 hplus
  · exact (readAfter_eq_ok hdigits hle).trans (congrArg _ hvalue)

/-- A numeral is in lower case. -/
theorem Denotes.lower_eq (h : Denotes s n) : Text.lower s = s := by
  have hsame : List.Forall₂ (Text.sameLetter · · = true) s s :=
    List.forall₂_same.mpr fun c _ => by simp [Text.sameLetter]
  have hlower (c : Char) (hc : c ∈ s) : Text.asciiLower c = c ∧ c.toNat < 128 := by
    have hmost : c.toNat ≤ 57 := (Char.isDigit_iff_toNat.mp (h.isDigit c hc)).2
    refine ⟨if_neg fun hupper => ?_, by omega⟩
    have hleast : 65 ≤ c.toNat := hupper.1
    omega
  exact Text.lower_eq_of_sameLetter hsame hlower

end Numeral

/-! ## Arguments -/

namespace Request

open Text (Spaced IsGap quote)

variable {text line : List Char} {request : String → Request} {words : List (List Char)}

/-- The line asks for the request of a text: it holds the text in quotes after `run`, with or
without `loop` and a count, or as it is after `exec`. -/
inductive Asks (text : List Char) : List Char → (String → Request) → Prop
  | run {keyword gap : List Char} (hkeyword : IsKeyword "run" keyword) (hgap : IsGap gap) :
      Asks text (keyword ++ gap ++ quote text) (.run · none)
  | runLoop {keyword gap loop gap' numeral gap'' : List Char} {count : Nat}
      (hkeyword : IsKeyword "run" keyword) (hgap : IsGap gap) (hloop : IsKeyword "loop" loop)
      (hgap' : IsGap gap') (hnumeral : Numeral.IsCount numeral count) (hgap'' : IsGap gap'') :
      Asks text (keyword ++ gap ++ (loop ++ gap' ++ (numeral ++ gap'' ++ quote text)))
        (.run · (some count))
  | exec {keyword gap : List Char} (hkeyword : IsKeyword "exec" keyword) (hgap : IsGap gap) :
      Asks text (keyword ++ gap ++ text) .exec

/-- A name is what comes after `run`, unless `loop` and a count come between. -/
theorem ofRun_of_ne_loop {first : List Char} (hfirst : Text.lower first ≠ "loop".toList) :
    ofRun (first :: words) = .run (nameOf (first :: words)) none := by
  unfold ofRun
  split
  · next heq => cases heq
  · next heq =>
    cases heq
    rw [if_neg hfirst]
  · rfl

theorem ofRun_of_loop {loop numeral : List Char} {count : Nat}
    (hloop : Text.lower loop = "loop".toList) (hcount : loops? numeral = some count)
    (hne : words ≠ []) : ofRun (loop :: numeral :: words) = .run (nameOf words) (some count) := by
  obtain ⟨name, others, rfl⟩ := List.exists_cons_of_ne_nil hne
  simp only [ofRun, hloop, hcount, if_true]

/-- A count is read in a request. -/
theorem loops?_of_isCount {numeral : List Char} {count : Nat} (h : Numeral.IsCount numeral count) :
    loops? numeral = some count := by
  rw [loops?, h.lower_eq, h.unsigned_eq]
  rfl

/-- A word with a quote in front is no keyword. -/
theorem lower_quoted_ne (word : List Char) : Text.lower ('"' :: word) ≠ "loop".toList := by
  rw [Text.lower, Text.lowerAfter_cons_of_ascii (by decide)]
  intro heq
  exact absurd (List.cons.inj heq).1 (by decide)

theorem ofLine_run {keyword : List Char} (hkeyword : IsKeyword "run" keyword)
    (hwords : Text.words line = keyword :: words) : ofLine line = ofRun words := by
  simp only [ofLine, hwords, hkeyword.lower_eq (by decide), String.ofList_toList]

/-- What is asked for arrives with a space for each gap. -/
theorem Asks.ofLine_eq (h : Asks text line request) (htext : Spaced words text) :
    ofLine line = request (String.ofList (joined words)) := by
  obtain ⟨first, others, hquoted, hjoined⟩ := htext.exists_quote
  have hname : nameOf (('"' :: first) :: others) = String.ofList (joined words) := by
    rw [nameOf, hjoined, Text.unquote_quote]
  cases h with
  | run hkeyword hgap =>
    have hspaced := Spaced.cons (hkeyword.isWord (by decide)) hgap hquoted
    rw [ofLine_run hkeyword hspaced.words_eq, ofRun_of_ne_loop (lower_quoted_ne first), hname]
  | runLoop hkeyword hgap hloop hgap' hnumeral hgap'' =>
    have hspaced := Spaced.cons (hkeyword.isWord (by decide)) hgap <|
      .cons (hloop.isWord (by decide)) hgap' <| .cons hnumeral.isWord hgap'' hquoted
    rw [ofLine_run hkeyword hspaced.words_eq, ofRun_of_loop (hloop.lower_eq (by decide))
      (loops?_of_isCount hnumeral) (List.cons_ne_nil _ _), hname]
  | exec hkeyword hgap =>
    have hspaced := Spaced.cons (hkeyword.isWord (by decide)) hgap htext
    have hsome : words.isEmpty = false := by simpa using htext.ne_nil
    simp only [ofLine, hspaced.words_eq, hkeyword.lower_eq (by decide), String.ofList_toList, hsome,
      Bool.false_eq_true, if_false]

/-- A request to run a macro names it with the last words that it is given. -/
theorem exists_words_of_ofRun (arguments : List (List Char)) :
    ofRun arguments = .unknown ∨
      ∃ words loops, words <:+ arguments ∧ ofRun arguments = .run (nameOf words) loops := by
  unfold ofRun
  split
  · exact .inl rfl
  · next first count name others =>
    right
    split
    · next loops _ =>
      exact ⟨name :: others, some loops, ⟨[first, count], rfl⟩, rfl⟩
    · exact ⟨_, none, List.suffix_rfl, rfl⟩
  · exact .inr ⟨_, none, List.suffix_rfl, rfl⟩

/-- The request holds the text, as the name of a macro or as a macro line. -/
inductive Holds : Request → String → Prop
  | run {name : String} {loops : Option Nat} : Holds (.run name loops) name
  | exec {line : String} : Holds (.exec line) line

/-- The text that a request holds is made of the last words of the line. -/
theorem exists_words_of_holds {held : String} (h : Holds (ofLine line) held) :
    ∃ words, words <:+ Text.words line ∧
      (held = nameOf words ∨ held = String.ofList (joined words)) := by
  unfold ofLine at h
  split at h
  · cases h
  next keyword words hwords =>
  rw [hwords]
  dsimp only at h
  split at h
  case h_1 =>
    obtain hunknown | ⟨named, loops, hnamed, hrun⟩ := exists_words_of_ofRun words
    · rw [hunknown] at h
      cases h
    · rw [hrun] at h
      cases h
      exact ⟨named, hnamed.trans (List.suffix_cons _ _), .inl rfl⟩
  case h_16 =>
    split at h
    · cases h
    · cases h
      exact ⟨words, List.suffix_cons _ _, .inr rfl⟩
  case h_19 => cases h
  -- No other keyword comes before a name or a macro line.
  all_goals
    simp only [orAtLoop, alone, ofHelp] at h
    repeat' split at h
    all_goals cases h

/-- The text that a request holds is evenly spaced, whatever the line. -/
theorem evenlySpaced_of_holds {held : String} (h : Holds (ofLine line) held) :
    Text.EvenlySpaced held.toList := by
  obtain ⟨words, hwords, hheld⟩ := exists_words_of_holds h
  have heven : Text.EvenlySpaced (joined words) :=
    (Text.evenlySpaced_joined fun word hword =>
      Text.isWord_of_mem_wordsAfter (by simp) (hwords.subset hword)).1
  obtain rfl | rfl := hheld
  · rw [nameOf, String.toList_ofList]
    exact heven.of_isInfix (Text.unquote_isInfix _)
  · rwa [String.toList_ofList]

/-- The argument arrives as `handed` from each line that asks for a request of the text, and the
session answers that request. -/
def HandsOver (text handed : List Char) : Prop :=
  ∀ line request, Asks text line request →
    ofLine line = request (String.ofList handed) ∧
      ∀ session : Session, session.take (.line line) =
        ((session.respond (request (String.ofList handed))).1,
          (session.respond (request (String.ofList handed))).2, false)

/-- A line that asks for a request starts with a keyword. -/
theorem Asks.trim_ne_nil (h : Asks text line request) : Text.trim line ≠ [] := by
  have hkeyword {keyword : String} {word : List Char} (hword : IsKeyword keyword word)
      (hleading : keyword ∈ leading) (rest : List Char) : Text.trim (word ++ rest) ≠ [] := by
    obtain ⟨c, others, rfl⟩ := List.exists_cons_of_ne_nil (hword.isWord hleading).ne_nil
    have hblank := (hword.isWord hleading).not_blank c List.mem_cons_self
    exact List.ne_nil_of_mem (Text.mem_trim_of_mem List.mem_cons_self hblank)
  cases h with
  | run hrun | runLoop hrun =>
    rw [List.append_assoc]
    exact hkeyword hrun (by decide) _
  | exec hexec =>
    rw [List.append_assoc]
    exact hkeyword hexec (by decide) _

/-- Every argument is handed over with a space for each gap. -/
theorem handsOver_joined (htext : Spaced words text) : HandsOver text (joined words) := by
  intro line request h
  have hrequest := h.ofLine_eq htext
  refine ⟨hrequest, fun session => ?_⟩
  have hsome : (Text.trim line).isEmpty = false := by simpa using h.trim_ne_nil
  have hstays : request (String.ofList (joined words)) ≠ .quit := by
    cases h <;> exact Request.noConfusion
  simp only [Session.take, hsome, hrequest, hstays, Bool.false_eq_true, if_false, decide_false]

/-- A text with something in it and no blank at its ends is handed over by every line that asks for
a request of it, with a single space for each gap between its words. It is handed over as it is
exactly if it is evenly spaced, and otherwise no line at all is a request that holds it. -/
theorem handsOver_iff_evenlySpaced (hne : text ≠ []) (htrim : Text.trim text = text) :
    (∃ words, Spaced words text ∧ HandsOver text (joined words)) ∧
      (HandsOver text text ↔ Text.EvenlySpaced text) ∧
      ∀ line, Holds (ofLine line) (String.ofList text) → Text.EvenlySpaced text := by
  have htext := (Text.words_eq_iff hne htrim).mp rfl
  have hhands := handsOver_joined htext
  have hheld (line : List Char) (hholds : Holds (ofLine line) (String.ofList text)) :
      Text.EvenlySpaced text := by
    have heven := evenlySpaced_of_holds hholds
    rwa [String.toList_ofList] at heven
  refine ⟨⟨_, htext, hhands⟩, ⟨fun h => ?_, fun heven => ?_⟩, hheld⟩
  · refine hheld ("exec".toList ++ [' '] ++ text) ?_
    rw [(h _ _ (.exec (isKeyword_self "exec") Text.isGap_space)).1]
    exact .exec
  · rwa [htext.joined_eq_iff.mpr heven] at hhands

/-- A name that looks like a loop with a count is handed over as it is. -/
theorem handsOver_iff_evenlySpaced_of_words :
    "loop 5 \"a".toList ≠ [] ∧ Text.trim "loop 5 \"a".toList = "loop 5 \"a".toList ∧
      HandsOver "loop 5 \"a".toList "loop 5 \"a".toList := by
  have hne : "loop 5 \"a".toList ≠ [] := by decide
  have htrim : Text.trim "loop 5 \"a".toList = "loop 5 \"a".toList := by decide +kernel
  have htext := (Text.words_eq_iff hne htrim).mp rfl
  have heven : Text.EvenlySpaced "loop 5 \"a".toList :=
    htext.joined_eq_iff.mp (by decide +kernel)
  exact ⟨hne, htrim, (handsOver_iff_evenlySpaced hne htrim).2.1.mpr heven⟩

/-- Two spaces in a name come out as one, and the name stands for another macro. -/
theorem not_handsOver_of_two_spaces :
    ofLine "run \"a  b\"".toList = .run "a b" none ∧ ¬HandsOver "a  b".toList "a  b".toList := by
  have hread : ofLine "run \"a  b\"".toList = .run "a b" none := by decide +kernel
  refine ⟨hread, fun h => ?_⟩
  have hline := (h _ _ (.run (isKeyword_self "run") Text.isGap_space)).1
  exact absurd (hread.symm.trans hline) (by decide +kernel)

end Request

end GameMacros
