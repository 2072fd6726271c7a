import GameMacros.Prompt.Completion
import GameMacros.Proofs.Counts

/-!
# Completing a line

What is completed is either the name of a macro, behind `run` and maybe a count, or a term of the
prompt. Where the completed part starts is found in a copy of the line in lower case, by the number
of bytes from there to the end. The copy has the same characters in the same bytes up to the case of
ASCII letters, so every cut that is made in it, and in the line itself, is between two characters.
-/

namespace GameMacros

namespace Text

variable {s front back : List Char}

/-- The text that is left is what follows the blanks in front. -/
theorem trimStart_eq_iff {rest : List Char} : trimStart s = rest ↔
    ∃ gap, (∀ c ∈ gap, isBlank c = true) ∧ (∀ c ∈ rest.head?, isBlank c = false) ∧
      s = gap ++ rest := by
  constructor
  · rintro rfl
    refine ⟨s.takeWhile isBlank, List.all_eq_true.mp List.all_takeWhile, fun c hc => ?_,
      List.takeWhile_append_dropWhile.symm⟩
    have hnot := List.head?_dropWhile_not isBlank s
    rw [show s.dropWhile isBlank = trimStart s from rfl, hc] at hnot
    exact hnot
  · rintro ⟨gap, hgap, hrest, rfl⟩
    rw [trimStart, List.dropWhile_append_of_pos hgap]
    exact trimStart_eq_self hrest

/-- Blanks are the same in lower case. -/
theorem trimStart_map_asciiLower (s : List Char) :
    trimStart (s.map asciiLower) = (trimStart s).map asciiLower := by
  have hblank : isBlank ∘ asciiLower = isBlank := funext isBlank_asciiLower
  rw [trimStart, List.dropWhile_map, hblank]
  rfl

/-- What follows a head in lower case follows it in either case. -/
theorem dropHead?_map_asciiLower {head : List Char} (hlower : head.map asciiLower = head)
    (s : List Char) :
    dropHead? head (s.map asciiLower) = (dropHeadBy sameLetter head s).map (·.map asciiLower) := by
  induction head generalizing s with
  | nil => rfl
  | cons first head ih =>
    obtain ⟨hfirst, hothers⟩ := List.cons.inj hlower
    cases s with
    | nil => rfl
    | cons c s =>
      have hrest := ih hothers s
      unfold dropHead? at hrest ⊢
      rw [List.map_cons, dropHeadBy, dropHeadBy, sameLetter, hfirst, hrest]
      split <;> rfl

end Text

/-- Only digits are digits in lower case. -/
theorem Numeral.digit?_asciiLower (c : Char) : digit? (Text.asciiLower c) = digit? c := by
  by_cases hupper : 'A' ≤ c ∧ c ≤ 'Z'
  · have hleast : 65 ≤ c.toNat := hupper.1
    have hcode := (Text.toNat_asciiLower hupper).1
    have hnot {d : Char} (hd : 57 < d.toNat) : digit? d = none := if_neg fun hdigit =>
      absurd (show d.toNat ≤ 57 from hdigit.2) (by omega)
    rw [hnot (by omega), hnot (by omega)]
  · rw [Text.asciiLower, if_neg hupper]

namespace Completion

variable {names : List String} {s front back p typed : List Char} {position : Nat}

/-! ## Places in bytes -/

theorem byteSize_append (s t : List Char) : byteSize (s ++ t) = byteSize s + byteSize t := by
  induction s with
  | nil => exact (Nat.zero_add _).symm
  | cons c s ih => rw [List.cons_append, byteSize, byteSize, ih, Nat.add_assoc]

/-- The size of a text is that of its UTF-8. -/
theorem byteSize_eq (s : List Char) : byteSize s = (String.ofList s).utf8ByteSize := by
  induction s with
  | nil => rfl
  | cons c s ih =>
    rw [byteSize, ih, ← List.singleton_append, String.ofList_append, String.utf8ByteSize_append]
    congr 1
    simp

/-- A place is at the start of a character, or at the end, if the bytes before it are those of some
of the characters. -/
theorem isValid_iff {line : String} : String.Pos.Raw.IsValid line ⟨position⟩ ↔
    ∃ front back, line.toList = front ++ back ∧ byteSize front = position := by
  rw [String.Pos.Raw.isValid_iff_exists_append]
  constructor
  · rintro ⟨first, second, rfl, hposition⟩
    refine ⟨first.toList, second.toList, String.toList_append, ?_⟩
    rw [byteSize_eq, String.ofList_toList]
    exact (congrArg String.Pos.Raw.byteIdx hposition).symm
  · rintro ⟨front, back, hline, rfl⟩
    refine ⟨String.ofList front, String.ofList back, ?_, ?_⟩
    · rw [← String.ofList_append, ← hline, String.ofList_toList]
    · rw [String.Pos.Raw.ext_iff, String.byteIdx_rawEndPos, byteSize_eq]

/-- The characters before a place. -/
theorem upTo_append (front back : List Char) : upTo (byteSize front) (front ++ back) = front := by
  induction front with
  | nil =>
    cases back with
    | nil => rfl
    | cons c back =>
      have hpos := c.utf8Size_pos
      rw [List.nil_append, upTo, byteSize, if_neg (by omega)]
  | cons c front ih =>
    rw [List.cons_append, byteSize, upTo, if_pos (Nat.le_add_right _ _), Nat.add_sub_cancel_left,
      ih]

/-- The text before and after a place, if it is not inside a character or beyond the end. -/
def cutAt? (bytes : Nat) : List Char → Option (List Char × List Char)
  | [] => if bytes = 0 then some ([], []) else none
  | c :: rest =>
    if bytes = 0 then some ([], c :: rest)
    else if c.utf8Size ≤ bytes then
      (cutAt? (bytes - c.utf8Size) rest).map fun parts => (c :: parts.1, parts.2)
    else none

/-- A text can be cut behind some of its characters. -/
theorem cutAt?_append (front back : List Char) :
    cutAt? (byteSize front) (front ++ back) = some (front, back) := by
  induction front with
  | nil => cases back <;> rfl
  | cons c front ih =>
    have hpos := c.utf8Size_pos
    rw [List.cons_append, byteSize, cutAt?, if_neg (by omega), if_pos (Nat.le_add_right _ _),
      Nat.add_sub_cancel_left, ih]
    rfl

/-! ## The copy in lower case -/

/-- The case of ASCII letters does not change the size of a text. -/
theorem byteSize_map_asciiLower (s : List Char) :
    byteSize (s.map Text.asciiLower) = byteSize s := by
  have hsize (c : Char) : (Text.asciiLower c).utf8Size = c.utf8Size := by
    by_cases hupper : 'A' ≤ c ∧ c ≤ 'Z'
    · have hascii {d : Char} (hd : d.toNat < 128) : d.utf8Size = 1 :=
        if_pos (Nat.le_of_lt_succ hd)
      have hmost : c.toNat ≤ 90 := hupper.2
      have hcode := (Text.toNat_asciiLower hupper).1
      rw [hascii (by omega), hascii (by omega)]
    · rw [Text.asciiLower, if_neg hupper]
  induction s with
  | nil => rfl
  | cons c s ih => rw [List.map_cons, byteSize, byteSize, hsize, ih]

/-- Each digit takes one byte. -/
theorem byteSize_of_digits (h : ∀ c ∈ s, (Numeral.digit? c).isSome = true) :
    byteSize s = s.length := by
  induction s with
  | nil => rfl
  | cons c s ih =>
    obtain ⟨hc, hothers⟩ := List.forall_mem_cons.mp h
    have hmost : c.toNat ≤ 57 := (Char.isDigit_iff_toNat.mp (Numeral.isSome_digit?_iff.mp hc)).2
    have hone : c.utf8Size = 1 := if_pos (show c.toNat ≤ 127 by omega)
    rw [byteSize, hone, ih hothers, List.length_cons, Nat.add_comm]

/-- A copy is cut where the text is. -/
theorem cutAt?_map_asciiLower (front back : List Char) :
    cutAt? (byteSize front) ((front ++ back).map Text.asciiLower) =
      some (front.map Text.asciiLower, back.map Text.asciiLower) := by
  rw [List.map_append, ← byteSize_map_asciiLower front, cutAt?_append]

/-! ## What was typed -/

/-- The text begins with the keyword and a space, with letters in either case. -/
def Begins (keyword : String) (s : List Char) : Prop :=
  ∃ word rest, s = word ++ rest ∧ word.map Text.asciiLower = keyword.toList ++ [' ']

/-- The text is the keyword, a space and maybe more blanks, and then the rest. -/
inductive Follows (keyword : String) : List Char → List Char → Prop
  | intro {word gap rest : List Char} (hword : word.map Text.asciiLower = keyword.toList ++ [' '])
      (hgap : ∀ c ∈ gap, Text.isBlank c = true) (hrest : ∀ c ∈ rest.head?, Text.isBlank c = false) :
      Follows keyword (word ++ gap ++ rest) rest

/-- The text is the keyword for a loop, a count, a space and maybe more blanks, and then the
rest. -/
inductive FollowsCount : List Char → List Char → Prop
  | intro {s digits gap rest : List Char} (hdigits : digits ≠ [])
      (hdigit : ∀ c ∈ digits, c.isDigit = true) (hgap : ∀ c ∈ gap, Text.isBlank c = true)
      (hrest : ∀ c ∈ rest.head?, Text.isBlank c = false)
      (hfollows : Follows "loop" s (digits ++ ' ' :: gap ++ rest)) : FollowsCount s rest

/-- What was typed of a name is what follows the keyword, or what follows the count behind it. -/
inductive TypedName (p : List Char) : List Char → Prop
  | counted {rest typed : List Char} (hrun : Follows "run" p rest)
      (hcount : FollowsCount rest typed) : TypedName p typed
  | plain {typed : List Char} (hrun : Follows "run" p typed)
      (hnone : ∀ other, ¬FollowsCount typed other) : TypedName p typed

/-- What is read behind a keyword is what follows it. -/
theorem after?_eq_some_iff {keyword : String} {rest : List Char}
    (hkeyword : keyword.toList.map Text.asciiLower = keyword.toList) :
    after? keyword s = some rest ↔ Follows keyword s rest := by
  have hhead : (keyword.toList ++ [' ']).map Text.asciiLower = keyword.toList ++ [' '] := by
    rw [List.map_append, hkeyword]
    rfl
  rw [after?, Option.map_eq_some_iff]
  constructor
  · rintro ⟨behind, hdrop, hrest⟩
    obtain ⟨word, rfl, hword⟩ := Text.dropHeadBy_eq_some_iff.mp hdrop
    obtain ⟨gap, hgap, hstart, rfl⟩ := Text.trimStart_eq_iff.mp hrest
    rw [← List.append_assoc]
    exact .intro (hword.trans hhead) hgap hstart
  · rintro (@⟨word, gap, _, hword, hgap, hstart⟩)
    refine ⟨gap ++ rest, Text.dropHeadBy_eq_some_iff.mpr ⟨word, ?_, hword.trans hhead.symm⟩, ?_⟩
    · rw [List.append_assoc]
    · exact Text.trimStart_eq_iff.mpr ⟨gap, hgap, hstart, rfl⟩

/-- Nothing is read behind a keyword that the text does not begin with. -/
theorem not_begins_of_after? {keyword : String}
    (hkeyword : keyword.toList.map Text.asciiLower = keyword.toList) (h : after? keyword s = none) :
    ¬Begins keyword s := by
  rintro ⟨word, behind, rfl, hword⟩
  obtain ⟨gap, hgap, hstart, hbehind⟩ := Text.trimStart_eq_iff.mp (rfl : Text.trimStart behind = _)
  have hfollows := @Follows.intro keyword word gap _ hword hgap hstart
  rw [List.append_assoc, ← hbehind, ← after?_eq_some_iff hkeyword, h] at hfollows
  cases hfollows

/-- What is read behind a count follows digits and a space. -/
theorem afterCount?_eq_some_iff {rest : List Char} : afterCount? s = some rest ↔
    ∃ digits gap, digits ≠ [] ∧ (∀ c ∈ digits, c.isDigit = true) ∧
      (∀ c ∈ gap, Text.isBlank c = true) ∧ (∀ c ∈ rest.head?, Text.isBlank c = false) ∧
        s = digits ++ ' ' :: gap ++ rest := by
  constructor
  · intro h
    unfold afterCount? at h
    dsimp only at h
    split at h
    · next c digits behind htake hdrop =>
      cases h
      obtain ⟨gap, hgap, hstart, hbehind⟩ :=
        Text.trimStart_eq_iff.mp (rfl : Text.trimStart behind = _)
      have hdigit : ∀ d ∈ c :: digits, d.isDigit = true := fun d hd =>
        Numeral.isSome_digit?_iff.mp (List.all_eq_true.mp List.all_takeWhile d (htake ▸ hd))
      have hs := @List.takeWhile_append_dropWhile _ (fun c => (Numeral.digit? c).isSome) s
      rw [htake, hdrop, hbehind] at hs
      exact ⟨c :: digits, gap, List.cons_ne_nil _ _, hdigit, hgap, hstart, by simpa using hs.symm⟩
    · cases h
  · rintro ⟨digits, gap, hne, hdigit, hgap, hstart, rfl⟩
    obtain ⟨c, others, rfl⟩ := List.exists_cons_of_ne_nil hne
    have hsome : ∀ d ∈ c :: others, (Numeral.digit? d).isSome = true := fun d hd =>
      Numeral.isSome_digit?_iff.mpr (hdigit d hd)
    have hspace : (Numeral.digit? ' ').isSome = false := by decide
    have htrim : Text.trimStart (gap ++ rest) = rest :=
      Text.trimStart_eq_iff.mpr ⟨gap, hgap, hstart, rfl⟩
    unfold afterCount?
    dsimp only
    rw [List.append_assoc, List.takeWhile_append_of_pos hsome, List.dropWhile_append_of_pos hsome]
    simp [hspace, htrim]

/-- A count is read exactly where there is one. -/
theorem bind_afterCount?_eq_some_iff {rest : List Char} :
    (after? "loop" s).bind afterCount? = some rest ↔ FollowsCount s rest := by
  rw [Option.bind_eq_some_iff]
  constructor
  · rintro ⟨behind, hloop, hcount⟩
    obtain ⟨digits, gap, hne, hdigit, hgap, hstart, rfl⟩ := afterCount?_eq_some_iff.mp hcount
    exact .intro hne hdigit hgap hstart ((after?_eq_some_iff (by decide)).mp hloop)
  · rintro ⟨hne, hdigit, hgap, hstart, hloop⟩
    exact ⟨_, (after?_eq_some_iff (by decide)).mpr hloop,
      afterCount?_eq_some_iff.mpr ⟨_, _, hne, hdigit, hgap, hstart, rfl⟩⟩

/-- What is completed as a name is what was typed of one. -/
theorem typedName?_eq_some_iff : typedName? p = some typed ↔ TypedName p typed := by
  rw [typedName?, Option.map_eq_some_iff]
  constructor
  · rintro ⟨rest, hrun, htyped⟩
    have hfollows := (after?_eq_some_iff (by decide)).mp hrun
    cases hcount : (after? "loop" rest).bind afterCount? with
    | some counted =>
      rw [hcount, Option.getD_some] at htyped
      exact .counted hfollows (htyped ▸ bind_afterCount?_eq_some_iff.mp hcount)
    | none =>
      rw [hcount, Option.getD_none] at htyped
      subst htyped
      refine .plain hfollows fun other hother => ?_
      rw [bind_afterCount?_eq_some_iff.mpr hother] at hcount
      cases hcount
  · rintro (⟨hrun, hcount⟩ | ⟨hrun, hnone⟩)
    · exact ⟨_, (after?_eq_some_iff (by decide)).mpr hrun,
        by rw [bind_afterCount?_eq_some_iff.mpr hcount, Option.getD_some]⟩
    · refine ⟨_, (after?_eq_some_iff (by decide)).mpr hrun, ?_⟩
      have hcount : (after? "loop" typed).bind afterCount? = none :=
        Option.eq_none_iff_forall_not_mem.mpr fun other hother =>
          hnone other (bind_afterCount?_eq_some_iff.mp hother)
      rw [hcount, Option.getD_none]

/-- What was typed of a name stands at the end. -/
theorem TypedName.exists_eq_append (h : TypedName p typed) : ∃ front, p = front ++ typed := by
  cases h with
  | counted hrun hcount =>
    cases hcount with
    | intro _ _ _ _ hloop =>
      cases hloop
      cases hrun
      exact ⟨_, by simp only [← List.append_assoc]; rfl⟩
  | plain hrun _ =>
    cases hrun
    exact ⟨_, rfl⟩

/-! ## Slices -/

/-- Where what was typed of a name starts in the copy of a text in lower case, given what follows
the keyword in the copy. -/
def nameOffset? (lowered afterRun : List Char) : Option Nat := do
  let offset := byteSize lowered - byteSize (Text.trimStart afterRun)
  let (_, rest) ← cutAt? offset lowered
  match Text.dropHead? "loop ".toList rest with
  | none => return offset
  | some afterLoop =>
    let trimmed := Text.trimStart afterLoop
    let digits := (trimmed.takeWhile fun c => (Numeral.digit? c).isSome).length
    if digits = 0 then return offset
    else
      let (_, behind) ← cutAt? digits trimmed
      if behind.head? = some ' ' then
        return byteSize lowered - byteSize (Text.trimStart behind)
      else return offset

/-- The completion of a line by cuts at places that are counted in the copy in lower case. There is
none if a place is inside a character. -/
def bySlices? (names : List String) (line : List Char) (position : Nat) : Option Completion := do
  let (slice, _) ← cutAt? position line
  let prefixed := Text.trimStart slice
  let start := position - byteSize prefixed
  if prefixed.isEmpty then return ⟨start, []⟩
  else
    let lowered := prefixed.map Text.asciiLower
    match Text.dropHead? "run ".toList lowered with
    | some afterRun =>
      let offset ← nameOffset? lowered afterRun
      let (_, typed) ← cutAt? offset lowered
      return ⟨start + offset,
        names.filter fun name => typed.isPrefixOf (name.toList.map Text.asciiLower)⟩
    | none =>
      return ⟨start, terms.filter fun term => (Text.lower prefixed).isPrefixOf term.toList⟩

/-- A count is found in the copy where it is in the text. -/
theorem afterCount?_map_asciiLower (s : List Char) (offset : Nat → Nat) (without : Nat) :
    (let trimmed := s.map Text.asciiLower
      let digits := (trimmed.takeWhile fun c => (Numeral.digit? c).isSome).length
      if digits = 0 then some without
      else (cutAt? digits trimmed).bind fun parts =>
        if parts.2.head? = some ' ' then some (offset (byteSize (Text.trimStart parts.2)))
        else some without) =
      some (((afterCount? s).map fun rest => offset (byteSize rest)).getD without) := by
  have hdigit : (fun c => (Numeral.digit? c).isSome) ∘ Text.asciiLower =
      fun c => (Numeral.digit? c).isSome := funext fun c => by
    rw [Function.comp_apply, Numeral.digit?_asciiLower]
  have hdigits := byteSize_of_digits (s := s.takeWhile fun c => (Numeral.digit? c).isSome)
    fun c hc => List.all_eq_true.mp List.all_takeWhile c hc
  have hcut := cutAt?_map_asciiLower (s.takeWhile fun c => (Numeral.digit? c).isSome)
    (s.dropWhile fun c => (Numeral.digit? c).isSome)
  rw [List.takeWhile_append_dropWhile, hdigits] at hcut
  dsimp only
  rw [List.takeWhile_map, hdigit, List.length_map, hcut, Option.bind_some]
  unfold afterCount?
  dsimp only
  generalize s.takeWhile (fun c => (Numeral.digit? c).isSome) = digits
  generalize s.dropWhile (fun c => (Numeral.digit? c).isSome) = behind
  cases digits with
  | nil => rfl
  | cons digit digits =>
    rw [if_neg (by simp)]
    cases behind with
    | nil => rfl
    | cons c rest =>
      by_cases hspace : c = ' '
      · subst hspace
        have htrim : Text.trimStart (' ' :: rest) = Text.trimStart rest := rfl
        have hsame : (List.map Text.asciiLower (' ' :: rest)).head? = some ' ' := rfl
        rw [if_pos hsame, Text.trimStart_map_asciiLower, byteSize_map_asciiLower, htrim]
        rfl
      · have hlower : Text.asciiLower c ≠ ' ' := mt (Text.eq_of_asciiLower (by decide)) hspace
        rw [if_neg (by simpa using hlower)]
        split
        · next heq => exact absurd (List.cons.inj heq).1 hspace
        · rfl

/-- The place in the copy is where what was typed starts in the text. -/
theorem nameOffset?_eq {word behind : List Char} (hp : p = word ++ behind)
    (hword : word.map Text.asciiLower = "run".toList ++ [' '])
    (htyped : typedName? p = some typed) :
    nameOffset? (p.map Text.asciiLower) (behind.map Text.asciiLower) =
      some (byteSize p - byteSize typed) := by
  have hrun : after? "run" p = some (Text.trimStart behind) :=
    Option.map_eq_some_iff.mpr ⟨behind, Text.dropHeadBy_eq_some_iff.mpr ⟨word, hp, hword⟩, rfl⟩
  rw [typedName?, hrun, Option.map_some, Option.some_inj] at htyped
  obtain ⟨gap, -, -, hbehind⟩ := Text.trimStart_eq_iff.mp (rfl : Text.trimStart behind = _)
  have hlast : "loop ".toList = "loop".toList ++ [' '] := by decide
  unfold nameOffset?
  simp only [byteSize_map_asciiLower, Text.trimStart_map_asciiLower]
  generalize Text.trimStart behind = rest at *
  have hcut := cutAt?_map_asciiLower (word ++ gap) rest
  have hoffset : byteSize p - byteSize rest = byteSize (word ++ gap) := by
    rw [hp, hbehind, ← List.append_assoc, byteSize_append (word ++ gap), Nat.add_sub_cancel_right]
  rw [List.append_assoc, ← hbehind, ← hp, ← hoffset] at hcut
  simp only [hcut, Option.bind_eq_bind, Option.bind_some, Option.pure_def]
  rw [hlast, Text.dropHead?_map_asciiLower (by decide)]
  cases hloop : Text.dropHeadBy Text.sameLetter ("loop".toList ++ [' ']) rest with
  | none =>
    rw [after?, hloop] at htyped
    rw [← htyped]
    rfl
  | some afterLoop =>
    have hafter : after? "loop" rest = some (Text.trimStart afterLoop) := by rw [after?, hloop]; rfl
    rw [hafter, Option.bind_some] at htyped
    simp only [Option.map_some, Text.trimStart_map_asciiLower]
    have hread := afterCount?_map_asciiLower (Text.trimStart afterLoop) (byteSize p - ·)
      (byteSize p - byteSize rest)
    refine hread.trans ?_
    rw [← htyped]
    cases afterCount? (Text.trimStart afterLoop) <;> rfl

/-- Every cut is between two characters. -/
theorem bySlices?_eq (names : List String) (front back : List Char) :
    bySlices? names (front ++ back) (byteSize front) =
      some (ofLine names (front ++ back) (byteSize front)) := by
  obtain ⟨gap, -, -, hfront⟩ := Text.trimStart_eq_iff.mp (rfl : Text.trimStart front = _)
  unfold bySlices? ofLine
  simp only [cutAt?_append, upTo_append, Option.bind_eq_bind, Option.bind_some, Option.pure_def]
  generalize Text.trimStart front = p at *
  cases hnone : p.isEmpty with
  | true =>
    rw [List.isEmpty_iff.mp hnone]
    rfl
  | false =>
    have hhead : "run ".toList = "run".toList ++ [' '] := by decide
    rw [hhead, Text.dropHead?_map_asciiLower (by decide), if_neg Bool.false_ne_true,
      if_neg Bool.false_ne_true]
    cases hrun : Text.dropHeadBy Text.sameLetter ("run".toList ++ [' ']) p with
    | none =>
      have htyped : typedName? p = none := by rw [typedName?, after?, hrun]; rfl
      rw [htyped]
      rfl
    | some behind =>
      obtain ⟨word, hp, hword⟩ := Text.dropHeadBy_eq_some_iff.mp hrun
      obtain ⟨typed, htyped⟩ : ∃ typed, typedName? p = some typed := by
        rw [typedName?, after?, hrun]
        exact ⟨_, rfl⟩
      obtain ⟨before, rfl⟩ := (typedName?_eq_some_iff.mp htyped).exists_eq_append
      have hsize : byteSize (before ++ typed) - byteSize typed = byteSize before := by
        rw [byteSize_append, Nat.add_sub_cancel_right]
      have hstart : byteSize front - byteSize (before ++ typed) + byteSize before =
          byteSize front - byteSize typed := by
        rw [hfront, byteSize_append, byteSize_append]
        omega
      simp only [Option.map_some, nameOffset?_eq hp (hword.trans (by decide)) htyped, htyped, hsize,
        cutAt?_map_asciiLower, Option.bind_some, hstart]
      rfl

/-! ## What is offered -/

/-- A term of the prompt: something it understands, or the request for help with a verb. -/
inductive IsTerm : String → Prop
  | keyword {term : String} (hkeyword : term ∈ keywords) : IsTerm term
  | help {entry : Reference.VerbEntry} (hentry : entry ∈ Reference.verbs) :
      IsTerm ("help " ++ entry.verb.name)

/-- What is offered for the text before the place, without the blanks in front, and the part of it
that the offers stand for. -/
inductive Offers (names : List String) (p : List Char) : List Char → List String → Prop
  | nothing (hp : p = []) : Offers names p [] []
  | names {typed : List Char} (hrun : Begins "run" p) (htyped : TypedName p typed) :
      Offers names p typed (names.filter fun name =>
        decide (typed.map Text.asciiLower <+: name.toList.map Text.asciiLower))
  | terms {candidates : List String} (hp : p ≠ []) (hrun : ¬Begins "run" p)
      (hsorted : candidates.Pairwise (· ≤ ·)) (hnodup : candidates.Nodup)
      (hmem : ∀ term, term ∈ candidates ↔ IsTerm term ∧ Text.lower p <+: term.toList) :
      Offers names p p candidates

/-- The terms are those of the prompt. -/
theorem mem_terms_iff {term : String} : term ∈ terms ↔ IsTerm term := by
  rw [terms, Text.mem_sortedSet, List.mem_append, List.mem_map]
  constructor
  · rintro (hkeyword | ⟨entry, hentry, rfl⟩)
    · exact .keyword hkeyword
    · exact .help hentry
  · rintro (hkeyword | hentry)
    · exact .inl hkeyword
    · exact .inr ⟨_, hentry, rfl⟩

/-- A name can only be typed behind the keyword. -/
theorem TypedName.begins (h : TypedName p typed) : Begins "run" p := by
  have hbegins {rest : List Char} (hrun : Follows "run" p rest) : Begins "run" p := by
    obtain ⟨hword, -, -⟩ := hrun
    exact ⟨_, _, List.append_assoc _ _ _, hword⟩
  cases h with
  | counted hrun _ => exact hbegins hrun
  | plain hrun _ => exact hbegins hrun

/-- The names that match are those that go on with what was typed. -/
theorem matching_eq (names : List String) (typed : List Char) :
    matching names typed = names.filter fun name =>
      decide (typed.map Text.asciiLower <+: name.toList.map Text.asciiLower) := by
  refine List.filter_congr fun name _ => ?_
  rw [Bool.eq_iff_iff, List.isPrefixOf_iff_prefix, decide_eq_true_iff]

/-- What is offered stands for the end of the text before the place. -/
theorem exists_offers (names : List String) (front back : List Char) :
    ∃ before typed, front = before ++ typed ∧
      byteSize before = (ofLine names (front ++ back) (byteSize front)).start ∧
      Offers names (Text.trimStart front) typed
        (ofLine names (front ++ back) (byteSize front)).candidates := by
  obtain ⟨gap, -, -, hfront⟩ := Text.trimStart_eq_iff.mp (rfl : Text.trimStart front = _)
  have hstart {before typed : List Char} (h : front = before ++ typed) :
      byteSize before = byteSize front - byteSize typed := by
    rw [h, byteSize_append, Nat.add_sub_cancel_right]
  unfold ofLine
  rw [upTo_append]
  generalize Text.trimStart front = p at hfront ⊢
  by_cases hnone : p = []
  · subst hnone
    exact ⟨front, [], (List.append_nil _).symm, rfl, .nothing rfl⟩
  · have hsome : p.isEmpty = false := by simpa using hnone
    simp only [hsome, Bool.false_eq_true, if_false]
    cases htyped : typedName? p with
    | some typed =>
      have hname := typedName?_eq_some_iff.mp htyped
      obtain ⟨between, hbetween⟩ := hname.exists_eq_append
      have hsplit : front = (gap ++ between) ++ typed := by
        rw [List.append_assoc, ← hbetween, ← hfront]
      refine ⟨gap ++ between, typed, hsplit, hstart hsplit, ?_⟩
      dsimp only
      rw [matching_eq]
      exact .names hname.begins hname
    | none =>
      have hrun : ¬Begins "run" p :=
        not_begins_of_after? (by decide) (Option.map_eq_none_iff.mp htyped)
      refine ⟨gap, p, hfront, hstart hfront, .terms hnone hrun ?_ ?_ fun term => ?_⟩
      · exact (Text.pairwise_sortedSet _).filter _
      · exact (Text.nodup_sortedSet _).filter _
      · rw [List.mem_filter, mem_terms_iff, List.isPrefixOf_iff_prefix]

/-- How a line is completed at a place. -/
structure Completes (names : List String) (line : String) (position : Nat) : Prop where
  /-- No slice that is taken on the way begins or ends inside a character. -/
  sliced : bySlices? names line.toList position = some (ofLine names line.toList position)
  isValid_start : String.Pos.Raw.IsValid line ⟨(ofLine names line.toList position).start⟩
  start_le : (ofLine names line.toList position).start ≤ position
  offers : ∃ before typed after, line.toList = before ++ typed ++ after ∧
    byteSize before = (ofLine names line.toList position).start ∧
    byteSize (before ++ typed) = position ∧
    Offers names (Text.trimStart (before ++ typed)) typed
      (ofLine names line.toList position).candidates

/-- A line is completed safely, and with exactly what goes on from what was typed. -/
theorem completes_of_isValid (names : List String) {line : String}
    (h : String.Pos.Raw.IsValid line ⟨position⟩) : Completes names line position := by
  obtain ⟨front, after, hline, rfl⟩ := isValid_iff.mp h
  obtain ⟨before, typed, rfl, hstart, hoffers⟩ := exists_offers names front after
  rw [← hline] at hstart hoffers
  refine ⟨?_, isValid_iff.mpr ⟨before, typed ++ after, ?_, hstart⟩, ?_,
    ⟨before, typed, after, hline, hstart, rfl, hoffers⟩⟩
  · rw [hline]
    exact Completion.bySlices?_eq names _ after
  · rw [hline, List.append_assoc]
  · rw [← hstart, byteSize_append]
    exact Nat.le_add_right _ _

/-- Wide blanks in front and between do not move the part that is completed. -/
theorem completes_of_wide_blanks :
    Completes ["Éclair", "Iron Ingot"] "\u3000RUN Loop \u300012 \u3000iRé" 23 ∧
      ofLine ["Éclair", "Iron Ingot"] "\u3000RUN Loop \u300012 \u3000iRé".toList 23 =
        ⟨21, ["Iron Ingot"]⟩ := by
  have hvalid : String.Pos.Raw.IsValid "\u3000RUN Loop \u300012 \u3000iRé" ⟨23⟩ :=
    isValid_iff.mpr ⟨"\u3000RUN Loop \u300012 \u3000iR".toList, ['é'], by decide, by decide⟩
  exact ⟨completes_of_isValid _ hvalid, by decide +kernel⟩

end Completion

end GameMacros
