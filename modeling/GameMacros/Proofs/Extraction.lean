import GameMacros.Proofs.Tokens

/-!
# The modifiers of a line with tokens

No two kinds of modifiers recognize the same token. So on a line whose brackets do not nest it does
not matter that the kinds are taken out one after the other: each is read as if it were the only
one, by its last token, and how the tokens of different kinds are mixed makes no difference.
-/

namespace GameMacros

namespace Modifiers

/-! ## What the modifiers of a line are -/

/-- A token is one of the modifier and has this body, by what stands between its brackets: the name,
whose letters may be of either case, a point and the body. -/
def Carries (modifier : ValuedModifier) (inner body : List Char) : Prop :=
  ∃ written, inner = written ++ '.' :: body ∧
    written.map Text.foldLetter = modifier.name.toList

/-- A token is the modifier without a value, by what stands between its brackets: the name, whose
letters may be of either case. -/
def Spells (flag : String) (inner : List Char) : Prop :=
  inner.map Text.foldLetter = flag.toList

/-- The modifiers without a value. -/
def flags : List String :=
  ["echo", "unsafe", "hq"]

/-- A token is a modifier. -/
def IsModifier (inner : List Char) : Prop :=
  (∃ modifier body, Carries modifier inner body) ∨ ∃ flag ∈ flags, Spells flag inner

/-- The body of the last token of the modifier, if there is one. -/
inductive LastBody (modifier : ValuedModifier) (tokens : List (List Char)) :
    Option (List Char) → Prop
  | absent (habsent : ∀ inner ∈ tokens, ∀ body, ¬Carries modifier inner body) :
      LastBody modifier tokens none
  | present {before after : List (List Char)} {inner body : List Char}
      (hinners : tokens = before ++ inner :: after) (hbody : Carries modifier inner body)
      (hlast : ∀ later ∈ after, ∀ body, ¬Carries modifier later body) :
      LastBody modifier tokens (some body)

/-- The value of the modifier, if it has a token: that of its last one. -/
inductive LastValue {α : Type} (modifier : ValuedModifier) (read? : List Char → Option α)
    (tokens : List (List Char)) : Option α → Prop
  | absent (habsent : LastBody modifier tokens none) : LastValue modifier read? tokens none
  | present {body : List Char} {value : α} (hbody : LastBody modifier tokens (some body))
      (hvalue : read? body = some value) : LastValue modifier read? tokens (some value)

/-- The body of a modifier is well formed. -/
def isWellFormed : ValuedModifier → List Char → Bool
  | .wait, body => (Wait.ofSeconds? body).isSome
  | .maxWait, body => (Wait.milliseconds? body).isSome
  | .condition, body => (Condition.ofText? body).isSome
  | .index, body => (readIndex? body).isSome

/-- The last token of the modifier is not well formed. -/
def IsMalformed (modifier : ValuedModifier) (tokens : List (List Char)) : Prop :=
  ∃ body, LastBody modifier tokens (some body) ∧ isWellFormed modifier body = false

/-- The modifiers that are read before this one. -/
def readBefore : ValuedModifier → List ValuedModifier
  | .wait => []
  | .maxWait => [.wait]
  | .condition => [.wait, .maxWait]
  | .index => [.wait, .maxWait, .condition]

/-- Of the pieces of a line those remain that are no modifiers, as they are and in their order. -/
inductive Keeps : List Chunk → List Chunk → Prop
  | nil : Keeps [] []
  | char (c : Char) {chunks kept : List Chunk} (hothers : Keeps chunks kept) :
      Keeps (.char c :: chunks) (.char c :: kept)
  | token {inner : List Char} {chunks kept : List Chunk} (hplain : ¬IsModifier inner)
      (hothers : Keeps chunks kept) : Keeps (.token inner :: chunks) (.token inner :: kept)
  | modifier {inner : List Char} {chunks kept : List Chunk} (hmodifier : IsModifier inner)
      (hothers : Keeps chunks kept) : Keeps (.token inner :: chunks) kept

/-- What is found in a line, given its pieces: its modifiers and the other pieces, or the first
modifier that is not well formed. -/
inductive Extraction (chunks : List Chunk) : Except LineError (Modifiers × List Char) → Prop
  | found {modifiers : Modifiers} {wait? : Option Wait} {kept : List Chunk}
      (hwait : LastValue .wait Wait.ofSeconds? (inners chunks) wait?)
      (hzero : modifiers.wait = wait?.getD .zero)
      (hmaxWait : LastValue .maxWait Wait.milliseconds? (inners chunks) modifiers.maxWait)
      (hcondition : LastValue .condition Condition.ofText? (inners chunks) modifiers.condition)
      (hindex : LastValue .index readIndex? (inners chunks) modifiers.index)
      (hecho : modifiers.echo = true ↔ ∃ inner ∈ inners chunks, Spells "echo" inner)
      (hrisky : modifiers.unsafeAction = true ↔ ∃ inner ∈ inners chunks, Spells "unsafe" inner)
      (hhq : modifiers.hq = true ↔ ∃ inner ∈ inners chunks, Spells "hq" inner)
      (hkept : Keeps chunks kept) : Extraction chunks (.ok (modifiers, Text.trim (render kept)))
  | malformed {modifier : ValuedModifier} (hmalformed : IsMalformed modifier (inners chunks))
      (hfirst : ∀ earlier ∈ readBefore modifier, ¬IsMalformed earlier (inners chunks)) :
      Extraction chunks (.error (.malformedModifier modifier (String.ofList (render chunks))))

/-! ## Telling kinds apart -/

/-- The names of modifiers with values are in lower case. -/
theorem map_foldLetter_name (modifier : ValuedModifier) :
    modifier.name.toList.map Text.foldLetter = modifier.name.toList := by
  cases modifier <;> decide

theorem not_mem_point_name (modifier : ValuedModifier) : '.' ∉ modifier.name.toList := by
  cases modifier <;> decide

/-- The names of modifiers without a value are in lower case. -/
theorem map_foldLetter_flag : ∀ flag ∈ flags, flag.toList.map Text.foldLetter = flag.toList := by
  decide

theorem not_mem_point_flag : ∀ flag ∈ flags, '.' ∉ flag.toList := by
  decide

/-- Nothing that spells a name without points has a point. -/
theorem not_mem_point_of_map {name written : List Char} (hname : '.' ∉ name)
    (h : written.map Text.foldLetter = name) : '.' ∉ written := by
  intro hmem
  exact hname (h ▸ List.mem_map_of_mem hmem)

/-- A modifier with a value recognizes its tokens. -/
theorem valuedBody_eq_some_iff {modifier : ValuedModifier} {inner body : List Char} :
    valuedBody modifier.name.toList inner = some body ↔ Carries modifier inner body := by
  have hname := map_foldLetter_name modifier
  have hcut : valuedBody modifier.name.toList inner = some body ↔ ∃ opening,
      inner = opening ++ body ∧
        opening.map Text.foldLetter = (modifier.name.toList ++ ['.']).map Text.foldLetter :=
    Text.dropHeadBy_eq_some_iff
  rw [hcut, List.map_append, hname]
  constructor
  · rintro ⟨opening, rfl, hopening⟩
    obtain ⟨written, point, rfl, hwritten, hpoint⟩ := List.map_eq_append_iff.mp hopening
    obtain ⟨c, none, rfl, hc, hnone⟩ := List.map_eq_cons_iff.mp hpoint
    have hsame : Text.sameFolded '.' c = true := beq_iff_eq.mpr hc.symm
    obtain rfl := Text.eq_of_sameFolded (by decide) (by decide) hsame
    obtain rfl := List.map_eq_nil_iff.mp hnone
    exact ⟨written, by simp, hwritten⟩
  · rintro ⟨written, rfl, hwritten⟩
    refine ⟨written ++ ['.'], by simp, ?_⟩
    rw [List.map_append, hwritten]

/-- A modifier with a value recognizes exactly its tokens. -/
theorem hasValue_iff {modifier : ValuedModifier} {inner : List Char} :
    hasValue modifier inner = true ↔ ∃ body, Carries modifier inner body := by
  simp only [hasValue, Option.isSome_iff_exists, valuedBody_eq_some_iff]

/-- A modifier with a value leaves everything else alone. -/
theorem not_hasValue_iff {modifier : ValuedModifier} {inner : List Char} :
    (!hasValue modifier inner) = true ↔ ∀ body, ¬Carries modifier inner body := by
  rw [Bool.not_eq_true', ← Bool.not_eq_true, hasValue_iff, not_exists]

/-- A modifier without a value recognizes exactly its tokens. -/
theorem isFlag_iff {flag : String} (hflag : flag ∈ flags) {inner : List Char} :
    isFlag flag inner = true ↔ Spells flag inner := by
  have hname := map_foldLetter_flag flag hflag
  have hcut : Text.dropHeadBy Text.sameFolded flag.toList inner = some [] ↔ Spells flag inner := by
    refine Text.dropHeadBy_eq_some_iff.trans ?_
    rw [hname]
    simp [Spells]
  rw [← hcut, isFlag, flagBody]
  split
  · next hfound => simp [hfound]
  · next hother => simp [hother]

/-- A token is recognized exactly if it is a modifier. -/
theorem isModifier_iff {inner : List Char} : isModifier inner = true ↔ IsModifier inner := by
  have hecho := @isFlag_iff "echo" (by decide) inner
  have hrisky := @isFlag_iff "unsafe" (by decide) inner
  have hhq := @isFlag_iff "hq" (by decide) inner
  constructor
  · intro h
    simp only [isModifier, Bool.or_eq_true, hasValue_iff, hecho, hrisky, hhq, or_assoc] at h
    rcases h with h | h | h | h | h | h | h
    · exact .inl ⟨_, h⟩
    · exact .inl ⟨_, h⟩
    · exact .inl ⟨_, h⟩
    · exact .inl ⟨_, h⟩
    · exact .inr ⟨_, by decide, h⟩
    · exact .inr ⟨_, by decide, h⟩
    · exact .inr ⟨_, by decide, h⟩
  · simp only [isModifier, Bool.or_eq_true, hasValue_iff, hecho, hrisky, hhq]
    rintro (⟨modifier, h⟩ | ⟨flag, hflag, h⟩)
    · cases modifier <;> simp [h]
    · simp only [flags, List.mem_cons, List.not_mem_nil, or_false] at hflag
      rcases hflag with rfl | rfl | rfl <;> simp [h]

/-- A token is one of at most one modifier with a value. -/
theorem Carries.eq {modifier other : ValuedModifier} {inner body rest : List Char}
    (h : Carries modifier inner body) (h' : Carries other inner rest) : modifier = other := by
  obtain ⟨written, hwritten, hname⟩ := h
  obtain ⟨again, hagain, hother⟩ := h'
  have hcut := Text.splitOnce_append (not_mem_point_of_map (not_mem_point_name modifier) hname) body
  have hsame := Text.splitOnce_append (not_mem_point_of_map (not_mem_point_name other) hother) rest
  rw [← hwritten, hagain, hsame] at hcut
  obtain ⟨rfl, -⟩ := Prod.mk.inj (Option.some.inj hcut)
  have hnames : modifier.name.toList = other.name.toList := hname.symm.trans hother
  cases modifier <;> cases other <;> first | rfl | exact absurd hnames (by decide)

/-- No token is a modifier with a value and one without. -/
theorem Spells.not_carries {flag : String} (hflag : flag ∈ flags) {inner : List Char}
    (h : Spells flag inner) (modifier : ValuedModifier) (body : List Char) :
    ¬Carries modifier inner body := by
  rintro ⟨written, rfl, -⟩
  exact not_mem_point_of_map (not_mem_point_flag flag hflag) h (by simp)

/-- A token is at most one modifier without a value. -/
theorem Spells.eq {flag other : String} {inner : List Char} (h : Spells flag inner)
    (h' : Spells other inner) : flag = other :=
  String.toList_injective (Eq.trans h.symm h')

/-! ## Reading one kind -/

variable {α : Type} {modifier : ValuedModifier} {read? : List Char → Option α}
  {tokens : List (List Char)} {chunks : List Chunk}

/-- The body of the last token is the last of all bodies. -/
theorem lastBody_iff {body? : Option (List Char)} :
    LastBody modifier tokens body? ↔
      (tokens.filterMap (valuedBody modifier.name.toList)).getLast? = body? := by
  have hnone (inner : List Char) : valuedBody modifier.name.toList inner = none ↔
      ∀ body, ¬Carries modifier inner body := by
    simp only [Option.eq_none_iff_forall_ne_some, ne_eq, valuedBody_eq_some_iff]
  rw [List.getLast?_filterMap]
  constructor
  · intro h
    cases h with
    | absent habsent =>
      refine List.findSome?_eq_none_iff.mpr fun inner hmem => ?_
      exact (hnone inner).mpr (habsent inner (List.mem_reverse.mp hmem))
    | @present before after inner body hinners hbody hlast =>
      refine List.findSome?_eq_some_iff.mpr ⟨after.reverse, inner, before.reverse, ?_, ?_, ?_⟩
      · simp [hinners]
      · exact valuedBody_eq_some_iff.mpr hbody
      · exact fun later hmem => (hnone later).mpr (hlast later (List.mem_reverse.mp hmem))
  · intro h
    cases body? with
    | none =>
      refine .absent fun inner hmem => (hnone inner).mp ?_
      exact List.findSome?_eq_none_iff.mp h inner (List.mem_reverse.mpr hmem)
    | some body =>
      obtain ⟨after, inner, before, hinners, hbody, hlast⟩ := List.findSome?_eq_some_iff.mp h
      refine @LastBody.present _ _ before.reverse after.reverse inner body ?_
        (valuedBody_eq_some_iff.mp hbody)
        fun later hmem => (hnone later).mp (hlast later (List.mem_reverse.mp hmem))
      rw [← List.reverse_reverse tokens, hinners]
      simp

/-- A modifier has the value that reading it alone gives. -/
theorem lastValue_iff {value? : Option α} :
    LastValue modifier read? tokens value? ↔ valueOf? modifier read? tokens = some value? := by
  unfold valueOf?
  constructor
  · intro h
    cases h with
    | absent habsent => rw [lastBody_iff.mp habsent]
    | present hbody hvalue =>
      rw [lastBody_iff.mp hbody]
      exact congrArg (Option.map some) hvalue
  · intro h
    split at h
    · next habsent =>
      cases h
      exact .absent (lastBody_iff.mpr habsent)
    · next body hbody =>
      obtain ⟨value, hvalue, rfl⟩ := Option.map_eq_some_iff.mp h
      exact .present (lastBody_iff.mpr hbody) hvalue

/-- A modifier is malformed exactly if reading it alone fails. -/
theorem isMalformed_iff (hreads : ∀ body, isWellFormed modifier body = (read? body).isSome) :
    IsMalformed modifier tokens ↔ valueOf? modifier read? tokens = none := by
  unfold IsMalformed valueOf?
  simp only [lastBody_iff, hreads]
  cases (tokens.filterMap (valuedBody modifier.name.toList)).getLast? with
  | none => simp
  | some body => simp

/-- A modifier is read from its own tokens alone. -/
theorem valueOf?_filter {keeps : List Char → Bool}
    (h : ∀ inner body, Carries modifier inner body → keeps inner = true) :
    valueOf? modifier read? (tokens.filter keeps) = valueOf? modifier read? tokens := by
  have hbodies : (tokens.filter keeps).filterMap (valuedBody modifier.name.toList) =
      tokens.filterMap (valuedBody modifier.name.toList) := by
    rw [List.filterMap_filter]
    refine List.filterMap_congr fun inner _ => ?_
    cases hbody : valuedBody modifier.name.toList inner with
    | none => exact ite_self none
    | some body => exact if_pos (h inner body (valuedBody_eq_some_iff.mp hbody))
  rw [valueOf?, hbodies, valueOf?]

/-- A modifier without a value is found among its own tokens alone. -/
theorem any_isFlag_filter {flag : String} (hflag : flag ∈ flags) {keeps : List Char → Bool}
    (h : ∀ inner, Spells flag inner → keeps inner = true) :
    (tokens.filter keeps).any (isFlag flag) = tokens.any (isFlag flag) := by
  rw [List.any_filter]
  congr 1
  funext inner
  cases hread : isFlag flag inner with
  | false => exact Bool.and_false _
  | true => rw [h inner ((isFlag_iff hflag).mp hread), Bool.true_and]

/-- Taking out a modifier with a value does nothing to another one. -/
theorem valueOf?_filter_hasValue {other : ValuedModifier} (hne : modifier ≠ other) :
    valueOf? modifier read? (tokens.filter (!hasValue other ·)) =
      valueOf? modifier read? tokens := by
  refine valueOf?_filter fun inner body hbody => not_hasValue_iff.mpr fun rest hrest => ?_
  exact hne (hbody.eq hrest)

/-- Taking a modifier with a value out of a line does nothing to another one. -/
theorem valueOf?_left {other : ValuedModifier} (hne : modifier ≠ other) :
    valueOf? modifier read? (inners (left (hasValue other) chunks)) =
      valueOf? modifier read? (inners chunks) := by
  rw [inners_left, valueOf?_filter_hasValue hne]

/-- Taking out a modifier with a value does nothing to one without. -/
theorem any_isFlag_filter_hasValue {flag : String} (hflag : flag ∈ flags)
    (other : ValuedModifier) :
    (tokens.filter (!hasValue other ·)).any (isFlag flag) = tokens.any (isFlag flag) := by
  refine any_isFlag_filter hflag fun inner hspells => ?_
  exact not_hasValue_iff.mpr (hspells.not_carries hflag other)

/-- Taking out a modifier without a value does nothing to another one. -/
theorem any_isFlag_filter_isFlag {flag other : String} (hflag : flag ∈ flags)
    (hother : other ∈ flags) (hne : flag ≠ other) :
    (tokens.filter (!isFlag other ·)).any (isFlag flag) = tokens.any (isFlag flag) := by
  refine any_isFlag_filter hflag fun inner hspells => ?_
  rw [Bool.not_eq_true', Bool.eq_false_iff]
  intro hread
  exact hne (hspells.eq ((isFlag_iff hother).mp hread))

/-- A modifier that is not malformed has a value, or none. -/
theorem exists_valueOf? (hreads : ∀ body, isWellFormed modifier body = (read? body).isSome)
    (h : ¬IsMalformed modifier tokens) : ∃ value?, valueOf? modifier read? tokens = some value? :=
  Option.ne_none_iff_exists'.mp (mt (isMalformed_iff hreads).mpr h)

/-! ## Reading all kinds -/

/-- The modifiers that tokens amount to, each kind being read alone. -/
theorem ofInners_eq (tokens : List (List Char)) :
    ofInners tokens =
      (valueOf? .wait Wait.ofSeconds? tokens).bind fun wait =>
        (valueOf? .maxWait Wait.milliseconds? tokens).bind fun maxWait =>
          (valueOf? .condition Condition.ofText? tokens).bind fun condition =>
            (valueOf? .index readIndex? tokens).map fun index =>
              { wait := wait.getD .zero
                maxWait
                echo := tokens.any (isFlag "echo")
                unsafeAction := tokens.any (isFlag "unsafe")
                hq := tokens.any (isFlag "hq")
                condition
                index } := by
  simp (disch := decide) only [ofInners, valueOf?_filter_hasValue, any_isFlag_filter_hasValue,
    any_isFlag_filter_isFlag, Option.bind_eq_bind, Option.map_eq_bind]
  rfl

/-- Tokens that are well formed amount to modifiers. -/
theorem exists_ofInners (h : ∀ modifier, ¬IsMalformed modifier tokens) :
    ∃ modifiers, ofInners tokens = some modifiers := by
  obtain ⟨wait, hwait⟩ := @exists_valueOf? _ .wait Wait.ofSeconds? _ (fun _ => rfl) (h _)
  obtain ⟨maxWait, hmaxWait⟩ :=
    @exists_valueOf? _ .maxWait Wait.milliseconds? _ (fun _ => rfl) (h _)
  obtain ⟨condition, hcondition⟩ :=
    @exists_valueOf? _ .condition Condition.ofText? _ (fun _ => rfl) (h _)
  obtain ⟨index, hindex⟩ := @exists_valueOf? _ .index readIndex? _ (fun _ => rfl) (h _)
  rw [ofInners_eq, hwait, hmaxWait, hcondition, hindex]
  exact ⟨_, rfl⟩

/-- The pieces that remain are those that no modifier recognizes. -/
theorem keeps_iff {kept : List Chunk} : Keeps chunks kept ↔ kept = left isModifier chunks := by
  constructor
  · intro h
    induction h with
    | nil => rfl
    | char c _ ih => exact congrArg (Chunk.char c :: ·) ih
    | @token inner chunks kept hplain _ ih =>
      have hread : isModifier inner = false := Bool.eq_false_iff.mpr (mt isModifier_iff.mp hplain)
      rw [left, List.filter_cons_of_pos (by simp [Chunk.isLeft, hread])]
      exact congrArg (Chunk.token inner :: ·) ih
    | @modifier inner chunks kept hmodifier _ ih =>
      have hread : isModifier inner = true := isModifier_iff.mpr hmodifier
      rwa [left, List.filter_cons_of_neg (by simp [Chunk.isLeft, hread])]
  · rintro rfl
    induction chunks with
    | nil => exact .nil
    | cons chunk chunks ih =>
      cases chunk with
      | char c => exact .char c ih
      | token inner =>
        cases hread : isModifier inner with
        | true =>
          rw [left, List.filter_cons_of_neg (by simp [Chunk.isLeft, hread])]
          exact .modifier (isModifier_iff.mp hread) ih
        | false =>
          rw [left, List.filter_cons_of_pos (by simp [Chunk.isLeft, hread])]
          exact .token (fun hmodifier => by simp [isModifier_iff.mpr hmodifier] at hread) ih

/-- What the tokens amount to is what is found in the line. -/
theorem extraction_ok_iff {modifiers : Modifiers} {rest : List Char} :
    Extraction chunks (.ok (modifiers, rest)) ↔
      ofInners (inners chunks) = some modifiers ∧
        rest = Text.trim (render (left isModifier chunks)) := by
  have hflag {flag : String} (hflag : flag ∈ flags) {present : Bool} :
      (present = true ↔ ∃ inner ∈ inners chunks, Spells flag inner) ↔
        (inners chunks).any (isFlag flag) = present := by
    simp only [← isFlag_iff hflag, ← List.any_eq_true]
    rw [← Bool.eq_iff_iff, eq_comm]
  have hecho := @hflag "echo" (by decide)
  have hrisky := @hflag "unsafe" (by decide)
  have hhq := @hflag "hq" (by decide)
  constructor
  · intro h
    cases h with
    | found hwait hzero hmaxWait hcondition hindex hecho' hrisky' hhq' hkept =>
      rw [lastValue_iff] at hwait hmaxWait hcondition hindex
      rw [ofInners_eq, hwait, hmaxWait, hcondition, hindex, hecho.mp hecho', hrisky.mp hrisky',
        hhq.mp hhq', keeps_iff.mp hkept]
      exact ⟨by simp [← hzero], rfl⟩
  · rintro ⟨hmodifiers, rfl⟩
    rw [ofInners_eq] at hmodifiers
    obtain ⟨wait, hwait, hmodifiers⟩ := Option.bind_eq_some_iff.mp hmodifiers
    obtain ⟨maxWait, hmaxWait, hmodifiers⟩ := Option.bind_eq_some_iff.mp hmodifiers
    obtain ⟨condition, hcondition, hmodifiers⟩ := Option.bind_eq_some_iff.mp hmodifiers
    obtain ⟨index, hindex, rfl⟩ := Option.map_eq_some_iff.mp hmodifiers
    exact .found (lastValue_iff.mpr hwait) rfl (lastValue_iff.mpr hmaxWait)
      (lastValue_iff.mpr hcondition) (lastValue_iff.mpr hindex)
      (hecho.mpr rfl) (hrisky.mpr rfl) (hhq.mpr rfl) (keeps_iff.mpr rfl)

/-! ## The first error -/

/-- Taking out a modifier fails only because it is malformed. -/
theorem takeValue_eq_elim (modifier : ValuedModifier) (read? : List Char → Option α)
    (line s : List Char) :
    takeValue modifier read? line s =
      (takeValue modifier read? line s).toOption.elim
        (.error (.malformedModifier modifier (String.ofList line))) .ok := by
  unfold takeValue
  split
  · rfl
  · split <;> rfl

/-- Taking out a modifier whose last token is well formed. -/
theorem takeValue_of_some {value? : Option α} (hproper : ∀ chunk ∈ chunks, chunk.Proper)
    (h : valueOf? modifier read? (inners chunks) = some value?) (line : List Char) :
    takeValue modifier read? line (render chunks) =
      .ok (value?, render (left (hasValue modifier) chunks)) := by
  have htaken := @toOption_takeValue_render _ [] _ modifier read? hproper List.not_mem_nil line
  rw [List.append_nil, List.append_nil, h] at htaken
  rw [takeValue_eq_elim, htaken]
  rfl

/-- Taking out a modifier whose last token is malformed. -/
theorem takeValue_of_none (hproper : ∀ chunk ∈ chunks, chunk.Proper)
    (h : valueOf? modifier read? (inners chunks) = none) (line : List Char) :
    takeValue modifier read? line (render chunks) =
      .error (.malformedModifier modifier (String.ofList line)) := by
  have htaken := @toOption_takeValue_render _ [] _ modifier read? hproper List.not_mem_nil line
  rw [List.append_nil, h] at htaken
  rw [takeValue_eq_elim, htaken]
  rfl

/-- The first modifier that is malformed is named, and the whole line with it. -/
theorem extract_of_malformed (hproper : ∀ chunk ∈ chunks, chunk.Proper)
    (h : IsMalformed modifier (inners chunks))
    (hfirst : ∀ earlier ∈ readBefore modifier, ¬IsMalformed earlier (inners chunks)) :
    extract (render chunks) =
      .error (.malformedModifier modifier (String.ofList (render chunks))) := by
  have hproperWait := proper_left hproper (hasValue .wait)
  have hproperMaxWait := proper_left hproperWait (hasValue .maxWait)
  have hproperCondition := proper_left hproperMaxWait (hasValue .condition)
  -- The modifiers before it are taken out first, and that leaves its own tokens where they are.
  cases modifier with
  | wait =>
    have hnone := (@isMalformed_iff _ .wait Wait.ofSeconds? _ fun _ => rfl).mp h
    rw [extract, takeValue_of_none hproper hnone]
    rfl
  | maxWait =>
    obtain ⟨wait, hwait⟩ :=
      @exists_valueOf? _ .wait Wait.ofSeconds? _ (fun _ => rfl) (hfirst _ (by decide))
    have hnone := (@isMalformed_iff _ .maxWait Wait.milliseconds? _ fun _ => rfl).mp h
    rw [← @valueOf?_left _ _ _ _ .wait (by decide)] at hnone
    rw [extract, takeValue_of_some hproper hwait]
    simp only [bind, Except.bind, takeValue_of_none hproperWait hnone]
  | condition =>
    obtain ⟨wait, hwait⟩ :=
      @exists_valueOf? _ .wait Wait.ofSeconds? _ (fun _ => rfl) (hfirst _ (by decide))
    obtain ⟨maxWait, hmaxWait⟩ :=
      @exists_valueOf? _ .maxWait Wait.milliseconds? _ (fun _ => rfl) (hfirst _ (by decide))
    have hnone := (@isMalformed_iff _ .condition Condition.ofText? _ fun _ => rfl).mp h
    rw [← @valueOf?_left _ _ _ _ .wait (by decide)] at hmaxWait hnone
    rw [← @valueOf?_left _ _ _ _ .maxWait (by decide)] at hnone
    rw [extract, takeValue_of_some hproper hwait]
    simp only [bind, Except.bind, takeValue_of_some hproperWait hmaxWait,
      takeValue_of_none hproperMaxWait hnone]
  | index =>
    obtain ⟨wait, hwait⟩ :=
      @exists_valueOf? _ .wait Wait.ofSeconds? _ (fun _ => rfl) (hfirst _ (by decide))
    obtain ⟨maxWait, hmaxWait⟩ :=
      @exists_valueOf? _ .maxWait Wait.milliseconds? _ (fun _ => rfl) (hfirst _ (by decide))
    obtain ⟨condition, hcondition⟩ :=
      @exists_valueOf? _ .condition Condition.ofText? _ (fun _ => rfl) (hfirst _ (by decide))
    have hnone := (@isMalformed_iff _ .index readIndex? _ fun _ => rfl).mp h
    rw [← @valueOf?_left _ _ _ _ .wait (by decide)] at hmaxWait hcondition hnone
    rw [← @valueOf?_left _ _ _ _ .maxWait (by decide)] at hcondition hnone
    rw [← @valueOf?_left _ _ _ _ .condition (by decide)] at hnone
    rw [extract, takeValue_of_some hproper hwait]
    simp only [bind, Except.bind, takeValue_of_some hproperWait hmaxWait,
      takeValue_of_some hproperMaxWait hcondition, takeValue_of_none hproperCondition hnone]

/-- If some modifier is malformed, there is a first one. -/
theorem exists_first_malformed (h : ∃ modifier, IsMalformed modifier tokens) :
    ∃ modifier, IsMalformed modifier tokens ∧
      ∀ earlier ∈ readBefore modifier, ¬IsMalformed earlier tokens := by
  by_cases hwait : IsMalformed .wait tokens
  · exact ⟨.wait, hwait, by simp [readBefore]⟩
  by_cases hmaxWait : IsMalformed .maxWait tokens
  · exact ⟨.maxWait, hmaxWait, by simp [readBefore, hwait]⟩
  by_cases hcondition : IsMalformed .condition tokens
  · exact ⟨.condition, hcondition, by simp [readBefore, hwait, hmaxWait]⟩
  obtain ⟨modifier, hmalformed⟩ := h
  cases modifier with
  | index => exact ⟨.index, hmalformed, by simp [readBefore, hwait, hmaxWait, hcondition]⟩
  | wait => exact absurd hmalformed hwait
  | maxWait => exact absurd hmalformed hmaxWait
  | condition => exact absurd hmalformed hcondition

/-- A line in pieces can be read exactly if its tokens amount to modifiers. -/
theorem extract_eq_ok_iff (hproper : ∀ chunk ∈ chunks, chunk.Proper) {modifiers : Modifiers}
    {rest : List Char} :
    extract (render chunks) = .ok (modifiers, rest) ↔
      ofInners (inners chunks) = some modifiers ∧
        rest = Text.trim (render (left isModifier chunks)) := by
  have hok := @extract_render_eq_ok_iff chunks [] hproper List.not_mem_nil modifiers rest
  rwa [List.append_nil, List.append_nil] at hok

/-- Reading a line in pieces finds what there is. -/
theorem extract_eq_iff (hproper : ∀ chunk ∈ chunks, chunk.Proper)
    {result : Except LineError (Modifiers × List Char)} :
    extract (render chunks) = result ↔ Extraction chunks result := by
  have hfound {modifiers : Modifiers} {rest : List Char} :
      extract (render chunks) = .ok (modifiers, rest) ↔
        Extraction chunks (.ok (modifiers, rest)) :=
    (extract_eq_ok_iff hproper).trans extraction_ok_iff.symm
  constructor
  · rintro rfl
    by_cases hmalformed : ∃ modifier, IsMalformed modifier (inners chunks)
    · obtain ⟨modifier, hthis, hfirst⟩ := exists_first_malformed hmalformed
      rw [extract_of_malformed hproper hthis hfirst]
      exact .malformed hthis hfirst
    · obtain ⟨modifiers, hmodifiers⟩ := exists_ofInners (not_exists.mp hmalformed)
      have hextraction := extraction_ok_iff.mpr ⟨hmodifiers, rfl⟩
      rwa [hfound.mpr hextraction]
  · intro h
    cases h with
    | malformed hmalformed hfirst => exact extract_of_malformed hproper hmalformed hfirst
    | found hwait hzero hmaxWait hcondition hindex hecho hrisky hhq hkept =>
      exact hfound.mpr
        (.found hwait hzero hmaxWait hcondition hindex hecho hrisky hhq hkept)

/-- A line in pieces has these modifiers exactly if its tokens amount to them. -/
theorem exists_extract_eq_ok_iff (hproper : ∀ chunk ∈ chunks, chunk.Proper)
    (modifiers : Modifiers) :
    (∃ rest, extract (render chunks) = .ok (modifiers, rest)) ↔
      ofInners (inners chunks) = some modifiers := by
  simp only [extract_eq_ok_iff hproper, exists_and_left, exists_eq, and_true]

/-- A modifier of a line in pieces is named exactly if it is the first that is malformed. -/
theorem extract_eq_error_iff (hproper : ∀ chunk ∈ chunks, chunk.Proper)
    (modifier : ValuedModifier) :
    extract (render chunks) =
        .error (.malformedModifier modifier (String.ofList (render chunks))) ↔
      IsMalformed modifier (inners chunks) ∧
        ∀ earlier ∈ readBefore modifier, ¬IsMalformed earlier (inners chunks) := by
  constructor
  · intro h
    cases (extract_eq_iff hproper).mp h with
    | malformed hmalformed hfirst => exact ⟨hmalformed, hfirst⟩
  · rintro ⟨hmalformed, hfirst⟩
    exact extract_of_malformed hproper hmalformed hfirst

/-! ## A token by itself -/

/-- The text of a modifier with its body. -/
def token (modifier : ValuedModifier) (body : List Char) : List Char :=
  '<' :: (modifier.name.toList ++ '.' :: body) ++ ['>']

/-- What stands between the brackets of a modifier with its body. -/
theorem carries_self (modifier : ValuedModifier) (body : List Char) :
    Carries modifier (modifier.name.toList ++ '.' :: body) body :=
  ⟨modifier.name.toList, rfl, map_foldLetter_name modifier⟩

/-- A modifier is read from its one token. -/
theorem valueOf?_singleton {inner body : List Char} (h : Carries modifier inner body) :
    valueOf? modifier read? [inner] = (read? body).map some := by
  rw [valueOf?, List.filterMap_cons, valuedBody_eq_some_iff.mpr h]
  rfl

/-- The one token is not one of another modifier. -/
theorem valueOf?_singleton_of_ne {other : ValuedModifier} {inner body : List Char}
    (h : Carries other inner body) (hne : modifier ≠ other) :
    valueOf? modifier read? [inner] = some none := by
  refine lastValue_iff.mp (.absent (.absent fun single hmem rest hrest => ?_))
  obtain rfl := List.mem_singleton.mp hmem
  exact hne (hrest.eq h)

/-- The one token is not one of a modifier without a value. -/
theorem any_isFlag_singleton {flag : String} (hflag : flag ∈ flags) {inner body : List Char}
    (h : Carries modifier inner body) : [inner].any (isFlag flag) = false := by
  rw [List.any_cons, List.any_nil, Bool.or_false, Bool.eq_false_iff]
  intro hread
  exact ((isFlag_iff hflag).mp hread).not_carries hflag modifier body h

/-- What a modifier with its body amounts to, if the body can be read. -/
def ofBody? : ValuedModifier → List Char → Option Modifiers
  | .wait, body => (Wait.ofSeconds? body).map fun wait => { wait }
  | .maxWait, body => (Wait.milliseconds? body).map fun ms => { maxWait := some ms }
  | .condition, body =>
    (Condition.ofText? body).map fun condition => { condition := some condition }
  | .index, body => (readIndex? body).map fun index => { index := some index }

/-- One token amounts to its modifier. -/
theorem ofInners_singleton {inner body : List Char} (h : Carries modifier inner body) :
    ofInners [inner] = ofBody? modifier body := by
  have hecho := any_isFlag_singleton (show "echo" ∈ flags by decide) h
  have hrisky := any_isFlag_singleton (show "unsafe" ∈ flags by decide) h
  have hhq := any_isFlag_singleton (show "hq" ∈ flags by decide) h
  rw [ofInners_eq, hecho, hrisky, hhq]
  cases modifier with
  | wait =>
    rw [valueOf?_singleton h, @valueOf?_singleton_of_ne _ .maxWait _ _ _ _ h nofun,
      @valueOf?_singleton_of_ne _ .condition _ _ _ _ h nofun,
      @valueOf?_singleton_of_ne _ .index _ _ _ _ h nofun, ofBody?]
    cases Wait.ofSeconds? body <;> rfl
  | maxWait =>
    rw [@valueOf?_singleton_of_ne _ .wait _ _ _ _ h nofun, valueOf?_singleton h,
      @valueOf?_singleton_of_ne _ .condition _ _ _ _ h nofun,
      @valueOf?_singleton_of_ne _ .index _ _ _ _ h nofun, ofBody?]
    cases Wait.milliseconds? body <;> rfl
  | condition =>
    rw [@valueOf?_singleton_of_ne _ .wait _ _ _ _ h nofun,
      @valueOf?_singleton_of_ne _ .maxWait _ _ _ _ h nofun, valueOf?_singleton h,
      @valueOf?_singleton_of_ne _ .index _ _ _ _ h nofun, ofBody?]
    cases Condition.ofText? body <;> rfl
  | index =>
    rw [@valueOf?_singleton_of_ne _ .wait _ _ _ _ h nofun,
      @valueOf?_singleton_of_ne _ .maxWait _ _ _ _ h nofun,
      @valueOf?_singleton_of_ne _ .condition _ _ _ _ h nofun, valueOf?_singleton h, ofBody?]
    cases readIndex? body <;> rfl

variable {body : List Char}

/-- A body is well formed if it can be read. -/
theorem isWellFormed_eq_isSome (modifier : ValuedModifier) (body : List Char) :
    isWellFormed modifier body = (ofBody? modifier body).isSome := by
  cases modifier <;> exact Option.isSome_map.symm

/-- A modifier by itself is what its body amounts to, and nothing is left of it. If its body cannot
be read, it is malformed. -/
theorem extract_token (hopen : '<' ∉ body) (hclose : '>' ∉ body) :
    extract (token modifier body) =
      (ofBody? modifier body).elim
        (.error (.malformedModifier modifier (String.ofList (token modifier body))))
        fun modifiers => .ok (modifiers, []) := by
  have hcarries := carries_self modifier body
  have hrender : token modifier body = render [.token (modifier.name.toList ++ '.' :: body)] := by
    simp [token, render, Chunk.text]
  have hproper : ∀ chunk ∈ [Chunk.token (modifier.name.toList ++ '.' :: body)], chunk.Proper := by
    have hname : '<' ∉ modifier.name.toList ∧ '>' ∉ modifier.name.toList := by
      cases modifier <;> decide
    simp [Chunk.Proper, hopen, hclose, hname]
  rw [hrender]
  cases hread : ofBody? modifier body with
  | some modifiers =>
    have hmodifier : isModifier (modifier.name.toList ++ '.' :: body) = true :=
      isModifier_iff.mpr (.inl ⟨modifier, body, hcarries⟩)
    refine (extract_eq_ok_iff hproper).mpr ⟨(ofInners_singleton hcarries).trans hread, ?_⟩
    simp [left, Chunk.isLeft, hmodifier, Text.trim, Text.trimStart, Text.trimEnd, render]
  | none =>
    have hmalformed : isWellFormed modifier body = false := by
      rw [isWellFormed_eq_isSome, hread, Option.isSome_none]
    refine extract_of_malformed hproper ⟨body, ?_, hmalformed⟩ ?_
    · exact @LastBody.present _ _ [] [] _ body rfl hcarries (by simp)
    · -- The one token there is is not one of the modifiers that are read before.
      rintro earlier hearlier ⟨rest, hlast, -⟩
      cases hlast with
      | present hsplit hrest =>
        obtain rfl := List.mem_singleton.mp (hsplit ▸ List.mem_append_right _ List.mem_cons_self)
        obtain rfl := hrest.eq hcarries
        cases earlier <;> simp [readBefore] at hearlier

/-! ## Mixing the kinds -/

/-- Two lines have the same tokens of each modifier, in the same order. -/
structure SameTokens (first second : List Chunk) : Prop where
  valued : ∀ modifier, (inners first).filter (hasValue modifier) =
    (inners second).filter (hasValue modifier)
  flag : ∀ flag ∈ flags, (inners first).filter (isFlag flag) = (inners second).filter (isFlag flag)

/-- The value of a modifier depends on its tokens only. -/
theorem SameTokens.valueOf?_eq {first second : List Chunk} (h : SameTokens first second)
    (modifier : ValuedModifier) (read? : List Char → Option α) :
    valueOf? modifier read? (inners first) = valueOf? modifier read? (inners second) := by
  have hown (inner body : List Char) (hbody : Carries modifier inner body) :
      hasValue modifier inner = true := hasValue_iff.mpr ⟨body, hbody⟩
  rw [← valueOf?_filter hown, h.valued modifier, valueOf?_filter hown]

/-- Whether there is a modifier depends on its tokens only. -/
theorem SameTokens.any_isFlag_eq {first second : List Chunk} (h : SameTokens first second)
    {flag : String} (hflag : flag ∈ flags) :
    (inners first).any (isFlag flag) = (inners second).any (isFlag flag) := by
  have hown (inner : List Char) (hspells : Spells flag inner) : isFlag flag inner = true :=
    (isFlag_iff hflag).mpr hspells
  rw [← any_isFlag_filter hflag hown, h.flag flag hflag, any_isFlag_filter hflag hown]

/-- What the tokens amount to depends on the tokens of each modifier only. -/
theorem SameTokens.ofInners_eq {first second : List Chunk} (h : SameTokens first second) :
    ofInners (inners first) = ofInners (inners second) := by
  rw [Modifiers.ofInners_eq, Modifiers.ofInners_eq]
  have hecho := h.any_isFlag_eq (show "echo" ∈ flags by decide)
  have hrisky := h.any_isFlag_eq (show "unsafe" ∈ flags by decide)
  have hhq := h.any_isFlag_eq (show "hq" ∈ flags by decide)
  simp only [h.valueOf?_eq, hecho, hrisky, hhq]

/-- Whether a modifier is malformed depends on its tokens only. -/
theorem SameTokens.isMalformed_iff {first second : List Chunk} (h : SameTokens first second)
    (modifier : ValuedModifier) :
    IsMalformed modifier (inners first) ↔ IsMalformed modifier (inners second) := by
  have hreads : ∀ body, isWellFormed modifier body =
      (if isWellFormed modifier body then some () else none).isSome := by
    intro body
    cases isWellFormed modifier body <;> rfl
  rw [Modifiers.isMalformed_iff hreads, Modifiers.isMalformed_iff hreads, h.valueOf?_eq]

/-- What reading a line in pieces comes to. -/
structure ReadsTokens (chunks : List Chunk) : Prop where
  result_iff : ∀ result, extract (render chunks) = result ↔ Extraction chunks result
  succeeds_iff : (∃ found, extract (render chunks) = .ok found) ↔
    ∀ modifier, ¬IsMalformed modifier (inners chunks)
  /-- How the tokens of different modifiers are mixed does not matter. -/
  values_eq : ∀ others : List Chunk, (∀ chunk ∈ others, chunk.Proper) → SameTokens chunks others →
    ∀ modifiers, (∃ rest, extract (render chunks) = .ok (modifiers, rest)) ↔
      ∃ rest, extract (render others) = .ok (modifiers, rest)
  error_eq : ∀ others : List Chunk, (∀ chunk ∈ others, chunk.Proper) → SameTokens chunks others →
    ∀ modifier,
      extract (render chunks) =
          .error (.malformedModifier modifier (String.ofList (render chunks))) ↔
        extract (render others) =
          .error (.malformedModifier modifier (String.ofList (render others)))

/-- Where brackets do not nest, each kind of modifier is read by its last token, whatever tokens of
other kinds there are and wherever these stand. -/
theorem readsTokens_of_proper (hproper : ∀ chunk ∈ chunks, chunk.Proper) : ReadsTokens chunks where
  result_iff result := extract_eq_iff hproper
  succeeds_iff := by
    constructor
    · rintro ⟨found, hfound⟩ modifier hmalformed
      obtain ⟨earliest, hthis, hfirst⟩ := exists_first_malformed ⟨modifier, hmalformed⟩
      cases hfound.symm.trans (extract_of_malformed hproper hthis hfirst)
    · intro hwell
      obtain ⟨modifiers, hmodifiers⟩ := exists_ofInners hwell
      exact ⟨_, (extract_eq_ok_iff hproper).mpr ⟨hmodifiers, rfl⟩⟩
  values_eq others hothers hsame modifiers := by
    rw [exists_extract_eq_ok_iff hproper, exists_extract_eq_ok_iff hothers, hsame.ofInners_eq]
  error_eq others hothers hsame modifier := by
    simp only [extract_eq_error_iff hproper, extract_eq_error_iff hothers, hsame.isMalformed_iff]

/-- Of two waits the last one counts, wherever a token of another kind stands, and an unknown token
stays. -/
theorem readsTokens_of_two_waits :
    ∃ (first second : List Chunk) (modifiers : Modifiers),
      render first = "go <hq><wait.1><t> <WAIT.2>".toList ∧
        render second = "<wait.1>go <t><WAIT.2> <hq>".toList ∧ ReadsTokens first ∧
        SameTokens first second ∧ modifiers.wait = .fixed 2000 ∧ modifiers.hq = true ∧
        extract (render first) = .ok (modifiers, "go <t>".toList) ∧
        ∃ rest, extract (render second) = .ok (modifiers, rest) := by
  let token (inner : String) : Chunk := .token inner.toList
  let first : List Chunk :=
    [.char 'g', .char 'o', .char ' ', token "hq", token "wait.1", token "t", .char ' ',
      token "WAIT.2"]
  let second : List Chunk :=
    [token "wait.1", .char 'g', .char 'o', .char ' ', token "t", token "WAIT.2", .char ' ',
      token "hq"]
  let modifiers : Modifiers := { wait := .fixed 2000, hq := true }
  have hfirst : ∀ chunk ∈ first, chunk.Proper := by simp [first, token, Chunk.Proper]
  have hsecond : ∀ chunk ∈ second, chunk.Proper := by simp [second, token, Chunk.Proper]
  have hsame : SameTokens first second := by
    refine ⟨fun modifier => ?_, by decide⟩
    cases modifier <;> decide
  have hreads := readsTokens_of_proper hfirst
  have hextract : extract (render first) = .ok (modifiers, "go <t>".toList) := by decide +kernel
  exact ⟨first, second, modifiers, by decide, by decide, hreads, hsame, rfl, rfl, hextract,
    (hreads.values_eq second hsecond hsame modifiers).mp ⟨_, hextract⟩⟩

end Modifiers

end GameMacros
