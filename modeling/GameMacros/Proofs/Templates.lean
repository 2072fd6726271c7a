import GameMacros.Proofs.Reading
import GameMacros.Script.CraftLoop

/-!
# Filling in templates

A template names the macro and the count by placeholders. Filled in, each placeholder of the
template gives way to what it stands for, and nothing else changes. What a craft loop is wrapped in
is filled in one placeholder after the other, so the count is put into the macro as well, and into
what the macro and the template form where they meet. The two agree exactly where the macro adds no
count placeholder to the template.
-/

namespace GameMacros

namespace Text

/-! ## Substitution -/

/-- A text with the patterns of the rules replaced, from left to right and without overlap. What is
put in is not looked at again. -/
inductive Substitutes (rules : List (List Char × List Char)) : List Char → List Char → Prop
  | nil : Substitutes rules [] []
  | rule {pattern replacement rest text : List Char} (hrule : (pattern, replacement) ∈ rules)
      (hrest : Substitutes rules rest text) :
      Substitutes rules (pattern ++ rest) (replacement ++ text)
  | other {c : Char} {rest text : List Char} (hnone : ∀ rule ∈ rules, ¬rule.1 <+: c :: rest)
      (hrest : Substitutes rules rest text) : Substitutes rules (c :: rest) (c :: text)

/-- No pattern of the rules is empty, and none is how another one starts. -/
def Unambiguous (rules : List (List Char × List Char)) : Prop :=
  ∀ rule ∈ rules, rule.1 ≠ [] ∧ ∀ other ∈ rules, rule.1 <+: other.1 → rule = other

variable {rules : List (List Char × List Char)} {pattern replacement s t : List Char}

/-- At most one rule applies at the start of a text. -/
theorem Unambiguous.eq_of_prefix (h : Unambiguous rules) {rule other : List Char × List Char}
    (hrule : rule ∈ rules) (hother : other ∈ rules) (hstarts : rule.1 <+: s)
    (hstartsOther : other.1 <+: s) : rule = other := by
  obtain hshorter | hlonger := List.prefix_or_prefix_of_prefix hstarts hstartsOther
  · exact (h rule hrule).2 other hother hshorter
  · exact ((h other hother).2 rule hrule hlonger).symm

/-- Every text can be substituted in. -/
theorem Unambiguous.exists_substitutes (h : Unambiguous rules) (s : List Char) :
    ∃ t, Substitutes rules s t := by
  induction hlength : s.length using Nat.strong_induction_on generalizing s with
  | h length ih =>
    cases s with
    | nil => exact ⟨[], .nil⟩
    | cons c rest =>
      by_cases happlies : ∃ rule ∈ rules, rule.1 <+: c :: rest
      · obtain ⟨⟨pattern, replacement⟩, hrule, after, hafter⟩ := happlies
        have hpositive : 0 < pattern.length := List.length_pos_iff.mpr (h _ hrule).1
        have hshorter : after.length < length := by
          have hsum := congrArg List.length hafter
          simp only [List.length_append, hlength] at hsum hpositive
          omega
        obtain ⟨text, htext⟩ := ih after.length hshorter after rfl
        exact ⟨replacement ++ text, hafter ▸ .rule hrule htext⟩
      · have hshorter : rest.length < length := hlength ▸ Nat.lt_succ_self rest.length
        obtain ⟨text, htext⟩ := ih rest.length hshorter rest rfl
        exact ⟨c :: text, .other (by simpa using happlies) htext⟩

/-- A pattern in front of a text gives way to its replacement. -/
theorem Unambiguous.exists_of_rule (h : Unambiguous rules) (hrule : (pattern, replacement) ∈ rules)
    (ht : Substitutes rules (pattern ++ s) t) :
    ∃ text, Substitutes rules s text ∧ t = replacement ++ text := by
  have hpattern : pattern <+: pattern ++ s := List.prefix_append pattern s
  generalize hwhole : pattern ++ s = whole at ht hpattern
  cases ht with
  | nil => exact absurd (List.append_eq_nil_iff.mp hwhole).1 (h _ hrule).1
  | rule hother hrest =>
    have hsame := h.eq_of_prefix hrule hother hpattern (List.prefix_append _ _)
    obtain ⟨rfl, rfl⟩ := Prod.mk.inj hsame
    exact ⟨_, List.append_cancel_left hwhole ▸ hrest, rfl⟩
  | other hnone => exact absurd hpattern (hnone _ hrule)

/-- A character at which no pattern starts stays. -/
theorem Substitutes.exists_of_none {c : Char} (ht : Substitutes rules (c :: s) t)
    (hnone : ∀ rule ∈ rules, ¬rule.1 <+: c :: s) :
    ∃ text, Substitutes rules s text ∧ t = c :: text := by
  generalize hwhole : c :: s = whole at ht hnone
  cases ht with
  | nil => cases hwhole
  | rule hrule => exact absurd (List.prefix_append _ _) (hnone _ hrule)
  | other _ hrest =>
    obtain ⟨rfl, rfl⟩ := List.cons.inj hwhole
    exact ⟨_, hrest, rfl⟩

/-- What a substitution gives is determined. -/
theorem Unambiguous.eq_of_substitutes (h : Unambiguous rules) {other : List Char}
    (ht : Substitutes rules s t) (hother : Substitutes rules s other) : t = other := by
  induction ht generalizing other with
  | nil =>
    generalize hwhole : [] = whole at hother
    cases hother with
    | nil => rfl
    | rule hrule => exact absurd (List.append_eq_nil_iff.mp hwhole.symm).1 (h _ hrule).1
    | other => cases hwhole
  | rule hrule _ ih =>
    obtain ⟨text, htext, rfl⟩ := h.exists_of_rule hrule hother
    rw [ih htext]
  | other hnone _ ih =>
    obtain ⟨text, htext, rfl⟩ := hother.exists_of_none hnone
    rw [ih htext]

/-! ## Replacing one pattern -/

/-- Replacement goes on behind the characters that are skipped. -/
theorem replaceFrom_eq_drop (skip : Nat) (s : List Char) :
    replaceFrom pattern replacement skip s = replaceAll pattern replacement (s.drop skip) := by
  induction s generalizing skip with
  | nil => cases skip <;> rfl
  | cons c rest ih =>
    cases skip with
    | zero => rfl
    | succ skip => exact ih skip

/-- A pattern in front of a text is replaced. -/
theorem replaceAll_append (hpattern : pattern ≠ []) (s : List Char) :
    replaceAll pattern replacement (pattern ++ s) =
      replacement ++ replaceAll pattern replacement s := by
  cases pattern with
  | nil => exact absurd rfl hpattern
  | cons c others =>
    have hstarts : (c :: others).isPrefixOf (c :: (others ++ s)) = true :=
      List.isPrefixOf_iff_prefix.mpr (List.prefix_append (c :: others) s)
    rw [List.cons_append, replaceAll, replaceFrom, if_pos hstarts, replaceFrom_eq_drop,
      List.length_cons, Nat.add_sub_cancel, List.drop_left]

/-- A character at which the pattern does not start stays. -/
theorem replaceAll_cons {c : Char} (hnone : ¬pattern <+: c :: s) :
    replaceAll pattern replacement (c :: s) = c :: replaceAll pattern replacement s := by
  rw [replaceAll, replaceFrom, if_neg (mt List.isPrefixOf_iff_prefix.mp hnone), ← replaceAll]

/-- Replacing a pattern is the substitution by its only rule. -/
theorem substitutes_replaceAll (hpattern : pattern ≠ []) (s : List Char) :
    Substitutes [(pattern, replacement)] s (replaceAll pattern replacement s) := by
  have hrules : Unambiguous [(pattern, replacement)] := by simp [Unambiguous, hpattern]
  obtain ⟨t, ht⟩ := hrules.exists_substitutes s
  suffices replaceAll pattern replacement s = t from this ▸ ht
  clear hrules
  induction ht with
  | nil => rfl
  | rule hrule _ ih =>
    obtain ⟨rfl, rfl⟩ := Prod.mk.inj (List.mem_singleton.mp hrule)
    rw [replaceAll_append hpattern, ih]
  | other hnone _ ih => rw [replaceAll_cons (hnone _ (List.mem_singleton_self _)), ih]

/-- The pattern stands in the text exactly if it is an infix of it. -/
theorem occurs_iff_infix : occurs pattern s = true ↔ pattern <:+: s := by
  induction s with
  | nil => simp [occurs]
  | cons c rest ih =>
    rw [occurs, Bool.or_eq_true, ih, List.isPrefixOf_iff_prefix, List.infix_cons_iff]

/-! ## Occurrences -/

/-- The number of places at which the pattern starts. -/
def occurrences (pattern : List Char) : List Char → Nat
  | [] => 0
  | c :: rest => (if pattern <+: c :: rest then 1 else 0) + occurrences pattern rest

/-- Text in front of a text takes nothing from what occurs in it. -/
theorem occurrences_le_append (pattern s t : List Char) :
    occurrences pattern t ≤ occurrences pattern (s ++ t) := by
  induction s with
  | nil => exact Nat.le_refl _
  | cons c s ih => exact ih.trans (Nat.le_add_left _ _)

/-- Text in front of a text stays if no further occurrence starts in it. -/
theorem replaceAll_append_of_occurrences
    (h : occurrences pattern (s ++ t) = occurrences pattern t) :
    replaceAll pattern replacement (s ++ t) = s ++ replaceAll pattern replacement t := by
  induction s with
  | nil => rfl
  | cons c s ih =>
    have hgrown := occurrences_le_append pattern s t
    rw [List.cons_append, occurrences] at h
    have hnone : ¬pattern <+: c :: (s ++ t) := by
      intro hstarts
      rw [if_pos hstarts] at h
      omega
    rw [if_neg hnone, Nat.zero_add] at h
    rw [List.cons_append, replaceAll_cons hnone, ih h, List.cons_append]

end Text

namespace CraftLoop

/-! ## The placeholders of a template -/

/-- The count as a template shows it. -/
def shownCount (count : Int) : List Char :=
  if count < 0 then "999999".toList else Nat.toDigits 10 count.toNat

/-- What the placeholders of a template stand for. -/
def placeholders (body : List Char) (count : Int) : List (List Char × List Char) :=
  [(macroPlaceholder.toList, body), (countPlaceholder.toList, shownCount count)]

variable {body template s t : List Char} {count : Int}

/-- The placeholders can be told apart. -/
theorem unambiguous_placeholders (body : List Char) (count : Int) :
    Text.Unambiguous (placeholders body count) := by
  simp [Text.Unambiguous, placeholders, macroPlaceholder, countPlaceholder]

/-- Where none of the placeholders starts, neither the macro's nor the count's does. -/
theorem not_prefix_of_none (h : ∀ rule ∈ placeholders body count, ¬rule.1 <+: s) :
    ¬macroPlaceholder.toList <+: s ∧ ¬countPlaceholder.toList <+: s := by
  simpa [placeholders] using h

/-- Filling in replaces the placeholders one after the other. -/
theorem fillIn_eq (template body : List Char) (count : Int) :
    fillIn template body count =
      Text.replaceAll countPlaceholder.toList (shownCount count)
        (Text.replaceAll macroPlaceholder.toList body template) := by
  have hshown :
      (toString (if count < 0 then endlessCount else count)).toList = shownCount count := by
    unfold shownCount
    split
    · rfl
    · next hnatural =>
      obtain ⟨crafts, rfl⟩ := Int.eq_ofNat_of_zero_le (not_lt.mp hnatural)
      change (toString crafts).toList = _
      simp
  simp only [fillIn, hshown]

/-- No count placeholder starts in a macro placeholder. -/
theorem occurrences_macroPlaceholder (s : List Char) :
    Text.occurrences countPlaceholder.toList (macroPlaceholder.toList ++ s) =
      Text.occurrences countPlaceholder.toList s := by
  simp [Text.occurrences, macroPlaceholder, countPlaceholder]

/-- No macro placeholder starts in a count placeholder, so putting in the macro leaves it alone. -/
theorem putMacro_countPlaceholder (body s : List Char) :
    Text.replaceAll macroPlaceholder.toList body (countPlaceholder.toList ++ s) =
      countPlaceholder.toList ++ Text.replaceAll macroPlaceholder.toList body s :=
  Text.replaceAll_append_of_occurrences (by
    simp [Text.occurrences, macroPlaceholder, countPlaceholder])

/-- One count placeholder starts in a count placeholder. -/
theorem occurrences_countPlaceholder (s : List Char) :
    Text.occurrences countPlaceholder.toList (countPlaceholder.toList ++ s) =
      1 + Text.occurrences countPlaceholder.toList s := by
  simp [Text.occurrences, countPlaceholder]

/-! ## Counting braces

A count has no braces, so each count placeholder that gives way takes its two opening braces with
it. The number of braces left tells how many placeholders gave way.
-/

/-- A count has no braces. -/
theorem braces_shownCount (count : Int) : (shownCount count).count '\x7b' = 0 := by
  rw [List.count_eq_zero]
  unfold shownCount
  split
  · decide
  · intro hbrace
    exact absurd rfl
      (Numeral.forall_mem_toDigits (p := (· ≠ '\x7b')) (by decide) count.toNat _ hbrace)

/-- A count placeholder has two opening braces. -/
theorem braces_countPlaceholder : countPlaceholder.toList.count '\x7b' = 2 := by
  decide

/-- Putting in the count takes two opening braces for each of its placeholders. -/
theorem braces_putCount
    (h : Text.Substitutes [(countPlaceholder.toList, shownCount count)] s t) :
    t.count '\x7b' + 2 * Text.occurrences countPlaceholder.toList s = s.count '\x7b' := by
  induction h with
  | nil => rfl
  | rule hrule _ ih =>
    obtain ⟨rfl, rfl⟩ := Prod.mk.inj (List.mem_singleton.mp hrule)
    rw [occurrences_countPlaceholder, List.count_append, List.count_append, braces_shownCount,
      braces_countPlaceholder]
    omega
  | @other c _ _ hnone _ ih =>
    rw [Text.occurrences, if_neg (hnone _ (List.mem_singleton_self _)), List.count_cons,
      List.count_cons]
    omega

/-- Filling in takes two opening braces for each count placeholder of the template from what the
template is with the macro put in. -/
theorem braces_filled (h : Text.Substitutes (placeholders body count) template t) :
    t.count '\x7b' + 2 * Text.occurrences countPlaceholder.toList template =
      (Text.replaceAll macroPlaceholder.toList body template).count '\x7b' := by
  induction h with
  | nil => rfl
  | rule hrule _ ih =>
    obtain hbody | hcount := List.mem_pair.mp hrule
    · obtain ⟨rfl, rfl⟩ := Prod.mk.inj hbody.symm
      rw [occurrences_macroPlaceholder, Text.replaceAll_append (by decide), List.count_append,
        List.count_append]
      omega
    · obtain ⟨rfl, rfl⟩ := Prod.mk.inj hcount.symm
      rw [occurrences_countPlaceholder, putMacro_countPlaceholder, List.count_append,
        List.count_append, braces_shownCount, braces_countPlaceholder]
      omega
  | other hnone _ ih =>
    obtain ⟨hbody, hcount⟩ := not_prefix_of_none hnone
    rw [Text.occurrences, if_neg hcount, Text.replaceAll_cons hbody, List.count_cons,
      List.count_cons]
    omega

/-! ## One placeholder after the other -/

/-- Putting in the macro takes no count placeholder away. If it adds none, putting in the count
gives the template filled in. -/
theorem putCount_eq_of_filled (h : Text.Substitutes (placeholders body count) template t) :
    Text.occurrences countPlaceholder.toList template ≤
        Text.occurrences countPlaceholder.toList
          (Text.replaceAll macroPlaceholder.toList body template) ∧
      (Text.occurrences countPlaceholder.toList
            (Text.replaceAll macroPlaceholder.toList body template) =
          Text.occurrences countPlaceholder.toList template →
        Text.replaceAll countPlaceholder.toList (shownCount count)
          (Text.replaceAll macroPlaceholder.toList body template) = t) := by
  induction h with
  | nil => exact ⟨Nat.le_refl _, fun _ => rfl⟩
  | @rule _ _ rest _ hrule _ ih =>
    obtain ⟨hle, heq⟩ := ih
    obtain hbody | hcount := List.mem_pair.mp hrule
    · obtain ⟨rfl, rfl⟩ := Prod.mk.inj hbody.symm
      have hgrown := Text.occurrences_le_append countPlaceholder.toList body
        (Text.replaceAll macroPlaceholder.toList body rest)
      rw [occurrences_macroPlaceholder, Text.replaceAll_append (by decide)]
      refine ⟨hle.trans hgrown, fun hsame => ?_⟩
      rw [Text.replaceAll_append_of_occurrences (by omega), heq (by omega)]
    · obtain ⟨rfl, rfl⟩ := Prod.mk.inj hcount.symm
      rw [occurrences_countPlaceholder, putMacro_countPlaceholder, occurrences_countPlaceholder]
      refine ⟨Nat.add_le_add_left hle 1, fun hsame => ?_⟩
      rw [Text.replaceAll_append (by decide), heq (by omega)]
  | @other c rest _ hnone _ ih =>
    obtain ⟨hle, heq⟩ := ih
    obtain ⟨hbody, hcount⟩ := not_prefix_of_none hnone
    have hgrown := Text.occurrences_le_append countPlaceholder.toList [c]
      (Text.replaceAll macroPlaceholder.toList body rest)
    rw [Text.occurrences, if_neg hcount, Nat.zero_add, Text.replaceAll_cons hbody,
      ← List.singleton_append]
    refine ⟨hle.trans hgrown, fun hsame => ?_⟩
    rw [Text.replaceAll_append_of_occurrences (by omega), heq (by omega), List.singleton_append]

/-- The macro put into a template has no count placeholder beyond those of the template exactly if
filling in one placeholder after the other fills the template in. -/
theorem substitutes_fillIn_iff (template body : List Char) (count : Int) :
    Text.Substitutes (placeholders body count) template (fillIn template body count) ↔
      Text.occurrences countPlaceholder.toList
          (Text.replaceAll macroPlaceholder.toList body template) =
        Text.occurrences countPlaceholder.toList template := by
  rw [fillIn_eq]
  constructor
  · intro hfilled
    have hbraces := braces_filled hfilled
    have hcounted : Text.Substitutes [(countPlaceholder.toList, shownCount count)]
        (Text.replaceAll macroPlaceholder.toList body template) _ :=
      Text.substitutes_replaceAll (by decide) _
    have hput := braces_putCount hcounted
    omega
  · intro hsame
    obtain ⟨filled, hfilled⟩ := (unambiguous_placeholders body count).exists_substitutes template
    rwa [(putCount_eq_of_filled hfilled).2 hsame]

/-- A template without the macro's placeholder is warned about, and no other. -/
theorem missingMacroPlaceholder_iff (template : String) {count : Int} (hcount : count ≠ 0) :
    .missingMacroPlaceholder ∈ warnings (.custom template) count ↔
      ¬macroPlaceholder.toList <:+: template.toList := by
  rw [← Text.occurs_iff_infix]
  simp [warnings, hcount]

/-- A body wrapped in a template is the template with the body put in for the macro's placeholder
and then the count for the count's. That is the template with both filled in exactly if the body
adds no count placeholder. A template without the macro's placeholder is warned about. -/
theorem wrap_custom (template : String) (body : List Char) (fromCraftingLog : Bool) {count : Int}
    (hcount : count ≠ 0) :
    ∃ spliced,
      Text.Substitutes [(macroPlaceholder.toList, body)] template.toList spliced ∧
      Text.Substitutes [(countPlaceholder.toList, shownCount count)] spliced
        (wrap (.custom template) fromCraftingLog count body) ∧
      ((∀ text, Text.Substitutes (placeholders body count) template.toList text ↔
          text = wrap (.custom template) fromCraftingLog count body) ↔
        Text.occurrences countPlaceholder.toList spliced =
          Text.occurrences countPlaceholder.toList template.toList) ∧
      (.missingMacroPlaceholder ∈ warnings (.custom template) count ↔
        ¬macroPlaceholder.toList <:+: template.toList) := by
  have hwrap : wrap (.custom template) fromCraftingLog count body =
      fillIn template.toList body count := if_neg hcount
  have hmacro : macroPlaceholder.toList ≠ [] := by decide
  have hcounted : countPlaceholder.toList ≠ [] := by decide
  have hput : Text.Substitutes [(countPlaceholder.toList, shownCount count)]
      (Text.replaceAll macroPlaceholder.toList body template.toList)
      (fillIn template.toList body count) := by
    rw [fillIn_eq]
    exact Text.substitutes_replaceAll hcounted _
  rw [hwrap]
  refine ⟨_, Text.substitutes_replaceAll hmacro template.toList, hput, ?_,
    missingMacroPlaceholder_iff template hcount⟩
  rw [← substitutes_fillIn_iff _ _ count]
  refine ⟨fun h => (h _).mpr rfl, fun h text => ⟨fun htext => ?_, fun heq => heq ▸ h⟩⟩
  exact (unambiguous_placeholders body count).eq_of_substitutes htext h

/-- Braces beside the macro's placeholder, and in the body, that make no count placeholder. -/
theorem wrap_custom_beside_braces :
    (3 : Int) ≠ 0 ∧
      ∃ spliced,
        Text.Substitutes [(macroPlaceholder.toList, "count\x7d\x7d".toList)]
          (countPlaceholder ++ "\x7b" ++ macroPlaceholder).toList spliced ∧
        Text.Substitutes [(countPlaceholder.toList, shownCount 3)] spliced
          (wrap (.custom (countPlaceholder ++ "\x7b" ++ macroPlaceholder)) true 3
            "count\x7d\x7d".toList) ∧
        ((∀ text, Text.Substitutes (placeholders "count\x7d\x7d".toList 3)
            (countPlaceholder ++ "\x7b" ++ macroPlaceholder).toList text ↔
            text = wrap (.custom (countPlaceholder ++ "\x7b" ++ macroPlaceholder)) true 3
              "count\x7d\x7d".toList) ↔
          Text.occurrences countPlaceholder.toList spliced =
            Text.occurrences countPlaceholder.toList
              (countPlaceholder ++ "\x7b" ++ macroPlaceholder).toList) ∧
        (.missingMacroPlaceholder ∈
            warnings (.custom (countPlaceholder ++ "\x7b" ++ macroPlaceholder)) 3 ↔
          ¬macroPlaceholder.toList <:+: (countPlaceholder ++ "\x7b" ++ macroPlaceholder).toList) :=
  ⟨by decide, wrap_custom (countPlaceholder ++ "\x7b" ++ macroPlaceholder)
    "count\x7d\x7d".toList true (by decide)⟩

/-- A body that shows a count placeholder is not put in as it is. -/
theorem wrap_custom_alters_body :
    ¬Text.Substitutes (placeholders ("/echo " ++ countPlaceholder).toList 3)
      macroPlaceholder.toList
      (wrap (.custom macroPlaceholder) true 3 ("/echo " ++ countPlaceholder).toList) := by
  intro h
  have hfilled : Text.Substitutes (placeholders ("/echo " ++ countPlaceholder).toList 3)
      (macroPlaceholder.toList ++ []) (("/echo " ++ countPlaceholder).toList ++ []) :=
    .rule (List.mem_cons_self ..) .nil
  rw [List.append_nil] at hfilled
  have hsame := (unambiguous_placeholders _ _).eq_of_substitutes h hfilled
  revert hsame
  decide +kernel

end CraftLoop

end GameMacros
