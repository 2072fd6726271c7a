/-!
# Sets of names

A set of names is kept as a list in ascending order without repetitions. The order is that of the
code points, which is also the order of the UTF-8 bytes.
-/

namespace GameMacros.Text

/-- The names in ascending order, each once. -/
def sortedSet (names : List String) : List String :=
  names.eraseDups.mergeSort fun a b => decide (a ≤ b)

/-- Sorting and dropping repetitions keeps exactly the names given. -/
theorem mem_sortedSet {name : String} {names : List String} :
    name ∈ sortedSet names ↔ name ∈ names := by
  simp [sortedSet]

/-- The names are in ascending order. -/
theorem pairwise_sortedSet (names : List String) : (sortedSet names).Pairwise (· ≤ ·) := by
  have htrans (a b c : String) : decide (a ≤ b) = true → decide (b ≤ c) = true →
      decide (a ≤ c) = true := by simpa using String.le_trans
  have htotal (a b : String) : (decide (a ≤ b) || decide (b ≤ a)) = true := by
    simpa using String.le_total a b
  simpa [sortedSet] using List.pairwise_mergeSort htrans htotal names.eraseDups

/-- Once repetitions are dropped, nothing is repeated. -/
theorem nodup_eraseDups (names : List String) : names.eraseDups.Nodup := by
  generalize hlength : names.length = length
  induction length using Nat.strongRecOn generalizing names with
  | ind length ih =>
    cases names with
    | nil => exact List.nodup_nil
    | cons name names =>
      have hshorter := List.length_filter_le (fun other => !other == name) names
      rw [List.length_cons] at hlength
      rw [List.eraseDups_cons, List.nodup_cons]
      exact ⟨by simp, ih _ (by omega) _ rfl⟩

/-- Each name is there once. -/
theorem nodup_sortedSet (names : List String) : (sortedSet names).Nodup :=
  (List.mergeSort_perm _ _).nodup_iff.mpr (nodup_eraseDups names)

end GameMacros.Text
