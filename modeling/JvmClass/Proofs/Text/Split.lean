/-
  Pieces of texts.

  * `Text.split_eq_splitOn`: the pieces of a text are those that lists have;
  * `Text.eq_false_of_mem_splitOnP`: no piece has a separator in it;
  * `Text.splitOnP_intercalate`: pieces that are put together are found again,
    also where other separators would part them;
  * `Text.intercalate_concat`, `Text.map_intercalate`: the last piece, and pieces
    whose letters are replaced.
-/
import JvmClass.Text.Split

namespace JvmClass.Text

theorem split_eq_splitOn (separator : Char) (cs : List Char) :
    split separator cs = cs.splitOn separator := by
  induction cs with
  | nil => rfl
  | cons c cs ih =>
    rw [split, List.splitOn_cons_eq_if_modifyHead, ← ih]
    by_cases hc : c = separator
    · simp [hc]
    · obtain ⟨piece, pieces, hpieces⟩ := List.exists_cons_of_ne_nil (split_ne_nil separator cs)
      simp [hc, hpieces]

variable {α β : Type}

theorem eq_false_of_mem_splitOnP {p : α → Bool} {cs piece : List α} (h : piece ∈ cs.splitOnP p) :
    ∀ c ∈ piece, p c = false := by
  induction cs generalizing piece with
  | nil =>
    rw [List.splitOnP_nil, List.mem_singleton] at h
    simp [h]
  | cons c cs ih =>
    rw [List.splitOnP_cons_eq_if_modifyHead] at h
    obtain ⟨first, rest, hpieces⟩ := List.exists_cons_of_ne_nil (List.splitOnP_ne_nil p cs)
    rw [hpieces] at h ih
    split at h
    next =>
      rcases List.mem_cons.mp h with rfl | h
      · nofun
      · exact ih h
    next hc =>
      rw [List.modifyHead_cons] at h
      rcases List.mem_cons.mp h with rfl | h
      · exact List.forall_mem_cons.mpr ⟨by simpa using hc, ih (.head _)⟩
      · exact ih (.tail _ h)

/-- Pieces that are put together with one separator are found again, also where
    there could be other separators. -/
theorem splitOnP_intercalate {p : α → Bool} {separator : α} (hseparator : p separator = true)
    {pieces : List (List α)} (hne : pieces ≠ [])
    (hpieces : ∀ piece ∈ pieces, ∀ c ∈ piece, p c = false) :
    ([separator].intercalate pieces).splitOnP p = pieces := by
  induction pieces with
  | nil => exact absurd rfl hne
  | cons piece pieces ih =>
    rw [List.forall_mem_cons] at hpieces
    by_cases hrest : pieces = []
    · subst hrest
      rw [List.intercalate_singleton, List.splitOnP_eq_singleton hpieces.1]
    · rw [List.intercalate_cons_of_ne_nil hrest, List.append_assoc, List.singleton_append,
        List.splitOnP_append_cons_of_forall_mem hpieces.1 separator hseparator,
        ih hrest hpieces.2]

theorem intercalate_concat {separator last : List α} {front : List (List α)} (hne : front ≠ []) :
    separator.intercalate (front ++ [last]) = separator.intercalate front ++ separator ++ last := by
  induction front with
  | nil => exact absurd rfl hne
  | cons piece front ih =>
    by_cases hfront : front = []
    · subst hfront
      rw [List.singleton_append, List.intercalate_cons_cons, List.intercalate_singleton,
        List.intercalate_singleton]
    · have hlast : front ++ [last] ≠ [] := List.append_ne_nil_of_left_ne_nil hfront _
      rw [List.cons_append, List.intercalate_cons_of_ne_nil hlast, ih hfront,
        List.intercalate_cons_of_ne_nil hfront]
      simp only [List.append_assoc]

theorem map_intercalate (f : α → β) (separator : List α) (pieces : List (List α)) :
    (separator.intercalate pieces).map f =
      (separator.map f).intercalate (pieces.map (List.map f)) := by
  induction pieces with
  | nil => rfl
  | cons piece pieces ih =>
    by_cases hrest : pieces = []
    · simp [hrest, List.intercalate_singleton]
    · have hmap : pieces.map (List.map f) ≠ [] := by simpa using hrest
      rw [List.intercalate_cons_of_ne_nil hrest, List.map_cons,
        List.intercalate_cons_of_ne_nil hmap, ← ih, List.map_append, List.map_append]

end JvmClass.Text
