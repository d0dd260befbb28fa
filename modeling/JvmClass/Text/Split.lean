/-
  Cutting texts at a separator.

  * `split separator cs` are the pieces of `cs` between the separators; there
    is always one more piece than there are separators;
  * `splitText` does so with strings.
-/

namespace JvmClass.Text

/-- The pieces of `cs` between the separators. -/
def split (separator : Char) : List Char → List (List Char)
  | [] => [[]]
  | c :: cs =>
    if c = separator then [] :: split separator cs
    else
      match split separator cs with
      | piece :: pieces => (c :: piece) :: pieces
      | [] => [[c]]

/-- The pieces of a text between the separators. -/
def splitText (separator : Char) (text : String) : List String :=
  (split separator text.toList).map String.ofList

theorem split_ne_nil (separator : Char) (cs : List Char) : split separator cs ≠ [] := by
  cases cs with
  | nil => simp [split]
  | cons c cs =>
    rw [split]
    split
    · simp
    · split <;> simp

/-- Joining the pieces again gives the text that was cut. -/
theorem intercalate_split (separator : Char) (cs : List Char) :
    [separator].intercalate (split separator cs) = cs := by
  induction cs with
  | nil => simp [split, List.intercalate]
  | cons c cs ih =>
    rw [split]
    split
    · next h =>
      obtain ⟨piece, pieces, hp⟩ := List.exists_cons_of_ne_nil (split_ne_nil separator cs)
      rw [hp] at ih ⊢
      simpa [List.intercalate, h] using ih
    · split
      · next piece pieces hp =>
        rw [hp] at ih
        cases pieces <;> simp_all [List.intercalate]
      · next hp => exact absurd hp (split_ne_nil separator cs)

end JvmClass.Text
