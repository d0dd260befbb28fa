/-
  Steps that do what others do.

  * `Refines step other`: where `step` succeeds, `other` leads to the same
    state with the same result;
  * it follows the structure of steps: `bind`, `guard`, `each`, `optional`.
-/
import JvmClass.Attribute.Table
import JvmClass.Proofs.Linkage.Growing

namespace JvmClass

/-- Where `step` succeeds, `other` does the same. -/
def Refines {σ α : Type} (step other : EStateM Invalid σ α) : Prop :=
  ∀ s a t, step s = .ok a t → other s = .ok a t

namespace Refines

section
variable {σ α β : Type} {x y : EStateM Invalid σ α} {f g : α → EStateM Invalid σ β}

theorem refl (x : EStateM Invalid σ α) : Refines x x := fun _ _ _ h => h

theorem of_eq (h : x = y) : Refines x y := h ▸ refl x

theorem bind (hx : Refines x y) (hf : ∀ a, Refines (f a) (g a)) : Refines (x >>= f) (y >>= g) := by
  intro s b u hrun
  simp only [Bind.bind, EStateM.bind] at hrun ⊢
  split at hrun
  next a t ht =>
    rw [hx s a t ht]
    exact hf a t b u hrun
  next => exact nomatch hrun

theorem guard {c : Prop} [Decidable c] {cause : Invalid} {k : β → EStateM Invalid σ α}
    (h : Refines x y) :
    Refines (if c then MonadExcept.throw cause >>= k else x)
      (if c then MonadExcept.throw cause >>= k else y) := by
  split
  · exact refl _
  · exact h

end

section
variable {α β γ : Type} {step : α → Linking β} {other : γ → Linking β} {f : α → γ}

theorem eachRev {items : List α} (h : ∀ a ∈ items, Refines (step a) (other (f a)))
    (done : List β) :
    Refines (Linking.eachRev step done items) (Linking.eachRev other done (items.map f)) := by
  induction items generalizing done with
  | nil => exact refl _
  | cons a items ih =>
    refine bind (h a (.head _)) fun b => ?_
    exact ih (fun a ha => h a (.tail _ ha)) (b :: done)

theorem each {items : List α} (h : ∀ a ∈ items, Refines (step a) (other (f a))) :
    Refines (Linking.each step items) (Linking.each other (items.map f)) :=
  eachRev h []

theorem optional {write : α → Linking Bytes} {other : γ → Linking Bytes} (name : String)
    {a : Option α} (h : ∀ b ∈ a, Refines (write b) (other (f b))) :
    Refines (AttributeTable.optional name write a) (AttributeTable.optional name other (a.map f)) := by
  cases a with
  | none => exact refl _
  | some b => exact bind (h b rfl) fun content => refl _

end

end Refines

end JvmClass
