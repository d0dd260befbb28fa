/-
  Steps that run side by side.

  * `Lockstep x y R`: both succeed in the same state, with results that `R`
    relates, or both fail alike;
  * it follows the structure of steps: `bind`, `guard`, `each`; what both begin
    with is done once (`after`).
-/
import JvmClass.Linkage.Builder
import Mathlib.Data.List.Forall2

namespace JvmClass

/-- From every state, both steps come to the same state with related results, or
    fail there for the same reason. -/
def Lockstep {σ α β : Type} (x : EStateM Invalid σ α) (y : EStateM Invalid σ β)
    (R : α → β → Prop) : Prop :=
  ∀ s, (∃ a b t, x s = .ok a t ∧ y s = .ok b t ∧ R a b) ∨
    ∃ cause t, x s = .error cause t ∧ y s = .error cause t

namespace Lockstep

section
variable {σ α β γ δ : Type} {x : EStateM Invalid σ α} {y : EStateM Invalid σ β}
  {R : α → β → Prop} {S : γ → δ → Prop} {f : α → EStateM Invalid σ γ} {g : β → EStateM Invalid σ δ}

theorem pure {a : α} {b : β} (h : R a b) :
    Lockstep (Pure.pure a : EStateM Invalid σ α) (Pure.pure b) R :=
  fun s => .inl ⟨a, b, s, rfl, rfl, h⟩

theorem refl (x : EStateM Invalid σ α) : Lockstep x x Eq := by
  intro s
  cases hrun : x s with
  | ok a t => exact .inl ⟨a, a, t, rfl, rfl, rfl⟩
  | error cause t => exact .inr ⟨cause, t, rfl, rfl⟩

theorem mono {T : α → β → Prop} (hx : Lockstep x y R) (h : ∀ a b, R a b → T a b) :
    Lockstep x y T := by
  intro s
  rcases hx s with ⟨a, b, t, ha, hb, hR⟩ | hfails
  · exact .inl ⟨a, b, t, ha, hb, h a b hR⟩
  · exact .inr hfails

theorem bind (hx : Lockstep x y R) (hf : ∀ a b, R a b → Lockstep (f a) (g b) S) :
    Lockstep (x >>= f) (y >>= g) S := by
  intro s
  rcases hx s with ⟨a, b, t, ha, hb, hR⟩ | ⟨cause, t, ha, hb⟩
  · simp only [Bind.bind, EStateM.bind, ha, hb]
    exact hf a b hR t
  · simp only [Bind.bind, EStateM.bind, ha, hb]
    exact .inr ⟨cause, t, rfl, rfl⟩

theorem after {g : α → EStateM Invalid σ δ} (hf : ∀ a, Lockstep (f a) (g a) S) :
    Lockstep (x >>= f) (x >>= g) S := by
  refine (refl x).bind ?_
  rintro a _ rfl
  exact hf a

theorem guard {c : Prop} [Decidable c] {cause : Invalid} {k : δ → EStateM Invalid σ α}
    {l : δ → EStateM Invalid σ β} (h : Lockstep x y R) :
    Lockstep (if c then MonadExcept.throw cause >>= k else x)
      (if c then MonadExcept.throw cause >>= l else y) R := by
  split
  · exact fun s => .inr ⟨cause, s, rfl, rfl⟩
  · exact h

end

section
variable {α β : Type} {step other : α → Linking β} {R : α → β → β → Prop} {items : List α}

theorem eachRev (h : ∀ a ∈ items, Lockstep (step a) (other a) (R a)) (done done' : List β) :
    Lockstep (Linking.eachRev step done items) (Linking.eachRev other done' items) fun bs bs' =>
      ∃ pairs : List (β × β), List.Forall₂ (fun a p => R a p.1 p.2) items pairs ∧
        bs = done.reverse ++ pairs.map (·.1) ∧ bs' = done'.reverse ++ pairs.map (·.2) := by
  induction items generalizing done done' with
  | nil => exact .pure ⟨[], .nil, by simp, by simp⟩
  | cons a items ih =>
    obtain ⟨ha, hitems⟩ := List.forall_mem_cons.mp h
    refine ha.bind fun b b' hb => (ih hitems (b :: done) (b' :: done')).mono ?_
    rintro bs bs' ⟨pairs, hpairs, rfl, rfl⟩
    exact ⟨(b, b') :: pairs, .cons hb hpairs, by simp, by simp⟩

/-- The results for the items of a list are related one by one. -/
theorem each (h : ∀ a ∈ items, Lockstep (step a) (other a) (R a)) :
    Lockstep (Linking.each step items) (Linking.each other items) fun bs bs' =>
      ∃ pairs : List (β × β), List.Forall₂ (fun a p => R a p.1 p.2) items pairs ∧
        bs = pairs.map (·.1) ∧ bs' = pairs.map (·.2) :=
  eachRev h [] []

end

end Lockstep

end JvmClass
