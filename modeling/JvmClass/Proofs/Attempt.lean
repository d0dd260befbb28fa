/-
  Steps that can only fail in known ways.

  * `Attempt I step P E`: tried in a state with the invariant `I`, `step` keeps
    it and returns what satisfies `P`, or it fails for a cause that goes with the
    state it ends in according to `E`;
  * it follows the structure of steps: `bind`, `ite`, `each`.
-/
import JvmClass.Proofs.Linkage.Growing

namespace JvmClass

/-- `step` keeps the invariant `I` and returns what satisfies `P`, or it fails
    as `E` says. -/
def Attempt {σ α : Type} (I : σ → Prop) (step : EStateM Invalid σ α) (P : α → Prop)
    (E : Invalid → σ → Prop) : Prop :=
  ∀ s, I s → (∀ a t, step s = .ok a t → I t ∧ P a) ∧ ∀ cause t, step s = .error cause t → E cause t

namespace Attempt

section
variable {σ α β : Type} {I : σ → Prop} {x : EStateM Invalid σ α} {f : α → EStateM Invalid σ β}
  {P Q : α → Prop} {R : β → Prop} {E : Invalid → σ → Prop}

theorem mono (hx : Attempt I x P E) (h : ∀ a, P a → Q a) : Attempt I x Q E :=
  fun s hs => ⟨fun a t hrun => ((hx s hs).1 a t hrun).imp_right (h a), (hx s hs).2⟩

theorem bind (hx : Attempt I x P E) (hf : ∀ a, P a → Attempt I (f a) R E) :
    Attempt I (x >>= f) R E := by
  intro s hs
  obtain ⟨hok, herror⟩ := hx s hs
  simp only [Bind.bind, EStateM.bind]
  cases hrun : x s with
  | ok a t =>
    obtain ⟨ht, ha⟩ := hok a t hrun
    exact hf a ha t ht
  | error cause t => exact ⟨nofun, fun cause' t' h => by cases h; exact herror cause t hrun⟩

theorem after (hx : Attempt I x P E) (hf : ∀ a, Attempt I (f a) R E) : Attempt I (x >>= f) R E :=
  hx.bind fun a _ => hf a

theorem pure {a : α} (h : P a) : Attempt I (Pure.pure a) P E := by
  refine fun s hs => ⟨fun b t hrun => ?_, nofun⟩
  cases hrun
  exact ⟨hs, h⟩

theorem throw {cause : Invalid} (h : ∀ s, E cause s) :
    Attempt I (MonadExcept.throw cause : EStateM Invalid σ α) P E := by
  refine fun s hs => ⟨nofun, fun cause' t hrun => ?_⟩
  cases hrun
  exact h s

theorem ite {c : Prop} [Decidable c] {y : EStateM Invalid σ α} (hx : c → Attempt I x P E)
    (hy : ¬ c → Attempt I y P E) : Attempt I (if c then x else y) P E := by
  split
  next hc => exact hx hc
  next hc => exact hy hc

end

section
variable {α β : Type} {I : Linker → Prop} {E : Invalid → Linker → Prop} {step : α → Linking β}
  {items : List α}

theorem eachRev (h : ∀ a ∈ items, Attempt I (step a) (fun _ => True) E) (done : List β) :
    Attempt I (Linking.eachRev step done items) (fun _ => True) E := by
  induction items generalizing done with
  | nil => exact pure trivial
  | cons a items ih =>
    rw [List.forall_mem_cons] at h
    exact h.1.after fun b => ih h.2 (b :: done)

theorem each (h : ∀ a ∈ items, Attempt I (step a) (fun _ => True) E) :
    Attempt I (Linking.each step items) (fun _ => True) E :=
  eachRev h []

end

end Attempt

end JvmClass
