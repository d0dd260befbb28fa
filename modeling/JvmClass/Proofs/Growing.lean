/-
  Steps that only add to a state.

  * a `Growing` type of states has states that are in order (`Valid`) and an
    order in which a state goes on from an earlier one (`Extends`);
  * `Yields step post`: from a valid state, `step` leads to a valid state that
    extends it, and what it returns satisfies `post` in every valid state that
    extends this one, so also in the last one;
  * `Yields` follows the structure of a step: `bind`, `ite`, `lift`.
-/
import JvmClass.Invalid
import Mathlib.Data.List.Forall2

namespace JvmClass

/-- States to which steps may add, but from which they take nothing away. -/
class Growing (σ : Type) where
  /-- The state is in order. -/
  Valid : σ → Prop
  /-- The second state has all that the first one has. -/
  Extends : σ → σ → Prop
  refl : ∀ s, Extends s s
  trans : ∀ {s t u}, Extends s t → Extends t u → Extends s u

open Growing

/-- From a valid state `step` leads to a valid state that extends it, and what
    it returns satisfies `post` from then on. -/
def Yields {σ α : Type} [Growing σ] (step : EStateM Invalid σ α) (post : σ → α → Prop) : Prop :=
  ∀ s a t, Valid s → step s = .ok a t →
    Valid t ∧ Extends s t ∧ ∀ final, Valid final → Extends t final → post final a

namespace Yields

variable {σ α β : Type} [Growing σ] {x : EStateM Invalid σ α} {f : α → EStateM Invalid σ β}
  {P Q : σ → α → Prop} {R : σ → β → Prop}

theorem mono (hx : Yields x P) (h : ∀ s a, Valid s → P s a → Q s a) : Yields x Q :=
  fun s a t hs hrun =>
    let ⟨ht, hext, hpost⟩ := hx s a t hs hrun
    ⟨ht, hext, fun final hfinal hle => h final a hfinal (hpost final hfinal hle)⟩

/-- What a step returned may be used in all that follows, and what is known of
    it at once in what follows next. -/
theorem bindKnown (hx : Yields x P)
    (hf : ∀ a s, P s a → Yields (f a) fun s b => P s a → R s b) : Yields (x >>= f) R := by
  intro s b u hs hrun
  simp only [Bind.bind, EStateM.bind] at hrun
  split at hrun
  next a t ht =>
    obtain ⟨htv, hst, hP⟩ := hx s a t hs ht
    obtain ⟨huv, htu, hR⟩ := hf a t (hP t htv (refl t)) t b u htv hrun
    refine ⟨huv, trans hst htu, fun final hfinal hle => hR final hfinal hle ?_⟩
    exact hP final hfinal (trans htu hle)
  next => simp at hrun

theorem bind (hx : Yields x P) (hf : ∀ a, Yields (f a) fun s b => P s a → R s b) :
    Yields (x >>= f) R :=
  hx.bindKnown fun a _ _ => hf a

theorem pure {b : β} (h : ∀ s, Valid s → R s b) : Yields (Pure.pure b : EStateM Invalid σ β) R := by
  intro s a t hs hrun
  simp only [Pure.pure, EStateM.pure, EStateM.Result.ok.injEq] at hrun
  obtain ⟨rfl, rfl⟩ := hrun
  exact ⟨hs, refl s, fun final hfinal _ => h final hfinal⟩

theorem throw {cause : Invalid} : Yields (throw cause : EStateM Invalid σ β) R :=
  fun s a t _ hrun => nomatch (show EStateM.Result.error cause s = .ok a t from hrun)

theorem guard {c : Prop} [Decidable c] {cause : Invalid} {k : α → EStateM Invalid σ β}
    {y : EStateM Invalid σ β} (h : ¬ c → Yields y R) :
    Yields (if c then MonadExcept.throw cause >>= k else y) R := by
  split
  · exact fun s a t _ hrun => nomatch (show EStateM.Result.error cause s = .ok a t from hrun)
  next hc => exact h hc

theorem ite {c : Prop} [Decidable c] {y : EStateM Invalid σ α} (hx : c → Yields x P)
    (hy : ¬ c → Yields y P) : Yields (if c then x else y) P := by
  split
  next hc => exact hx hc
  next hc => exact hy hc

end Yields

end JvmClass
