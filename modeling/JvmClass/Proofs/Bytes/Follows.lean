/-
  Readers that follow other ones.

  * `Result.Follows x y R E`: if `x` has a result, `y` has a related one, or
    fails for a cause in `E`;
  * `Reader.Follows x y R E`: where `x` reads something, `y` reads something
    related and stops at the same place, or fails for a cause in `E`;
  * both follow the structure of steps and readers: `bind`, `times`, `fold`,
    `runOn`.
-/
import JvmClass.Proofs.Bytes.Produces
import JvmClass.Proofs.Result
import Mathlib.Data.List.Forall2

namespace JvmClass

/-- If `x` has a result, `y` has a related one, or fails for a cause in `E`. -/
def Result.Follows {ε α β : Type} (x : Except ε α) (y : Except ε β) (R : α → β → Prop)
    (E : ε → Prop) : Prop :=
  ∀ a, x = .ok a → (∃ b, y = .ok b ∧ R a b) ∨ ∃ cause, y = .error cause ∧ E cause

namespace Result.Follows

variable {ε α β : Type} {x y : Except ε α} {f g : α → Except ε β} {E : ε → Prop}

theorem same : Result.Follows x x (· = ·) E := fun a h => .inl ⟨a, h, rfl⟩

/-- What the first of two results holds, the second one holds as well. -/
theorem of_grows (h : ∀ a, x = .ok a → y = .ok a) : Result.Follows x y (· = ·) E :=
  fun a hx => .inl ⟨a, h a hx, rfl⟩

theorem bindEq (h : Result.Follows x y (· = ·) E)
    (hf : ∀ a, Result.Follows (f a) (g a) (· = ·) E) :
    Result.Follows (x >>= f) (y >>= g) (· = ·) E := by
  intro b hrun
  obtain ⟨a, hx, hb⟩ := bind_eq_ok.mp hrun
  rcases h a hx with ⟨_, rfl, rfl⟩ | ⟨cause, rfl, hcause⟩
  · exact hf a b hb
  · exact .inr ⟨cause, rfl, hcause⟩

theorem mapM (h : ∀ a, Result.Follows (f a) (g a) (· = ·) E) (items : List α) :
    Result.Follows (items.mapM f) (items.mapM g) (· = ·) E := by
  induction items with
  | nil => exact same
  | cons a items ih =>
    rw [List.mapM_cons, List.mapM_cons]
    exact (h a).bindEq fun b => ih.bindEq fun bs => same

end Result.Follows

namespace Reader

variable {α β γ δ : Type}

/-- Where `x` reads something, `y` reads something related and stops at the
    same place, or fails for a cause in `E`. -/
def Follows (x : Reader α) (y : Reader β) (R : α → β → Prop) (E : Malformed → Prop) : Prop :=
  ∀ c a d, x c = .ok a d →
    (∃ b, y c = .ok b d ∧ R a b) ∨ ∃ cause e, y c = .error cause e ∧ E cause

namespace Follows

variable {x : Reader α} {y : Reader β} {f : α → Reader γ} {g : β → Reader δ}
  {R : α → β → Prop} {S : γ → δ → Prop} {E : Malformed → Prop}

theorem same : Follows x x (· = ·) E := fun _ a _ h => .inl ⟨a, h, rfl⟩

theorem mono {R' : α → β → Prop} (h : Follows x y R E) (hR : ∀ a b, R a b → R' a b) :
    Follows x y R' E :=
  fun c a d hrun => (h c a d hrun).imp_left fun ⟨b, hb, hab⟩ => ⟨b, hb, hR a b hab⟩

theorem causes {E' : Malformed → Prop} (h : Follows x y R E) (hE : ∀ cause, E cause → E' cause) :
    Follows x y R E' :=
  fun c a d hrun => (h c a d hrun).imp_right fun ⟨cause, e, hy, hcause⟩ =>
    ⟨cause, e, hy, hE cause hcause⟩

theorem bind (h : Follows x y R E) (hf : ∀ a b, R a b → Follows (f a) (g b) S E) :
    Follows (x >>= f) (y >>= g) S E := by
  intro c z e hrun
  obtain ⟨a, d, hx, hz⟩ := bind_eq_ok.mp hrun
  rcases h c a d hx with ⟨b, hy, hab⟩ | ⟨cause, e', hy, hcause⟩
  · simp only [Bind.bind, EStateM.bind, hy]
    exact hf a b hab d z e hz
  · refine .inr ⟨cause, e', ?_, hcause⟩
    simp only [Bind.bind, EStateM.bind, hy]

theorem after {g : α → Reader δ} (hf : ∀ a, Follows (f a) (g a) S E) :
    Follows (x >>= f) (x >>= g) S E :=
  same.bind fun a _ h => h ▸ hf a

theorem pure {a : α} {b : β} (h : R a b) : Follows (Pure.pure a) (Pure.pure b) R E := by
  intro c a' d hrun
  cases hrun
  exact .inl ⟨b, rfl, h⟩

theorem ofExcept {x : Except Malformed α} {y : Except Malformed β} (h : Result.Follows x y R E) :
    Follows (liftM x : Reader α) (liftM y : Reader β) R E := by
  intro c a d hrun
  obtain ⟨hx, rfl⟩ := liftM_eq_ok.mp hrun
  rcases h a hx with ⟨b, hy, hab⟩ | ⟨cause, hy, hcause⟩
  · exact .inl ⟨b, liftM_eq_ok.mpr ⟨hy, rfl⟩, hab⟩
  · refine .inr ⟨cause, c, ?_, hcause⟩
    rw [hy]
    rfl

theorem lift {x : Except Malformed α} {y : Except Malformed β} (h : Result.Follows x y R E)
    (hf : ∀ a b, R a b → Follows (f a) (g b) S E) :
    Follows ((liftM x : Reader α) >>= f) ((liftM y : Reader β) >>= g) S E :=
  (ofExcept h).bind hf

theorem guard {p : Prop} [Decidable p] {cause : Malformed} {k : α → Reader γ} {l : α → Reader δ}
    {x : Reader γ} {y : Reader δ} (h : ¬ p → Follows x y S E) :
    Follows (if p then throw cause >>= k else x) (if p then throw cause >>= l else y) S E := by
  split
  next => exact fun c a d hrun => nomatch (show EStateM.Result.error cause c = .ok a d from hrun)
  next hp => exact h hp

theorem require {p : Prop} [Decidable p] {cause : Malformed} {k : α → Reader γ}
    {l : α → Reader δ} {x : Reader γ} {y : Reader δ} (h : p → Follows x y S E) :
    Follows (if p then x else throw cause >>= k) (if p then y else throw cause >>= l) S E := by
  split
  next hp => exact h hp
  next => exact fun c a d hrun => nomatch (show EStateM.Result.error cause c = .ok a d from hrun)

theorem ite {p : Prop} [Decidable p] {x x' : Reader α} {y y' : Reader β}
    (h : p → Follows x y R E) (h' : ¬ p → Follows x' y' R E) :
    Follows (if p then x else x') (if p then y else y') R E := by
  split
  next hp => exact h hp
  next hp => exact h' hp

theorem timesRev (h : Follows x y R E) (n : Nat) {done : List α} {done' : List β}
    (hdone : List.Forall₂ R done done') :
    Follows (Reader.timesRev x n done) (Reader.timesRev y n done') (List.Forall₂ R) E := by
  induction n generalizing done done' with
  | zero => exact pure (List.rel_reverse hdone)
  | succ n ih => exact h.bind fun a b hab => ih (.cons hab hdone)

theorem times (h : Follows x y R E) (n : Nat) :
    Follows (Reader.times n x) (Reader.times n y) (List.Forall₂ R) E :=
  h.timesRev n .nil

theorem fold {σ τ : Type} {R : σ → τ → Prop} {step : σ → Reader σ} {step' : τ → Reader τ}
    (h : ∀ s t, R s t → Follows (step s) (step' t) R E) (n : Nat) {s : σ} {t : τ} (hst : R s t) :
    Follows (Reader.fold step n s) (Reader.fold step' n t) R E := by
  induction n generalizing s t with
  | zero => exact pure hst
  | succ n ih => exact (h s t hst).bind fun _ _ => ih

theorem runOn (h : Follows x y R E) (bytes : Bytes) :
    Result.Follows (x.runOn bytes) (y.runOn bytes) (fun p q => R p.1 q.1 ∧ p.2 = q.2) E := by
  rintro ⟨a, d⟩ hrun
  rcases h _ a d (runOn_eq_ok.mp hrun) with ⟨b, hy, hab⟩ | ⟨cause, e, hy, hcause⟩
  · exact .inl ⟨(b, d), runOn_eq_ok.mpr hy, hab, rfl⟩
  · exact .inr ⟨cause, runOn_eq_error.mpr ⟨e, hy⟩, hcause⟩

theorem runOn_map {f : α → γ} {g : β → δ} {bytes : Bytes}
    (h : Result.Follows (x.runOn bytes) (y.runOn bytes) (fun p q => R p.1 q.1 ∧ p.2 = q.2) E)
    (hfg : ∀ a b, R a b → S (f a) (g b)) :
    Result.Follows ((do return f (← x)).runOn bytes) ((do return g (← y)).runOn bytes)
      (fun p q => S p.1 q.1 ∧ p.2 = q.2) E := by
  rw [runOn_bind_pure, runOn_bind_pure]
  intro _ hrun
  obtain ⟨p, hp, rfl⟩ := Result.map_eq_ok.mp hrun
  rcases h p hp with ⟨q, hq, hR, hrest⟩ | ⟨cause, hcause, hE⟩
  · exact .inl ⟨_, Result.map_eq_ok.mpr ⟨q, hq, rfl⟩, hfg _ _ hR, hrest⟩
  · exact .inr ⟨cause, by rw [hcause]; rfl, hE⟩

end Follows

/-- What is known of what a reader reads, it follows itself with. -/
theorem Produces.follows {x : Reader α} {P : α → Prop} {E : Malformed → Prop}
    (h : Produces x P) : Follows x x (fun a b => a = b ∧ P a) E :=
  fun c a d hrun => .inl ⟨a, hrun, rfl, h c a d hrun⟩

end Reader

end JvmClass
