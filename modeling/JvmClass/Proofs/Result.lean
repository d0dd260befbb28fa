/-
  Results of steps that may fail.

  * `bind_eq_ok` and its relatives take a successful step apart, `bind_eq_error`
    and its relatives one that fails;
  * `exists_ok`: what a step returns, where it can be computed;
  * `mapM_eq_ok`: a step succeeds on every item of a list exactly if the
    results are those of the items one by one.
-/
import Mathlib.Data.List.Forall2

namespace JvmClass.Result

variable {ε α β : Type}

theorem bind_eq_ok {x : Except ε α} {f : α → Except ε β} {b : β} :
    x >>= f = .ok b ↔ ∃ a, x = .ok a ∧ f a = .ok b := by
  cases x <;> simp [Bind.bind, Except.bind]

/-- What goes on after a result only matters where there is one. -/
theorem bind_congr {x : Except ε α} {f g : α → Except ε β} (h : ∀ a, x = .ok a → f a = g a) :
    x >>= f = x >>= g := by
  cases x with
  | error e => rfl
  | ok a => exact h a rfl

theorem throw_bind_congr {e : ε} {f g : α → Except ε β} :
    (throw e : Except ε α) >>= f = throw e >>= g := rfl

theorem map_eq_ok {x : Except ε α} {f : α → β} {b : β} :
    f <$> x = .ok b ↔ ∃ a, x = .ok a ∧ f a = b := by
  cases x <;> simp [Functor.map, Except.map]

theorem bind_eq_error {x : Except ε α} {f : α → Except ε β} {e : ε} :
    x >>= f = .error e ↔ x = .error e ∨ ∃ a, x = .ok a ∧ f a = .error e := by
  cases x <;> simp [Bind.bind, Except.bind]

theorem map_eq_error {x : Except ε α} {f : α → β} {e : ε} :
    f <$> x = .error e ↔ x = .error e := by
  cases x <;> simp [Functor.map, Except.map]

@[simp] theorem pure_eq_ok {a b : α} : (pure a : Except ε α) = .ok b ↔ a = b := by
  simp [Pure.pure, Except.pure]

@[simp] theorem throw_ne_ok {e : ε} {a : α} : (throw e : Except ε α) ≠ .ok a := by
  simp [throw, throwThe, MonadExceptOf.throw]

theorem mapError_eq_ok {ε' : Type} {x : Except ε α} {f : ε → ε'} {a : α} :
    x.mapError f = .ok a ↔ x = .ok a := by
  cases x <;> simp [Except.mapError]

theorem mapError_eq_error {ε' : Type} {x : Except ε α} {f : ε → ε'} {e : ε'} :
    x.mapError f = .error e ↔ ∃ cause, x = .error cause ∧ f cause = e := by
  cases x <;> simp [Except.mapError]

theorem exists_ok {x : Except ε α} {p : α → Prop} [DecidablePred p]
    (h : x.toOption.any (fun a => p a) = true) : ∃ a, x = .ok a ∧ p a := by
  cases x with
  | ok a => exact ⟨a, rfl, of_decide_eq_true h⟩
  | error e => exact nomatch h

theorem guard_eq_ok {c : Prop} [Decidable c] {e : ε} {k : β → Except ε α} {x : Except ε α}
    {a : α} : (if c then MonadExcept.throw e >>= k else x) = .ok a ↔ ¬ c ∧ x = .ok a := by
  split
  next hc => exact ⟨nofun, fun h => absurd hc h.1⟩
  next hc => exact ⟨fun h => ⟨hc, h⟩, fun h => h.2⟩

theorem guard_eq_error {c : Prop} [Decidable c] {e cause : ε} {k : β → Except ε α}
    {x : Except ε α} :
    (if c then MonadExcept.throw e >>= k else x) = .error cause ↔
      c ∧ cause = e ∨ ¬ c ∧ x = .error cause := by
  split
  next hc =>
    refine ⟨fun h => .inl ⟨hc, ?_⟩, ?_⟩
    · cases h; rfl
    · rintro (⟨-, rfl⟩ | ⟨hnot, -⟩)
      · rfl
      · exact absurd hc hnot
  next hc => exact ⟨fun h => .inr ⟨hc, h⟩, fun h => h.elim (fun h => absurd h.1 hc) fun h => h.2⟩

/-- A step succeeds on every item exactly if the results are those of the
    items one by one. -/
theorem mapM_eq_ok {step : α → Except ε β} {items : List α} {results : List β} :
    items.mapM step = .ok results ↔ List.Forall₂ (fun a b => step a = .ok b) items results := by
  induction items generalizing results with
  | nil =>
    rw [List.mapM_nil, pure_eq_ok, List.forall₂_nil_left_iff]
    exact eq_comm
  | cons a items ih =>
    simp only [List.mapM_cons, bind_eq_ok, pure_eq_ok, List.forall₂_cons_left_iff, ih]
    constructor
    · rintro ⟨b, hb, bs, hbs, rfl⟩
      exact ⟨b, bs, hb, hbs, rfl⟩
    · rintro ⟨b, bs, hb, hbs, rfl⟩
      exact ⟨b, hb, bs, hbs, rfl⟩

theorem exists_of_mapM_eq_error {step : α → Except ε β} {items : List α} {e : ε}
    (h : items.mapM step = .error e) : ∃ a ∈ items, step a = .error e := by
  induction items with
  | nil => exact nomatch h
  | cons a items ih =>
    rw [List.mapM_cons] at h
    cases ha : step a with
    | error e' =>
      rw [ha] at h
      cases h
      exact ⟨a, .head _, ha⟩
    | ok b =>
      cases hrest : items.mapM step with
      | error e' =>
        rw [ha, hrest] at h
        cases h
        obtain ⟨c, hc, hfail⟩ := ih hrest
        exact ⟨c, .tail _ hc, hfail⟩
      | ok bs =>
        rw [ha, hrest] at h
        exact nomatch h

/-- A step that succeeds on every item has results for the items. -/
theorem exists_mapM {step : α → Except ε β} {items : List α}
    (h : ∀ a ∈ items, ∃ b, step a = .ok b) : ∃ results, items.mapM step = .ok results := by
  induction items with
  | nil => exact ⟨[], rfl⟩
  | cons a items ih =>
    rw [List.forall_mem_cons] at h
    obtain ⟨b, hb⟩ := h.1
    obtain ⟨bs, hbs⟩ := ih h.2
    exact ⟨b :: bs, mapM_eq_ok.mpr (.cons hb (mapM_eq_ok.mp hbs))⟩

/-- What every result of a step has, the results for the items of a list
    have. -/
theorem forall_of_mapM {step : α → Except ε β} {items : List α} {results : List β}
    {P : β → Prop} (h : items.mapM step = .ok results)
    (hstep : ∀ a ∈ items, ∀ b, step a = .ok b → P b) : ∀ b ∈ results, P b := by
  induction mapM_eq_ok.mp h with
  | nil => nofun
  | cons hb hrest ih =>
    refine List.forall_mem_cons.mpr ⟨hstep _ (.head _) _ hb, ?_⟩
    exact ih (mapM_eq_ok.mpr hrest) fun a ha => hstep a (.tail _ ha)

theorem forM_eq_ok {step : α → Except ε Unit} {items : List α} :
    items.forM step = .ok () ↔ ∀ a ∈ items, step a = .ok () := by
  induction items with
  | nil => simp [List.forM, Pure.pure, Except.pure]
  | cons a items ih =>
    rw [List.forM, bind_eq_ok, List.forall_mem_cons, ih]
    exact ⟨fun ⟨_, h⟩ => h, fun h => ⟨(), h⟩⟩

end JvmClass.Result
