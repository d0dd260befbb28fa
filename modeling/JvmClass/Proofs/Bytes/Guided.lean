/-
  Readers that follow other ones, with a guide.

  * `Reader.Tracks x y R`: where `x` reads something, `y` reads something related
    and stops at the same place;
  * `Reader.Guided x y z R E`: where `x` reads something, so does the guide `z`, and
    `y` follows `x` or fails for a cause that goes with what the guide reads there.
    A guide that only lists what is there says in this way where the fault lies.
-/
import JvmClass.Proofs.Bytes.Follows

namespace JvmClass.Reader

variable {α β γ δ ε ζ : Type}

/-- Where `x` reads something, `y` reads something related and stops at the
    same place. -/
abbrev Tracks (x : Reader α) (y : Reader β) (R : α → β → Prop) : Prop :=
  Follows x y R fun _ => False

theorem tracks_iff {x : Reader α} {y : Reader β} {R : α → β → Prop} :
    Tracks x y R ↔ ∀ c a d, x c = .ok a d → ∃ b, y c = .ok b d ∧ R a b := by
  constructor
  · intro h c a d hrun
    exact (h c a d hrun).resolve_right fun ⟨_, _, _, hfalse⟩ => hfalse
  · intro h c a d hrun
    exact .inl (h c a d hrun)

/-- What is returned in the end does not move the place. -/
theorem Follows.forget {x : Reader α} {z : Reader β} {f : α → Reader γ}
    (hx : Tracks x z fun _ _ => True) (hf : ∀ a, ∃ b, f a = Pure.pure b) :
    Tracks (x >>= f) z fun _ _ => True := by
  rw [tracks_iff]
  intro c b e hrun
  obtain ⟨a, d, ha, hb⟩ := bind_eq_ok.mp hrun
  obtain ⟨b', hpure⟩ := hf a
  rw [hpure] at hb
  cases hb
  exact tracks_iff.mp hx c a _ ha

/-- Where `x` reads something, so does `z`, and `y` reads something related to the
    former and stops at the same place, or fails for a cause that goes with the
    latter. -/
def Guided (x : Reader α) (y : Reader β) (z : Reader γ) (R : α → β → Prop)
    (E : γ → Malformed → Prop) : Prop :=
  ∀ c a d, x c = .ok a d → ∃ w e, z c = .ok w e ∧
    ((∃ b, y c = .ok b d ∧ R a b) ∨ ∃ cause f, y c = .error cause f ∧ E w cause)

namespace Guided

variable {x : Reader α} {y : Reader β} {z : Reader γ} {f : α → Reader δ} {g : β → Reader ε}
  {l : γ → Reader ζ} {R : α → β → Prop} {S : δ → ε → Prop} {E : γ → Malformed → Prop}
  {F : ζ → Malformed → Prop}

theorem causes {E' : γ → Malformed → Prop} (h : Guided x y z R E)
    (hE : ∀ w cause, E w cause → E' w cause) : Guided x y z R E' := by
  intro c a d hrun
  obtain ⟨w, e, hw, hfollows⟩ := h c a d hrun
  refine ⟨w, e, hw, hfollows.imp_right ?_⟩
  exact fun ⟨cause, f, hcause, hfails⟩ => ⟨cause, f, hcause, hE w cause hfails⟩

/-- After a step that both have in common, and that the guide tracks. -/
theorem front {g : α → Reader ε} (hx : Tracks x z fun _ _ => True)
    (h : ∀ a w, Guided (f a) (g a) (l w) S F) : Guided (x >>= f) (x >>= g) (z >>= l) S F := by
  intro c b e hrun
  obtain ⟨a, d, ha, hb⟩ := bind_eq_ok.mp hrun
  obtain ⟨w, hw, -⟩ := tracks_iff.mp hx c a d ha
  obtain ⟨v, u, hv, hfollows⟩ := h a w d b e hb
  refine ⟨v, u, bind_eq_ok.mpr ⟨w, d, hw, hv⟩, ?_⟩
  simpa only [Bind.bind, EStateM.bind, ha] using hfollows

theorem after {g : α → Reader ε} {l : α → Reader ζ} (h : ∀ a, Guided (f a) (g a) (l a) S F) :
    Guided (x >>= f) (x >>= g) (x >>= l) S F := by
  intro c b e hrun
  obtain ⟨a, d, ha, hb⟩ := bind_eq_ok.mp hrun
  obtain ⟨v, u, hv, hfollows⟩ := h a d b e hb
  refine ⟨v, u, bind_eq_ok.mpr ⟨a, d, ha, hv⟩, ?_⟩
  simpa only [Bind.bind, EStateM.bind, ha] using hfollows

/-- A result that the guide does not need. -/
theorem still {result : Except Malformed α} {g : α → Reader ε} {z : Reader ζ}
    (h : ∀ a, Guided (f a) (g a) z S F) :
    Guided ((liftM result : Reader α) >>= f) ((liftM result : Reader α) >>= g) z S F := by
  intro c b e hrun
  obtain ⟨a, d, hresult, hb⟩ := bind_eq_ok.mp hrun
  obtain ⟨rfl, rfl⟩ := liftM_eq_ok.mp hresult
  exact h a c b e hb

theorem guard {p : Prop} [Decidable p] {cause : Malformed} {k : γ → Reader α} {k' : γ → Reader β}
    {z : Reader ζ} {G : ζ → Malformed → Prop} (h : ¬ p → Guided x y z R G) :
    Guided (if p then throw cause >>= k else x) (if p then throw cause >>= k' else y) z R G := by
  split
  next => exact fun c a d hrun => nomatch (show EStateM.Result.error cause c = .ok a d from hrun)
  next hp => exact h hp

/-- What comes behind the part that needs a guide. -/
theorem behind (h : Guided x y z R E) (hf : ∀ a b, R a b → Tracks (f a) (g b) S) :
    Guided (x >>= f) (y >>= g) z S E := by
  intro c v e hrun
  obtain ⟨a, d, ha, hv⟩ := bind_eq_ok.mp hrun
  obtain ⟨w, u, hw, ⟨b, hb, hab⟩ | ⟨cause, e', hcause, hE⟩⟩ := h c a d ha
  · obtain ⟨v', hv', hS⟩ := tracks_iff.mp (hf a b hab) d v e hv
    exact ⟨w, u, hw, .inl ⟨v', bind_eq_ok.mpr ⟨b, d, hb, hv'⟩, hS⟩⟩
  · refine ⟨w, u, hw, .inr ⟨cause, e', ?_, hE⟩⟩
    simp only [Bind.bind, EStateM.bind, hcause]

/-- What the guide returns besides what it reads last. -/
theorem returning {k : γ → ζ} (h : Guided x y z R fun w => F (k w)) :
    Guided x y (do return k (← z)) R F := by
  intro c a d hrun
  obtain ⟨w, e, hw, hfollows⟩ := h c a d hrun
  exact ⟨k w, e, bind_eq_ok.mpr ⟨w, e, hw, rfl⟩, hfollows⟩

/-- Readers that take turns with themselves: the cause goes with one of the things
    that the guide reads. -/
theorem times (hx : Tracks x z fun _ _ => True) (h : Guided x y z R E) (n : Nat) :
    Guided (Reader.times n x) (Reader.times n y) (Reader.times n z) (List.Forall₂ R)
      fun ws cause => ∃ w ∈ ws, E w cause := by
  induction n with
  | zero =>
    intro c as d hrun
    cases hrun
    exact ⟨[], c, rfl, .inl ⟨[], rfl, .nil⟩⟩
  | succ n ih =>
    intro c as e hrun
    obtain ⟨a, d, more, ha, hmore, rfl⟩ := times_succ_eq_ok.mp hrun
    obtain ⟨w, hw, -⟩ := tracks_iff.mp hx c a d ha
    obtain ⟨_, _, hw', hfollows⟩ := h c a d ha
    cases hw.symm.trans hw'
    obtain ⟨ws, u, hws, hrest⟩ := ih d more e hmore
    refine ⟨w :: ws, u, times_succ_eq_ok.mpr ⟨w, d, ws, hw, hws, rfl⟩, ?_⟩
    rw [times_succ]
    simp only [Bind.bind, EStateM.bind]
    rcases hfollows with ⟨b, hb, hab⟩ | ⟨cause, f, hcause, hE⟩
    · rw [hb]
      rcases hrest with ⟨bs, hbs, hall⟩ | ⟨cause, f, hcause, v, hv, hE⟩
      · exact .inl ⟨b :: bs, by simp only [hbs]; rfl, .cons hab hall⟩
      · exact .inr ⟨cause, f, by simp only [hcause], v, .tail _ hv, hE⟩
    · exact .inr ⟨cause, f, by rw [hcause], w, .head _, hE⟩

theorem runOn (h : Guided x y z R E) (bytes : Bytes) :
    Result.Follows (x.runOn bytes) (y.runOn bytes) (fun p q => R p.1 q.1 ∧ p.2 = q.2)
      fun cause => ∃ w rest, z.runOn bytes = .ok (w, rest) ∧ E w cause := by
  rintro ⟨a, d⟩ hrun
  obtain ⟨w, rest, hw, ⟨b, hb, hab⟩ | ⟨cause, e, hcause, hE⟩⟩ := h _ a d (runOn_eq_ok.mp hrun)
  · exact .inl ⟨(b, d), runOn_eq_ok.mpr hb, hab, rfl⟩
  · exact .inr ⟨cause, runOn_eq_error.mpr ⟨e, hcause⟩, w, rest, runOn_eq_ok.mpr hw, hE⟩

end Guided

end JvmClass.Reader
