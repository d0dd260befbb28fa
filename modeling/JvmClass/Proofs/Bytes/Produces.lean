/-
  What is known of anything that a reader reads.

  * `Reader.Produces r post`: whatever `r` reads, wherever it stands, satisfies
    `post`;
  * it follows the structure of a reader (`bind`, `lift`, `guard`, `times`,
    `fold`), and `Produces.of_runOn` is about readers on bytes of their own;
  * `Reader.Forward r`: `r` never moves backwards nor past the end, and reads
    the bytes that it was given.
-/
import JvmClass.Bytes.Cursor

namespace JvmClass.Reader

variable {α β σ : Type}

/-- Whatever the reader reads satisfies `post`. -/
def Produces (reader : Reader α) (post : α → Prop) : Prop :=
  ∀ c a d, reader c = .ok a d → post a

theorem bind_eq_ok {x : Reader α} {f : α → Reader β} {c e : Cursor} {b : β} :
    (x >>= f) c = .ok b e ↔ ∃ a d, x c = .ok a d ∧ f a d = .ok b e := by
  simp only [Bind.bind, EStateM.bind]
  cases x c with
  | ok a d =>
    refine ⟨fun h => ⟨a, d, rfl, h⟩, ?_⟩
    rintro ⟨_, _, ⟨⟩, h⟩
    exact h
  | error => exact ⟨nofun, nofun⟩

theorem liftM_eq_ok {result : Except Malformed α} {c d : Cursor} {a : α} :
    (liftM result : Reader α) c = .ok a d ↔ result = .ok a ∧ c = d := by
  cases result with
  | ok b =>
    change EStateM.Result.ok b c = .ok a d ↔ _
    simp only [EStateM.Result.ok.injEq, Except.ok.injEq]
  | error cause =>
    change EStateM.Result.error cause c = .ok a d ↔ _
    simp

theorem runOn_eq_ok {x : Reader α} {bytes : Bytes} {a : α} {c : Cursor} :
    x.runOn bytes = .ok (a, c) ↔ x (.ofBytes bytes) = .ok a c := by
  unfold runOn
  split
  next b d hrun => rw [hrun]; simp
  next cause d hrun => rw [hrun]; exact ⟨nofun, nofun⟩

theorem runOn_eq_error {x : Reader α} {bytes : Bytes} {cause : Malformed} :
    x.runOn bytes = .error cause ↔ ∃ c, x (.ofBytes bytes) = .error cause c := by
  unfold runOn
  split
  next b d hrun => rw [hrun]; simp
  next cause' d hrun => rw [hrun]; simp

/-- Changing what was read does not change where reading stops. -/
theorem runOn_bind_pure (x : Reader α) (f : α → β) (bytes : Bytes) :
    (x >>= fun a => pure (f a)).runOn bytes = (fun p => (f p.1, p.2)) <$> x.runOn bytes := by
  unfold runOn
  simp only [Bind.bind, EStateM.bind]
  cases x (.ofBytes bytes) <;> rfl

theorem timesRev_eq (x : Reader α) (n : Nat) (done : List α) :
    timesRev x n done = (done.reverse ++ ·) <$> times n x := by
  induction n generalizing done with
  | zero => simp [times, timesRev]
  | succ n ih => simp [times, timesRev, ih (_ :: done), ih [_]]

theorem times_succ (x : Reader α) (n : Nat) :
    times (n + 1) x = (do let a ← x; let more ← times n x; return a :: more) := by
  simp [times, timesRev, timesRev_eq x n [_]]

theorem times_succ_eq_ok {x : Reader α} {n : Nat} {c e : Cursor} {as : List α} :
    times (n + 1) x c = .ok as e ↔
      ∃ a d more, x c = .ok a d ∧ times n x d = .ok more e ∧ as = a :: more := by
  rw [times_succ, bind_eq_ok]
  constructor
  · rintro ⟨a, d, hx, h⟩
    obtain ⟨more, _, hmore, h⟩ := bind_eq_ok.mp h
    cases h
    exact ⟨a, d, more, hx, hmore, rfl⟩
  · rintro ⟨a, d, more, hx, hmore, rfl⟩
    exact ⟨a, d, hx, bind_eq_ok.mpr ⟨more, e, hmore, rfl⟩⟩

theorem word_le (v : UInt16) : v.toNat ≤ 0xFFFF := Nat.le_of_lt_succ v.toNat_lt

theorem byte_le (v : UInt8) : v.toNat ≤ 0xFF := Nat.le_of_lt_succ v.toNat_lt

namespace Produces

variable {x : Reader α} {f : α → Reader β} {P : α → Prop} {Q : β → Prop}

theorem any : Produces x fun _ => True := fun _ _ _ _ => trivial

theorem mono {P' : α → Prop} (hx : Produces x P) (h : ∀ a, P a → P' a) : Produces x P' :=
  fun c a d hrun => h a (hx c a d hrun)

theorem bind (hx : Produces x P) (hf : ∀ a, P a → Produces (f a) Q) : Produces (x >>= f) Q := by
  intro c b e hrun
  obtain ⟨a, d, hxrun, hfrun⟩ := bind_eq_ok.mp hrun
  exact hf a (hx c a d hxrun) d b e hfrun

theorem after (hf : ∀ a, Produces (f a) Q) : Produces (x >>= f) Q := any.bind fun a _ => hf a

theorem pure {b : β} (h : Q b) : Produces (Pure.pure b) Q := by
  intro c a d hrun
  obtain ⟨rfl, -⟩ : b = a ∧ c = d := by simpa [Pure.pure, EStateM.pure] using hrun
  exact h

theorem throw {cause : Malformed} : Produces (throw cause : Reader β) Q :=
  fun c a d hrun => nomatch (show EStateM.Result.error cause c = .ok a d from hrun)

theorem guard {c : Prop} [Decidable c] {cause : Malformed} {k : α → Reader β} {y : Reader β}
    (h : ¬ c → Produces y Q) :
    Produces (if c then MonadExcept.throw cause >>= k else y) Q := by
  split
  · exact fun c a d hrun => nomatch (show EStateM.Result.error cause c = .ok a d from hrun)
  next hc => exact h hc

theorem require {c : Prop} [Decidable c] {cause : Malformed} {k : α → Reader β} {y : Reader β}
    (h : c → Produces y Q) :
    Produces (if c then y else MonadExcept.throw cause >>= k) Q := by
  split
  next hc => exact h hc
  · exact fun c a d hrun => nomatch (show EStateM.Result.error cause c = .ok a d from hrun)

theorem ite {c : Prop} [Decidable c] {x y : Reader α} (hx : c → Produces x P)
    (hy : ¬ c → Produces y P) : Produces (if c then x else y) P := by
  split
  next hc => exact hx hc
  next hc => exact hy hc

theorem lift {result : Except Malformed α} (hf : ∀ a, result = .ok a → Produces (f a) Q) :
    Produces ((liftM result : Reader α) >>= f) Q := by
  intro c b e hrun
  obtain ⟨a, d, hresult, hfrun⟩ := bind_eq_ok.mp hrun
  exact hf a (liftM_eq_ok.mp hresult).1 d b e hfrun

theorem of_runOn (hx : Produces x P) {bytes : Bytes} {a : α} {c : Cursor}
    (h : x.runOn bytes = .ok (a, c)) : P a := hx _ _ _ (runOn_eq_ok.mp h)

theorem timesRev (hx : Produces x P) (n : Nat) (done : List α) :
    Produces (Reader.timesRev x n done) fun as =>
      ∃ more, as = done.reverse ++ more ∧ more.length = n ∧ ∀ a ∈ more, P a := by
  induction n generalizing done with
  | zero => exact .pure ⟨[], by simp, rfl, nofun⟩
  | succ n ih =>
    refine hx.bind fun a ha => (ih (a :: done)).mono ?_
    rintro as ⟨more, rfl, hlength, hmore⟩
    exact ⟨a :: more, by simp, by simp [hlength], List.forall_mem_cons.mpr ⟨ha, hmore⟩⟩

theorem times (hx : Produces x P) (n : Nat) :
    Produces (Reader.times n x) fun as => as.length = n ∧ ∀ a ∈ as, P a := by
  refine (hx.timesRev n []).mono ?_
  rintro as ⟨more, rfl, hlength, hmore⟩
  exact ⟨hlength, hmore⟩

theorem counted (hx : Produces x P) :
    Produces (do Reader.times (← u2).toNat x) fun as => as.length ≤ 0xFFFF ∧ ∀ a ∈ as, P a :=
  after fun count => (hx.times count.toNat).mono fun _ h =>
    ⟨h.1 ▸ word_le count, h.2⟩

theorem byteCounted (hx : Produces x P) :
    Produces (do Reader.times (← u1).toNat x) fun as => as.length ≤ 0xFF ∧ ∀ a ∈ as, P a :=
  after fun count => (hx.times count.toNat).mono fun _ h =>
    ⟨h.1 ▸ byte_le count, h.2⟩

theorem fold {step : σ → Reader σ} {I : Nat → σ → Prop}
    (hstep : ∀ n s, I n s → Produces (step s) (I (n + 1))) (n : Nat) {start : Nat} {s : σ}
    (hs : I start s) : Produces (Reader.fold step n s) (I (start + n)) := by
  induction n generalizing start s with
  | zero => exact .pure hs
  | succ n ih =>
    refine (hstep start s hs).bind fun t ht => (ih ht).mono fun u hu => ?_
    rwa [show start + (n + 1) = start + 1 + n by omega]

end Produces

/-! ## Movement -/

/-- The reader stays on the bytes it was given and never moves backwards nor
    past the end. -/
def Forward (reader : Reader α) : Prop :=
  ∀ c a d, reader c = .ok a d →
    d.bytes = c.bytes ∧ c.position ≤ d.position ∧
      (c.position ≤ c.bytes.size → d.position ≤ d.bytes.size)

namespace Forward

variable {x : Reader α} {f : α → Reader β}

theorem bind (hx : Forward x) (hf : ∀ a, Forward (f a)) : Forward (x >>= f) := by
  intro c b e hrun
  obtain ⟨a, d, hxrun, hfrun⟩ := bind_eq_ok.mp hrun
  obtain ⟨hbytes, hle, hend⟩ := hx c a d hxrun
  obtain ⟨hbytes', hle', hend'⟩ := hf a d b e hfrun
  exact ⟨hbytes'.trans hbytes, Nat.le_trans hle hle', fun h => hend' (hend h)⟩

theorem pure {b : β} : Forward (Pure.pure b : Reader β) := by
  intro c a d hrun
  obtain ⟨-, rfl⟩ : b = a ∧ c = d := by simpa [Pure.pure, EStateM.pure] using hrun
  exact ⟨rfl, Nat.le_refl _, id⟩

theorem throw {cause : Malformed} : Forward (MonadExcept.throw cause : Reader β) :=
  fun c a d hrun => nomatch (show EStateM.Result.error cause c = .ok a d from hrun)

theorem ite {c : Prop} [Decidable c] {x y : Reader α} (hx : Forward x) (hy : Forward y) :
    Forward (if c then x else y) := by
  split
  · exact hx
  · exact hy

theorem guard {c : Prop} [Decidable c] {cause : Malformed} {k : α → Reader β} {y : Reader β}
    (hy : Forward y) : Forward (if c then MonadExcept.throw cause >>= k else y) :=
  .ite (fun c _ d hrun => nomatch (show EStateM.Result.error cause c = .ok _ d from hrun)) hy

theorem require {c : Prop} [Decidable c] {cause : Malformed} {k : α → Reader β} {y : Reader β}
    (hy : Forward y) : Forward (if c then y else MonadExcept.throw cause >>= k) :=
  .ite hy fun c _ d hrun => nomatch (show EStateM.Result.error cause c = .ok _ d from hrun)

theorem ofExcept (result : Except Malformed α) : Forward (liftM result : Reader α) := by
  intro c a d hrun
  obtain ⟨-, rfl⟩ := liftM_eq_ok.mp hrun
  exact ⟨rfl, Nat.le_refl _, id⟩

theorem lift {result : Except Malformed α} (hf : ∀ a, Forward (f a)) :
    Forward ((liftM result : Reader α) >>= f) := (ofExcept result).bind hf

theorem timesRev (hx : Forward x) (n : Nat) (done : List α) :
    Forward (Reader.timesRev x n done) := by
  induction n generalizing done with
  | zero => exact pure
  | succ n ih => exact hx.bind fun a => ih (a :: done)

theorem times (hx : Forward x) (n : Nat) : Forward (Reader.times n x) := hx.timesRev n []

end Forward

theorem take_eq_ok {k : Nat} {c d : Cursor} {w : Bytes} (h : take k c = .ok w d) :
    c.position + k ≤ c.bytes.size ∧ w = c.slice k ∧ d = { c with position := c.position + k } := by
  unfold take at h
  split at h
  next hle =>
    cases h
    exact ⟨hle, rfl, rfl⟩
  next => exact nomatch h

theorem forward_take (k : Nat) : Forward (take k) := by
  intro c w d hrun
  obtain ⟨hle, -, rfl⟩ := take_eq_ok hrun
  exact ⟨rfl, Nat.le_add_right .., fun _ => hle⟩

theorem forward_skip (k : Nat) : Forward (skip k) := (forward_take k).bind fun _ => .pure

theorem forward_number (k : Nat) : Forward (number k) := (forward_take k).bind fun _ => .pure

theorem forward_u1 : Forward u1 := (forward_number 1).bind fun _ => .pure
theorem forward_u2 : Forward u2 := (forward_number 2).bind fun _ => .pure
theorem forward_u4 : Forward u4 := (forward_number 4).bind fun _ => .pure
theorem forward_i1 : Forward i1 := forward_u1.bind fun _ => .pure
theorem forward_i2 : Forward i2 := forward_u2.bind fun _ => .pure
theorem forward_i4 : Forward i4 := forward_u4.bind fun _ => .pure

theorem position_eq_ok {c d : Cursor} {n : Nat} (h : position c = .ok n d) :
    n = c.position ∧ c = d := by
  cases h
  exact ⟨rfl, rfl⟩

theorem remaining_eq_ok {c d : Cursor} {n : Nat} (h : remaining c = .ok n d) :
    n = c.remaining ∧ c = d := by
  cases h
  exact ⟨rfl, rfl⟩

theorem forward_remaining : Forward remaining := by
  intro c n d hrun
  obtain ⟨-, rfl⟩ := remaining_eq_ok hrun
  exact ⟨rfl, Nat.le_refl _, id⟩

/-- Reading a byte moves on. -/
theorem lt_of_u1 {c d : Cursor} {v : UInt8} (h : u1 c = .ok v d) :
    d.bytes = c.bytes ∧ c.position < d.position ∧ d.position ≤ d.bytes.size := by
  obtain ⟨n, e, hnumber, h⟩ := bind_eq_ok.mp h
  obtain ⟨w, e', htake, hnumber⟩ := bind_eq_ok.mp hnumber
  obtain ⟨hle, -, rfl⟩ := take_eq_ok htake
  cases hnumber
  cases h
  exact ⟨rfl, Nat.lt_succ_self _, hle⟩

end JvmClass.Reader
