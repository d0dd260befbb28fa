/-
  What readers read off the bytes ahead of them.

  * `Cursor.between before after` is the cursor with `before` behind and
    `after` ahead;
  * `Reader.ReadsAt before after r w a`: standing between `before` and
    `w ++ after`, the reader `r` reads `a` off `w` and stops behind `w`;
  * `Reader.Reads r w a`: it does so wherever it stands;
  * both follow the structure of a reader (`bind`, `lift`, `map`, `times`,
    `fold`), and `reads_u1`, `reads_u2`, `reads_u4` and `reads_u8` are the
    words;
  * `runOn_of_reads` runs a reader on bytes of its own.
-/
import JvmClass.Bytes.Cursor
import Mathlib.Data.List.Forall2

namespace JvmClass

/-- The cursor with `before` behind and `after` ahead. -/
def Cursor.between (before after : Bytes) : Cursor :=
  ⟨(before ++ after).toArray, before.length⟩

namespace Cursor

variable (before after : Bytes)

theorem ofBytes_eq_between : ofBytes after = between [] after := rfl

@[simp] theorem position_between : (between before after).position = before.length := rfl

@[simp] theorem size_between :
    (between before after).bytes.size = before.length + after.length := by
  simp [between]

@[simp] theorem rest_between : (between before after).rest = after := by
  simp [between, rest]

@[simp] theorem remaining_between : (between before after).remaining = after.length := by
  simp [remaining]

@[simp] theorem isEmpty_between : (between before after).isEmpty = after.isEmpty := by
  cases after <;> simp [isEmpty]

theorem between_append (w : Bytes) :
    { between before (w ++ after) with position := before.length + w.length } =
      between (before ++ w) after := by
  simp [between]

end Cursor

namespace Reader

variable {α β : Type}

/-- Standing between `before` and `w ++ after`, `reader` reads `a` off `w` and
    stops behind it. -/
def ReadsAt (before after : Bytes) (reader : Reader α) (w : Bytes) (a : α) : Prop :=
  reader (.between before (w ++ after)) = .ok a (.between (before ++ w) after)

/-- Wherever it stands, `reader` reads `a` off `w` and stops behind it. -/
def Reads (reader : Reader α) (w : Bytes) (a : α) : Prop :=
  ∀ before after, ReadsAt before after reader w a

/-! ## Composition -/

section
variable {before after w w₁ w₂ : Bytes} {a : α} {b : β} {x : Reader α} {f : α → Reader β}

theorem ReadsAt.pure : ReadsAt before after (pure a) [] a := by
  simp [ReadsAt, EStateM.pure, Pure.pure]

theorem ReadsAt.bind (hx : ReadsAt before (w₂ ++ after) x w₁ a)
    (hf : ReadsAt (before ++ w₁) after (f a) w₂ b) :
    ReadsAt before after (x >>= f) (w₁ ++ w₂) b := by
  unfold ReadsAt at hx hf ⊢
  rw [List.append_assoc]
  simp only [Bind.bind, EStateM.bind, hx, hf, List.append_assoc]

theorem ReadsAt.bindNil (hx : ReadsAt before (w ++ after) x [] a)
    (hf : ReadsAt before after (f a) w b) : ReadsAt before after (x >>= f) w b := by
  unfold ReadsAt at hx hf ⊢
  rw [List.nil_append, List.append_nil] at hx
  simp only [Bind.bind, EStateM.bind, hx, hf]

theorem ReadsAt.bindDone (hx : ReadsAt before after x w a)
    (hf : ReadsAt (before ++ w) after (f a) [] b) : ReadsAt before after (x >>= f) w b := by
  unfold ReadsAt at hx hf ⊢
  rw [List.nil_append, List.append_nil] at hf
  simp only [Bind.bind, EStateM.bind, hx, hf]

theorem ReadsAt.lift {e : Except Malformed α} (he : e = .ok a)
    (hf : ReadsAt before after (f a) w b) :
    ReadsAt before after ((liftM e : Reader α) >>= f) w b := by
  subst he; exact ReadsAt.bindNil (a := a) (by exact ReadsAt.pure) hf

theorem ReadsAt.map {g : α → β} (hx : ReadsAt before after x w a) :
    ReadsAt before after (x >>= fun a => Pure.pure (g a)) w (g a) := by
  exact hx.bindDone ReadsAt.pure

theorem Reads.pure : Reads (Pure.pure a : Reader α) [] a := fun _ _ => ReadsAt.pure

theorem Reads.bind (hx : Reads x w₁ a) (hf : Reads (f a) w₂ b) :
    Reads (x >>= f) (w₁ ++ w₂) b :=
  fun _ _ => (hx _ _).bind (hf _ _)

theorem Reads.bindDone (hx : Reads x w a) (hf : Reads (f a) [] b) : Reads (x >>= f) w b :=
  fun _ _ => (hx _ _).bindDone (hf _ _)

theorem Reads.lift {e : Except Malformed α} (he : e = .ok a) (hf : Reads (f a) w b) :
    Reads ((liftM e : Reader α) >>= f) w b :=
  fun _ _ => .lift he (hf _ _)

theorem Reads.map {g : α → β} (hx : Reads x w a) :
    Reads (x >>= fun a => Pure.pure (g a)) w (g a) :=
  fun _ _ => (hx _ _).map

theorem Reads.map' {g : α → β} (hx : Reads x w a) : Reads (g <$> x) w (g a) :=
  fun before after => (hx before after).map

theorem Reads.ofExcept {e : Except Malformed α} (he : e = .ok a) :
    Reads (liftM e : Reader α) [] a := by
  subst he; exact Reads.pure

/-- A step that turns what was read into something else, or fails. -/
theorem Reads.thenOk {e : α → Except Malformed β} (hx : Reads x w a) (he : e a = .ok b) :
    Reads (x >>= fun a => (liftM (e a) : Reader β)) w b := by
  exact hx.bindDone (Reads.ofExcept he)

/-- A step that turns what was read into something else and puts it to use. -/
theorem Reads.thenMap {γ : Type} {e : α → Except Malformed β} {g : β → γ} (hx : Reads x w a)
    (he : e a = .ok b) :
    Reads (x >>= fun a => (liftM (e a) : Reader β) >>= fun b => Pure.pure (g b)) w (g b) := by
  exact hx.bindDone (Reads.lift he Reads.pure)

end

/-! ## Words -/

theorem reads_take (w : Bytes) : Reads (take w.length) w w := by
  intro before after
  have hslice : (Cursor.between before (w ++ after)).slice w.length = w := by
    rw [Cursor.slice_eq_take, Cursor.rest_between, List.take_left]
  rw [ReadsAt, take_of_le (by simp), hslice, Cursor.position_between,
    Cursor.between_append]

theorem reads_take_of_length {w : Bytes} {k : Nat} (h : w.length = k) : Reads (take k) w w :=
  h ▸ reads_take w

theorem reads_skip {w : Bytes} {k : Nat} (h : w.length = k) : Reads (skip k) w () :=
  (reads_take_of_length h).map (g := fun _ => ())

theorem reads_number (width n : Nat) (h : n < Nat.pow 256 width) :
    Reads (number width) (Bytes.ofNat width n) n := by
  have := (reads_take_of_length (Bytes.length_ofNat width n)).map (g := Bytes.toNat)
  rwa [Bytes.toNat_ofNat, Nat.mod_eq_of_lt h] at this

theorem reads_u1 (v : UInt8) : Reads u1 [v] v := by
  have := (reads_number 1 v.toNat v.toNat_lt).map (g := UInt8.ofNat)
  rwa [UInt8.ofNat_toNat, show Bytes.ofNat 1 v.toNat = [v] by simp [Bytes.ofNat]] at this

theorem reads_u2 (v : UInt16) : Reads u2 (Bytes.u2 v) v := by
  have := (reads_number 2 v.toNat v.toNat_lt).map (g := UInt16.ofNat)
  rwa [UInt16.ofNat_toNat] at this

theorem reads_u4 (v : UInt32) : Reads u4 (Bytes.u4 v) v := by
  have := (reads_number 4 v.toNat v.toNat_lt).map (g := UInt32.ofNat)
  rwa [UInt32.ofNat_toNat] at this

theorem reads_u8 (v : UInt64) : Reads u8 (Bytes.u8 v) v := by
  have := (reads_number 8 v.toNat v.toNat_lt).map (g := UInt64.ofNat)
  rwa [UInt64.ofNat_toNat] at this

theorem reads_i1 (v : Int8) : Reads i1 [v.toUInt8] v :=
  (reads_u1 v.toUInt8).map (g := UInt8.toInt8)

theorem reads_i2 (v : Int16) : Reads i2 (Bytes.u2 v.toUInt16) v :=
  (reads_u2 v.toUInt16).map (g := UInt16.toInt16)

theorem reads_i4 (v : Int32) : Reads i4 (Bytes.u4 v.toUInt32) v :=
  (reads_u4 v.toUInt32).map (g := UInt32.toInt32)

theorem reads_i8 (v : Int64) : Reads i8 (Bytes.u8 v.toUInt64) v :=
  (reads_u8 v.toUInt64).map (g := UInt64.toInt64)

theorem Reads.consU1 {v : UInt8} {f : UInt8 → Reader β} {w : Bytes} {b : β}
    (hf : Reads (f v) w b) : Reads (u1 >>= f) (v :: w) b :=
  (reads_u1 v).bind hf

theorem Reads.consIndex {v : UInt16} {e : UInt16 → Except Malformed α} {f : α → Reader β}
    {w : Bytes} {a : α} {b : β} (he : e v = .ok a) (hf : Reads (f a) w b) :
    Reads (u2 >>= fun v => (liftM (e v) : Reader α) >>= f) (Bytes.u2 v ++ w) b :=
  (reads_u2 v).bind (Reads.lift he hf)

theorem reads_remaining (before after : Bytes) :
    ReadsAt before after remaining [] after.length := by
  show EStateM.Result.ok (Cursor.between before ([] ++ after)).remaining _ = _
  simp

theorem reads_position (before after : Bytes) :
    ReadsAt before after position [] before.length := by
  show EStateM.Result.ok (Cursor.between before ([] ++ after)).position _ = _
  simp

theorem reads_takeRest (before w : Bytes) : ReadsAt before [] takeRest w w := by
  have hremaining : ReadsAt before (w ++ []) remaining [] w.length := by
    simpa using reads_remaining before w
  exact hremaining.bindNil (reads_take w _ _)

theorem reads_skipRest (before w : Bytes) : ReadsAt before [] skipRest w () := by
  have hremaining : ReadsAt before (w ++ []) remaining [] w.length := by
    simpa using reads_remaining before w
  exact hremaining.bindNil (reads_skip rfl _ _)

theorem seek_between (before w after : Bytes) :
    seek before.length (.between (before ++ w) after) = .ok () (.between before (w ++ after)) := by
  show EStateM.Result.ok () { Cursor.between (before ++ w) after with position := before.length } = _
  simp [Cursor.between]

/-- A step that looks ahead, after which the same bytes are read again. -/
theorem ReadsAt.rewind {before after w : Bytes} {x : Reader α} {a : α} {f : α → Reader β} {b : β}
    (hx : ReadsAt before after x w a) (hf : ReadsAt before after (f a) w b) :
    ReadsAt before after (x >>= fun a => seek before.length >>= fun _ => f a) w b := by
  unfold ReadsAt at hx hf ⊢
  simp only [Bind.bind, EStateM.bind, hx, seek_between, hf]

/-! ## Repetition -/

theorem reads_timesRev {reader : Reader α} {ws : List Bytes} {as : List α}
    (h : List.Forall₂ (Reads reader) ws as) (done : List α) :
    Reads (timesRev reader as.length done) ws.flatten (done.reverse ++ as) := by
  induction h generalizing done with
  | nil => simpa [timesRev] using Reads.pure
  | @cons w a ws as hw _ ih =>
    have hrest := ih (a :: done)
    rw [List.reverse_cons, List.append_assoc] at hrest
    exact hw.bind hrest

theorem reads_times {reader : Reader α} {n : Nat} {ws : List Bytes} {as : List α}
    (h : List.Forall₂ (Reads reader) ws as) (hn : n = as.length) :
    Reads (times n reader) ws.flatten as := by
  subst hn; exact reads_timesRev h []

/-- Runs of `step` lead from one state to another over the bytes of each. -/
inductive Passes {σ : Type} (step : σ → Reader σ) : σ → List Bytes → σ → Prop where
  | nil (s : σ) : Passes step s [] s
  | cons {s t u : σ} {w : Bytes} {ws : List Bytes} (hstep : Reads (step s) w t)
      (hrest : Passes step t ws u) : Passes step s (w :: ws) u

theorem reads_fold {σ : Type} {step : σ → Reader σ} {n : Nat} {s t : σ} {ws : List Bytes}
    (h : Passes step s ws t) (hn : n = ws.length) : Reads (fold step n s) ws.flatten t := by
  subst hn
  induction h with
  | nil => exact Reads.pure
  | cons hstep _ ih => exact hstep.bind ih

/-! ## Bytes of their own -/

theorem runOn_of_reads {reader : Reader α} {w : Bytes} {a : α} (h : ReadsAt [] [] reader w a) :
    reader.runOn w = .ok (a, .between w []) := by
  unfold ReadsAt at h
  simp only [List.append_nil, List.nil_append] at h
  simp only [runOn, Cursor.ofBytes_eq_between, h]

end Reader

end JvmClass
