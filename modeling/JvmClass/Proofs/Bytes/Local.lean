/-
  Readers that do not look past what they read.

  * `Cursor.extend c more` is the cursor `c` with `more` behind its bytes;
  * `Reader.Local r`: with more bytes behind, `r` reads the same and stops at
    the same place or fails for the same cause, unless it ran out of bytes;
  * it follows the structure of a reader (`bind`, `lift`, `times`, `fold`);
  * `Reader.peek r` reads what `r` reads and goes back to where it began.
-/
import JvmClass.Proofs.Bytes.Produces

namespace JvmClass

/-- A reader ran out of bytes. -/
def Malformed.IsEnd (cause : Malformed) : Prop :=
  ∃ position wanted left, cause = .unexpectedEnd position wanted left

/-- The cursor with `more` behind its bytes. -/
def Cursor.extend (c : Cursor) (more : Bytes) : Cursor := ⟨c.bytes ++ more.toArray, c.position⟩

namespace Cursor

theorem extend_ofBytes (bytes more : Bytes) :
    (ofBytes bytes).extend more = ofBytes (bytes ++ more) := by
  simp [extend, ofBytes]

theorem size_extend (c : Cursor) (more : Bytes) :
    (c.extend more).bytes.size = c.bytes.size + more.length := by
  simp [extend]

/-- What follows does not matter to a slice that lies inside the bytes. -/
theorem slice_extend {c : Cursor} {k : Nat} (h : c.position + k ≤ c.bytes.size) (more : Bytes) :
    (c.extend more).slice k = c.slice k := by
  have hposition : c.position ≤ c.bytes.toList.length := by simp; omega
  have hlength : k ≤ c.rest.length := by simp [remaining]; omega
  have hrest : (c.extend more).rest = c.rest ++ more := by
    simp only [rest, extend, Array.toList_append]
    exact List.drop_append_of_le_length hposition
  rw [slice_eq_take, slice_eq_take, hrest, List.take_append_of_le_length hlength]

end Cursor

namespace Reader

variable {α β σ : Type}

/-- With more bytes behind, the reader reads the same and stops at the same
    place or fails for the same cause, unless it ran out of bytes. -/
structure Local (reader : Reader α) : Prop where
  forward : Forward reader
  ok : ∀ {c d : Cursor} {a : α} (more : Bytes), reader c = .ok a d →
    reader (c.extend more) = .ok a (d.extend more)
  error : ∀ {c d : Cursor} {cause : Malformed} (more : Bytes), reader c = .error cause d →
    cause.IsEnd ∨ ∃ e, reader (c.extend more) = .error cause e

theorem bind_of_ok {x : Reader α} {c d : Cursor} {a : α} (h : x c = .ok a d) (f : α → Reader β) :
    (x >>= f) c = f a d := by
  simp only [Bind.bind, EStateM.bind, h]

theorem bind_of_error {x : Reader α} {c d : Cursor} {cause : Malformed} (h : x c = .error cause d)
    (f : α → Reader β) : (x >>= f) c = .error cause d := by
  simp only [Bind.bind, EStateM.bind, h]

namespace Local

variable {x : Reader α} {f : α → Reader β}

theorem bind (hx : Local x) (hf : ∀ a, Local (f a)) : Local (x >>= f) where
  forward := hx.forward.bind fun a => (hf a).forward
  ok := by
    intro c e b more hrun
    obtain ⟨a, d, hxrun, hfrun⟩ := bind_eq_ok.mp hrun
    exact bind_eq_ok.mpr ⟨a, _, hx.ok more hxrun, (hf a).ok more hfrun⟩
  error := by
    intro c e cause more hrun
    cases hxrun : x c with
    | error cause' d =>
      rw [bind_of_error hxrun] at hrun
      cases hrun
      refine (hx.error more hxrun).imp_right ?_
      rintro ⟨e', he'⟩
      exact ⟨e', bind_of_error he' f⟩
    | ok a d =>
      rw [bind_of_ok hxrun] at hrun
      refine ((hf a).error more hrun).imp_right ?_
      rintro ⟨e', he'⟩
      exact ⟨e', (bind_of_ok (hx.ok more hxrun) f).trans he'⟩

theorem pure {b : β} : Local (Pure.pure b : Reader β) where
  forward := .pure
  ok := by intro c d a more hrun; cases hrun; rfl
  error := by intro c d cause more hrun; cases hrun

theorem fails {x : Reader α} {cause : Malformed} (h : ∀ c, x c = .error cause c) : Local x where
  forward := by intro c a d hrun; rw [h] at hrun; cases hrun
  ok := by intro c d a more hrun; rw [h] at hrun; cases hrun
  error := by
    intro c d cause' more hrun
    rw [h] at hrun
    cases hrun
    exact .inr ⟨_, h _⟩

theorem throw {cause : Malformed} : Local (MonadExcept.throw cause : Reader β) := fails fun _ => rfl

theorem ite {c : Prop} [Decidable c] {x y : Reader α} (hx : Local x) (hy : Local y) :
    Local (if c then x else y) := by
  split
  · exact hx
  · exact hy

theorem guard {c : Prop} [Decidable c] {cause : Malformed} {k : α → Reader β} {y : Reader β}
    (hy : Local y) : Local (if c then MonadExcept.throw cause >>= k else y) :=
  .ite (fails fun _ => rfl) hy

theorem require {c : Prop} [Decidable c] {cause : Malformed} {k : α → Reader β} {y : Reader β}
    (hy : Local y) : Local (if c then y else MonadExcept.throw cause >>= k) :=
  .ite hy (fails fun _ => rfl)

theorem ofExcept (result : Except Malformed α) : Local (liftM result : Reader α) := by
  cases result with
  | ok a => exact pure
  | error cause => exact fails fun _ => rfl

theorem lift {result : Except Malformed α} (hf : ∀ a, Local (f a)) :
    Local ((liftM result : Reader α) >>= f) := (ofExcept result).bind hf

theorem timesRev (hx : Local x) (n : Nat) (done : List α) : Local (Reader.timesRev x n done) := by
  induction n generalizing done with
  | zero => exact pure
  | succ n ih => exact hx.bind fun a => ih (a :: done)

theorem times (hx : Local x) (n : Nat) : Local (Reader.times n x) := hx.timesRev n []

theorem fold {step : σ → Reader σ} (h : ∀ s, Local (step s)) (n : Nat) (s : σ) :
    Local (Reader.fold step n s) := by
  induction n generalizing s with
  | zero => exact pure
  | succ n ih => exact (h s).bind ih

end Local

/-! ## Bytes and words -/

theorem local_take (k : Nat) : Local (take k) where
  forward := forward_take k
  ok := by
    intro c d w more hrun
    obtain ⟨hle, rfl, rfl⟩ := take_eq_ok hrun
    have hmore : (c.extend more).position + k ≤ (c.extend more).bytes.size := by
      rw [Cursor.size_extend]
      exact Nat.le_trans hle (Nat.le_add_right ..)
    rw [take_of_le hmore, Cursor.slice_extend hle]
    rfl
  error := by
    intro c d cause more hrun
    unfold take at hrun
    split at hrun
    · cases hrun
    · cases hrun
      exact .inl ⟨_, _, _, rfl⟩

theorem local_skip (k : Nat) : Local (skip k) := (local_take k).bind fun _ => .pure

theorem local_number (k : Nat) : Local (number k) := (local_take k).bind fun _ => .pure

theorem local_u1 : Local u1 := (local_number 1).bind fun _ => .pure
theorem local_u2 : Local u2 := (local_number 2).bind fun _ => .pure
theorem local_u4 : Local u4 := (local_number 4).bind fun _ => .pure
theorem local_u8 : Local u8 := (local_number 8).bind fun _ => .pure
theorem local_i4 : Local i4 := local_u4.bind fun _ => .pure
theorem local_i8 : Local i8 := local_u8.bind fun _ => .pure

theorem local_position : Local position where
  forward := by
    intro c n d hrun
    obtain ⟨-, rfl⟩ := position_eq_ok hrun
    exact ⟨rfl, Nat.le_refl _, id⟩
  ok := by
    intro c d n more hrun
    obtain ⟨rfl, rfl⟩ := position_eq_ok hrun
    rfl
  error := by intro c d cause more hrun; cases hrun

/-- Read something and go back to where it began. -/
def peek (x : Reader α) : Reader α := do
  let start ← position
  let a ← x
  seek start
  return a

theorem peek_of_ok {x : Reader α} (hx : Forward x) {c d : Cursor} {a : α} (h : x c = .ok a d) :
    peek x c = .ok a c := by
  have hback : seek c.position d = .ok () c := by
    change EStateM.Result.ok () (⟨d.bytes, c.position⟩ : Cursor) = _
    rw [(hx c a d h).1]
  have hstart : position c = .ok c.position c := rfl
  rw [peek, bind_of_ok hstart, bind_of_ok h, bind_of_ok hback]
  rfl

theorem peek_of_error {x : Reader α} {c d : Cursor} {cause : Malformed} (h : x c = .error cause d) :
    peek x c = .error cause d := by
  have hstart : position c = .ok c.position c := rfl
  rw [peek, bind_of_ok hstart, bind_of_error h]

/-- What goes back over the bytes that it looked at. -/
theorem local_peek {x : Reader α} (hx : Local x) : Local (peek x) where
  forward := by
    intro c a d hrun
    cases hxrun : x c with
    | ok b e =>
      rw [peek_of_ok hx.forward hxrun] at hrun
      cases hrun
      exact ⟨rfl, Nat.le_refl _, id⟩
    | error cause e => rw [peek_of_error hxrun] at hrun; cases hrun
  ok := by
    intro c d a more hrun
    cases hxrun : x c with
    | ok b e =>
      rw [peek_of_ok hx.forward hxrun] at hrun
      cases hrun
      exact peek_of_ok hx.forward (hx.ok more hxrun)
    | error cause e => rw [peek_of_error hxrun] at hrun; cases hrun
  error := by
    intro c d cause more hrun
    cases hxrun : x c with
    | ok b e => rw [peek_of_ok hx.forward hxrun] at hrun; cases hrun
    | error cause' e =>
      rw [peek_of_error hxrun] at hrun
      cases hrun
      refine (hx.error more hxrun).imp_right ?_
      rintro ⟨e', he'⟩
      exact ⟨e', peek_of_error he'⟩

end Reader

end JvmClass
