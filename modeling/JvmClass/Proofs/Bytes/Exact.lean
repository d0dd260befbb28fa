/-
  Reading with a cursor is exact, and a read that fails moves nothing.

  * `Cursor.Op` are the operations on a cursor, with lengths and positions that
    are 64-bit words; `Op.run` carries one out, `Op.width` is the number of bytes
    that it is on and `Op.answer` what these bytes are to give;
  * `Op.run_eq`: an operation on `k` bytes answers what the next `k` bytes give
    and moves over them, or fails and does not move if there are fewer;
  * `Cursor.stop?` and `Cursor.left` are the end of a read and the bytes ahead as
    computed with words that wrap around, `stop?_eq` and `left_eq` what they are;
  * `reads_sub`: a sub cursor reads what its parent reads in the bytes that it
    moved over, and nothing else;
  * `Call` is an operation on one of several cursors, of which a sub cursor is a
    further one; `Cursor.calls` are the cursors after some calls, each of them
    `Within` the bytes of the first (`within_calls`) and moved by further calls,
    but not changed otherwise (`moves_calls`);
  * `exact_of_calls`: whatever was done before, each of the cursors is `Exact`.
-/
import JvmClass.Proofs.Bytes.Local
import JvmClass.Proofs.Bytes.Numbers

namespace JvmClass.Cursor

/-! ## Operations -/

/-- What can be done with a cursor. -/
inductive Op where
  | u1
  | u2
  | u4
  | i1
  | i2
  | i4
  | i8
  | bytes (length : UInt64)
  | skip (length : UInt64)
  | sub (length : UInt64)
  | seek (position : UInt64)

/-- What an operation answers. -/
inductive Answer where
  | number (n : Int)
  | bytes (bytes : Bytes)
  | moved
  | cursor (c : Cursor)

namespace Op

/-- Carry out an operation. -/
def run : Op → Reader Answer
  | u1 => do return .number (← Reader.u1).toNat
  | u2 => do return .number (← Reader.u2).toNat
  | u4 => do return .number (← Reader.u4).toNat
  | i1 => do return .number (← Reader.i1).toInt
  | i2 => do return .number (← Reader.i2).toInt
  | i4 => do return .number (← Reader.i4).toInt
  | i8 => do return .number (← Reader.i8).toInt
  | bytes length => do return .bytes (← Reader.take length.toNat)
  | skip length => do
    Reader.skip length.toNat
    return .moved
  | sub length => do return .cursor (← Reader.sub length.toNat)
  | seek position => do
    Reader.seek position.toNat
    return .moved

/-- The number of bytes that an operation is on; one that only moves to a
    position is on none. -/
def width : Op → Option UInt64
  | u1 | i1 => some 1
  | u2 | i2 => some 2
  | u4 | i4 => some 4
  | i8 => some 8
  | bytes length | skip length | sub length => some length
  | seek _ => none

/-- What an operation is to answer when it is on `w`. -/
def answer : Op → Bytes → Answer
  | u1, w | u2, w | u4, w => .number w.bigEndian
  | i1, w | i2, w | i4, w | i8, w => .number w.twosComplement
  | bytes _, w => .bytes w
  | skip _, _ | seek _, _ => .moved
  | sub _, w => .cursor (.ofBytes w)

variable {op : Op} {k : UInt64}

/-- Every operation on bytes takes them and looks at nothing else. -/
theorem exists_run_eq (hk : op.width = some k) :
    ∃ f : Bytes → Answer, op.run = (do return f (← Reader.take k.toNat)) ∧
      ∀ w : Bytes, w.length = k.toNat → f w = op.answer w := by
  cases op with
  | u1 =>
    cases hk
    refine ⟨fun w => .number (UInt8.ofNat w.toNat).toNat, ?_, fun w hw => ?_⟩
    · simp [run, Reader.u1, Reader.number]
    · have hword := Bytes.toNat_word (n := 8) (by rw [hw]; rfl)
      exact congrArg (fun n : Nat => Answer.number n) hword
  | u2 =>
    cases hk
    refine ⟨fun w => .number (UInt16.ofNat w.toNat).toNat, ?_, fun w hw => ?_⟩
    · simp [run, Reader.u2, Reader.number]
    · have hword := Bytes.toNat_word (n := 16) (by rw [hw]; rfl)
      exact congrArg (fun n : Nat => Answer.number n) hword
  | u4 =>
    cases hk
    refine ⟨fun w => .number (UInt32.ofNat w.toNat).toNat, ?_, fun w hw => ?_⟩
    · simp [run, Reader.u4, Reader.number]
    · have hword := Bytes.toNat_word (n := 32) (by rw [hw]; rfl)
      exact congrArg (fun n : Nat => Answer.number n) hword
  | i1 =>
    cases hk
    refine ⟨fun w => .number (UInt8.ofNat w.toNat).toInt8.toInt, ?_, fun w hw => ?_⟩
    · simp [run, Reader.i1, Reader.u1, Reader.number]
    · have hword := Bytes.toInt_word (n := 8) (by rw [hw]; rfl)
      exact congrArg Answer.number hword
  | i2 =>
    cases hk
    refine ⟨fun w => .number (UInt16.ofNat w.toNat).toInt16.toInt, ?_, fun w hw => ?_⟩
    · simp [run, Reader.i2, Reader.u2, Reader.number]
    · have hword := Bytes.toInt_word (n := 16) (by rw [hw]; rfl)
      exact congrArg Answer.number hword
  | i4 =>
    cases hk
    refine ⟨fun w => .number (UInt32.ofNat w.toNat).toInt32.toInt, ?_, fun w hw => ?_⟩
    · simp [run, Reader.i4, Reader.u4, Reader.number]
    · have hword := Bytes.toInt_word (n := 32) (by rw [hw]; rfl)
      exact congrArg Answer.number hword
  | i8 =>
    cases hk
    refine ⟨fun w => .number (UInt64.ofNat w.toNat).toInt64.toInt, ?_, fun w hw => ?_⟩
    · simp [run, Reader.i8, Reader.u8, Reader.number]
    · have hword := Bytes.toInt_word (n := 64) (by rw [hw]; rfl)
      exact congrArg Answer.number hword
  | bytes length =>
    cases hk
    exact ⟨.bytes, rfl, fun w _ => rfl⟩
  | skip length =>
    cases hk
    refine ⟨fun _ => .moved, ?_, fun w _ => rfl⟩
    simp [run, Reader.skip]
  | sub length =>
    cases hk
    refine ⟨fun w => .cursor (.ofBytes w), ?_, fun w _ => rfl⟩
    simp [run, Reader.sub]
  | seek => cases hk

/-- **An operation on `k` bytes is exact and atomic.**  It answers what the next
    `k` bytes give and moves over them, or fails and does not move if there are
    fewer. -/
theorem run_eq (hk : op.width = some k) (c : Cursor) :
    op.run c =
      if c.position + k.toNat ≤ c.bytes.size then
        .ok (op.answer (c.rest.take k.toNat)) { c with position := c.position + k.toNat }
      else .error (.unexpectedEnd c.position k.toNat c.remaining) c := by
  obtain ⟨f, hrun, hf⟩ := exists_run_eq hk
  rw [hrun]
  split
  next h =>
    have hlength : (c.slice k.toNat).length = k.toNat := by
      rw [slice_eq_take, List.length_take, length_rest, remaining]
      omega
    rw [Reader.bind_of_ok (Reader.take_of_le h), ← slice_eq_take, ← hf _ hlength]
    rfl
  next h => exact Reader.bind_of_error (Reader.take_of_lt (Nat.not_le.mp h)) _

theorem run_seek (position : UInt64) (c : Cursor) :
    (seek position).run c = .ok .moved { c with position := position.toNat } := rfl

theorem exists_seek (h : op.width = none) : ∃ position, op = seek position := by
  cases op with
  | seek position => exact ⟨position, rfl⟩
  | _ => cases h

theorem run_eq_ok (hk : op.width = some k) {c d : Cursor} {a : Answer} :
    op.run c = .ok a d ↔ c.position + k.toNat ≤ c.bytes.size ∧
      a = op.answer (c.rest.take k.toNat) ∧ d = { c with position := c.position + k.toNat } := by
  rw [run_eq hk]
  split
  next h =>
    constructor
    · intro hrun
      cases hrun
      exact ⟨h, rfl, rfl⟩
    · rintro ⟨-, rfl, rfl⟩
      rfl
  next h => exact ⟨nofun, fun hfits => (h hfits.1).elim⟩

/-- An operation that succeeds changes nothing but the position. -/
theorem exists_position {c d : Cursor} {a : Answer} (h : op.run c = .ok a d) :
    ∃ p, d = { c with position := p } := by
  cases hwidth : op.width with
  | none =>
    obtain ⟨position, rfl⟩ := exists_seek hwidth
    cases h
    exact ⟨position.toNat, rfl⟩
  | some k =>
    obtain ⟨-, -, hd⟩ := (run_eq_ok hwidth).mp h
    exact ⟨_, hd⟩

theorem run_eq_error {c d : Cursor} {cause : Malformed} :
    op.run c = .error cause d ↔ ∃ k, op.width = some k ∧ c.bytes.size < c.position + k.toNat ∧
      cause = .unexpectedEnd c.position k.toNat c.remaining ∧ d = c := by
  cases hwidth : op.width with
  | none =>
    obtain ⟨position, rfl⟩ := exists_seek hwidth
    exact ⟨nofun, nofun⟩
  | some k =>
    rw [run_eq hwidth]
    split
    next h =>
      refine ⟨nofun, ?_⟩
      rintro ⟨_, ⟨⟩, hlt, -⟩
      omega
    next h =>
      constructor
      · intro hrun
        cases hrun
        exact ⟨k, rfl, Nat.not_le.mp h, rfl, rfl⟩
      · rintro ⟨_, ⟨⟩, -, rfl, rfl⟩
        rfl

end Op

/-! ## Positions in words -/

/-- The sum of two words, unless it does not fit in a word. -/
def checkedAdd (a b : UInt64) : Option UInt64 := if a ≤ a + b then some (a + b) else none

/-- The difference of two words, or zero if the second one is greater. -/
def saturatingSub (a b : UInt64) : UInt64 := if b ≤ a then a - b else 0

theorem checkedAdd_eq (a b : UInt64) :
    (checkedAdd a b).map UInt64.toNat =
      if a.toNat + b.toNat < 2 ^ 64 then some (a.toNat + b.toNat) else none := by
  have ha := a.toNat_lt
  have hb := b.toNat_lt
  have hsum : (a + b).toNat = (a.toNat + b.toNat) % 2 ^ 64 := UInt64.toNat_add a b
  -- the sum wraps around exactly when it comes out smaller than what was added to
  have hle : a ≤ a + b ↔ a.toNat + b.toNat < 2 ^ 64 := by
    rw [UInt64.le_iff_toNat_le, hsum]
    omega
  unfold checkedAdd
  by_cases h : a.toNat + b.toNat < 2 ^ 64
  · rw [if_pos (hle.mpr h), if_pos h, Option.map_some, hsum, Nat.mod_eq_of_lt h]
  · rw [if_neg (mt hle.mp h), if_neg h, Option.map_none]

example : checkedAdd 0xFFFFFFFFFFFFFFFF 1 = none := by decide

theorem toNat_saturatingSub (a b : UInt64) : (saturatingSub a b).toNat = a.toNat - b.toNat := by
  unfold saturatingSub
  split
  next h => exact UInt64.toNat_sub_of_le a b h
  next h =>
    have hlt : a.toNat < b.toNat := UInt64.lt_iff_toNat_lt.mp (UInt64.not_le.mp h)
    exact (Nat.sub_eq_zero_of_le (Nat.le_of_lt hlt)).symm

/-- The end of the next `k` bytes as computed with words, if it is a word and the
    bytes reach that far. -/
def stop? (c : Cursor) (k : UInt64) : Option UInt64 :=
  (checkedAdd (.ofNat c.position) k).filter fun stop => stop ≤ .ofNat c.bytes.size

/-- How many bytes are ahead as computed with words. -/
def left (c : Cursor) : UInt64 := saturatingSub (.ofNat c.bytes.size) (.ofNat c.position)

section
variable {c : Cursor} (hsize : c.bytes.size < 2 ^ 64) (hposition : c.position < 2 ^ 64)
include hsize hposition

theorem stop?_eq (k : UInt64) :
    (c.stop? k).map UInt64.toNat =
      if c.position + k.toNat ≤ c.bytes.size then some (c.position + k.toNat) else none := by
  have hsum := checkedAdd_eq (.ofNat c.position) k
  rw [UInt64.toNat_ofNat_of_lt' hposition] at hsum
  unfold stop?
  cases hstop : checkedAdd (.ofNat c.position) k with
  | none =>
    rw [hstop] at hsum
    have hwrap : ¬ c.position + k.toNat < 2 ^ 64 := by
      intro h
      rw [if_pos h] at hsum
      cases hsum
    rw [if_neg (by omega)]
    rfl
  | some stop =>
    rw [hstop] at hsum
    have hvalue : stop.toNat = c.position + k.toNat := by
      split at hsum
      next => exact Option.some.inj hsum
      next => cases hsum
    have hle : stop ≤ .ofNat c.bytes.size ↔ c.position + k.toNat ≤ c.bytes.size := by
      rw [UInt64.le_iff_toNat_le, UInt64.toNat_ofNat_of_lt' hsize, hvalue]
    by_cases h : c.position + k.toNat ≤ c.bytes.size
    · simp [Option.filter, hle.mpr h, if_pos h, hvalue]
    · simp [Option.filter, mt hle.mp h, if_neg h]

theorem left_eq : c.left.toNat = c.remaining := by
  rw [left, toNat_saturatingSub, UInt64.toNat_ofNat_of_lt' hsize,
    UInt64.toNat_ofNat_of_lt' hposition, remaining]

end

/-! ## Sub cursors -/

theorem remaining_sub {c : Cursor} {k : Nat} (h : c.position + k ≤ c.bytes.size) :
    (ofBytes (c.rest.take k)).remaining = k := by
  simp [remaining, ofBytes]
  omega

/-- A sub cursor over `k` bytes reads at `j` what its parent reads `j` bytes
    behind their start, as long as that lies within the `k` bytes. -/
theorem reads_sub {c : Cursor} {k m : UInt64} {op : Op} (hm : op.width = some m)
    (hk : c.position + k.toNat ≤ c.bytes.size) (j : Nat) (a : Answer) :
    (∃ d, op.run { ofBytes (c.rest.take k.toNat) with position := j } = .ok a d) ↔
      j + m.toNat ≤ k.toNat ∧ ∃ d, op.run { c with position := c.position + j } = .ok a d := by
  have hsize : (ofBytes (c.rest.take k.toNat)).bytes.size = k.toNat := remaining_sub hk
  have hbytes (h : j + m.toNat ≤ k.toNat) :
      ({ ofBytes (c.rest.take k.toNat) with position := j } : Cursor).rest.take m.toNat =
        ({ c with position := c.position + j } : Cursor).rest.take m.toNat := by
    simp only [rest, ofBytes]
    rw [List.drop_take, List.take_take, List.drop_drop, Nat.min_eq_left (by omega)]
  simp only [Op.run_eq_ok hm, hsize]
  constructor
  · rintro ⟨d, h, rfl, rfl⟩
    rw [hbytes h]
    exact ⟨h, _, by omega, rfl, rfl⟩
  · rintro ⟨h, d, -, rfl, rfl⟩
    rw [← hbytes h]
    exact ⟨_, h, rfl, rfl⟩

/-! ## Several cursors -/

/-- An operation on one of several cursors. -/
structure Call where
  cursor : Nat
  op : Op

/-- The cursors after a call: the one that it is on stands where the operation
    left it, and a sub cursor is a further one. -/
def Call.apply (cursors : List Cursor) (call : Call) : List Cursor :=
  match cursors[call.cursor]? with
  | none => cursors
  | some c =>
    match call.op.run c with
    | .ok (.cursor sub) d => cursors.set call.cursor d ++ [sub]
    | .ok _ d | .error _ d => cursors.set call.cursor d

/-- The cursors after some calls, of which the first is on a cursor over `w`. -/
def calls (w : Bytes) (calls : List Call) : List Cursor := calls.foldl Call.apply [ofBytes w]

theorem Call.moves (call : Call) {cursors : List Cursor} {i : Nat} {c : Cursor}
    (hc : cursors[i]? = some c) :
    ∃ p, (call.apply cursors)[i]? = some { c with position := p } := by
  have hi : i < cursors.length := (List.getElem?_eq_some_iff.mp hc).1
  unfold Call.apply
  split
  next => exact ⟨c.position, hc⟩
  next b hb =>
    have hset : ∀ d : Cursor, (∃ p, d = { b with position := p }) →
        ∃ p, (cursors.set call.cursor d)[i]? = some { c with position := p } := by
      rintro _ ⟨p, rfl⟩
      by_cases hcall : call.cursor = i
      · subst hcall
        obtain rfl := Option.some.inj (hb.symm.trans hc)
        exact ⟨p, List.getElem?_set_self hi⟩
      · exact ⟨c.position, (List.getElem?_set_ne hcall).trans hc⟩
    split
    next sub d hrun =>
      rw [List.getElem?_append_left (by rw [List.length_set]; exact hi)]
      exact hset d (Op.exists_position hrun)
    next d _ hrun => exact hset d (Op.exists_position hrun)
    next d hrun =>
      obtain ⟨k, -, -, -, rfl⟩ := Op.run_eq_error.mp hrun
      exact hset d ⟨d.position, rfl⟩

theorem moves_calls {w : Bytes} {made : List Call} {i : Nat} {c : Cursor}
    (hc : (calls w made)[i]? = some c) (more : List Call) :
    ∃ p, (calls w (made ++ more))[i]? = some { c with position := p } := by
  unfold calls at hc ⊢
  rw [List.foldl_append]
  -- by induction on the calls, for whatever cursors there are already
  generalize made.foldl Call.apply [ofBytes w] = cursors at hc
  induction more generalizing cursors c with
  | nil => exact ⟨c.position, hc⟩
  | cons call more ih =>
    obtain ⟨p, hp⟩ := call.moves hc
    obtain ⟨q, hq⟩ := ih _ hp
    exact ⟨q, hq⟩

/-- A cursor over a part of `w` that stands at a word. -/
structure Within (w : Bytes) (c : Cursor) : Prop where
  part : c.bytes.toList <:+: w
  position_lt : c.position < 2 ^ 64

theorem within_ofBytes {v w : Bytes} (h : v <:+: w) : (ofBytes v).Within w :=
  ⟨by simpa [ofBytes] using h, show 0 < 2 ^ 64 by decide⟩

section
variable {w : Bytes} (hw : w.length < 2 ^ 64)
include hw

theorem Within.size_lt {c : Cursor} (hc : c.Within w) : c.bytes.size < 2 ^ 64 := by
  have := hc.part.length_le
  rw [Array.length_toList] at this
  omega

/-- An operation leaves the cursor within the bytes, and a sub cursor that it
    answers with lies within them as well. -/
theorem Within.of_run {c d : Cursor} (hc : c.Within w) {op : Op} {a : Answer}
    (h : op.run c = .ok a d) : d.Within w ∧ ∀ s, a = .cursor s → s.Within w := by
  cases hwidth : op.width with
  | none =>
    obtain ⟨position, rfl⟩ := Op.exists_seek hwidth
    cases h
    exact ⟨⟨hc.part, position.toNat_lt⟩, nofun⟩
  | some k =>
    obtain ⟨hfits, rfl, rfl⟩ := (Op.run_eq_ok hwidth).mp h
    refine ⟨⟨hc.part, Nat.lt_of_le_of_lt hfits (hc.size_lt hw)⟩, fun s hs => ?_⟩
    cases op with
    | sub length =>
      cases hs
      have hrest : c.rest.take k.toNat <:+: c.bytes.toList :=
        (List.take_prefix ..).isInfix.trans (List.drop_suffix ..).isInfix
      exact within_ofBytes (hrest.trans hc.part)
    | _ => cases hs

theorem Within.apply {cursors : List Cursor} (h : ∀ c ∈ cursors, c.Within w) (call : Call) :
    ∀ c ∈ call.apply cursors, c.Within w := by
  unfold Call.apply
  split
  next => exact h
  next c hc =>
    have hwithin := h c (List.mem_of_getElem? hc)
    have hset : ∀ d : Cursor, d.Within w → ∀ c ∈ cursors.set call.cursor d, c.Within w :=
      fun d hd c hc => (List.mem_or_eq_of_mem_set hc).elim (h c) fun heq => heq ▸ hd
    split
    next sub d hrun =>
      obtain ⟨hd, hsub⟩ := hwithin.of_run hw hrun
      intro c hc
      rcases List.mem_append.mp hc with hc | hc
      · exact hset d hd c hc
      · rw [List.mem_singleton.mp hc]
        exact hsub sub rfl
    next d _ hrun => exact hset d (hwithin.of_run hw hrun).1
    next d hrun =>
      obtain ⟨k, -, -, -, rfl⟩ := Op.run_eq_error.mp hrun
      exact hset d hwithin

theorem within_calls (made : List Call) : ∀ c ∈ calls w made, c.Within w := by
  suffices h : ∀ cursors : List Cursor, (∀ c ∈ cursors, c.Within w) →
      ∀ c ∈ made.foldl Call.apply cursors, c.Within w by
    refine h [ofBytes w] fun c hc => ?_
    rw [List.mem_singleton.mp hc]
    exact within_ofBytes List.infix_rfl
  -- by induction on the calls, for whatever cursors there are already
  intro cursors hcursors
  induction made generalizing cursors with
  | nil => exact hcursors
  | cons call made ih => exact ih _ (Within.apply hw hcursors call)

end

/-! ## Exactness -/

/-- Reading at a cursor over a part of `w` is exact, and a read that fails moves
    nothing. -/
structure Exact (w : Bytes) (c : Cursor) : Prop extends Within w c where
  /-- An operation on `k` bytes answers what those from the position on give, if
      they are all there, and moves over them. -/
  ok : ∀ (op : Op) (k : UInt64), op.width = some k → ∀ a d, op.run c = .ok a d ↔
    c.position + k.toNat ≤ c.bytes.size ∧ a = op.answer (c.rest.take k.toNat) ∧
      d = { c with position := c.position + k.toNat }
  /-- It fails if they are not, and does not move. -/
  error : ∀ (op : Op) cause d, op.run c = .error cause d ↔
    ∃ k, op.width = some k ∧ c.bytes.size < c.position + k.toNat ∧
      cause = .unexpectedEnd c.position k.toNat c.remaining ∧ d = c
  seek : ∀ position : UInt64,
    (Op.seek position).run c = .ok .moved { c with position := position.toNat }
  /-- Words that wrap around find the same end of the bytes. -/
  stop : ∀ k : UInt64, (c.stop? k).map UInt64.toNat =
    if c.position + k.toNat ≤ c.bytes.size then some (c.position + k.toNat) else none
  /-- No bytes are ahead of a position past the end. -/
  ahead : (c.remaining : Int) = max 0 ((c.bytes.size : Int) - c.position)
  left : c.left.toNat = c.remaining
  /-- A sub cursor reads what its parent reads in the bytes that the parent moved
      over, and nothing else. -/
  sub : ∀ (k : UInt64) s d, (Op.sub k).run c = .ok (.cursor s) d →
    s.position = 0 ∧ s.remaining = k.toNat ∧
      ∀ (op : Op) (m : UInt64), op.width = some m → ∀ (j : Nat) (a : Answer),
        (∃ e, op.run { s with position := j } = .ok a e) ↔
          j + m.toNat ≤ k.toNat ∧ ∃ e, op.run { c with position := c.position + j } = .ok a e

/-- **Reading is exact and atomic, whatever was called before**, and each cursor
    stays over its bytes, whatever is called later. -/
theorem exact_of_calls {w : Bytes} (hw : w.length < 2 ^ 64) {made : List Call} {i : Nat}
    {c : Cursor} (hc : (calls w made)[i]? = some c) :
    c.Exact w ∧ ∀ more, ∃ p, (calls w (made ++ more))[i]? = some { c with position := p } := by
  have hwithin := within_calls hw made c (List.mem_of_getElem? hc)
  have hsize := hwithin.size_lt hw
  have hahead : (c.remaining : Int) = max 0 ((c.bytes.size : Int) - c.position) := by
    rw [remaining]
    omega
  refine ⟨{ hwithin with
    ok := fun op k hk a d => Op.run_eq_ok hk
    error := fun op cause d => Op.run_eq_error
    seek := fun position => Op.run_seek position c
    stop := stop?_eq hsize hwithin.position_lt
    ahead := hahead
    left := left_eq hsize hwithin.position_lt
    sub := ?_ }, moves_calls hc⟩
  intro k s d hrun
  obtain ⟨hfits, hs, rfl⟩ := (Op.run_eq_ok rfl).mp hrun
  cases hs
  exact ⟨rfl, remaining_sub hfits, fun op m hm j a => reads_sub hm hfits j a⟩

/-! ## A run with reads that fail -/

/-- The first bytes of a class file. -/
def beginning : Bytes := [0xCA, 0xFE, 0xBA, 0xBE, 0x00, 0x34, 0xFF]

/-- Calls of which those on too many bytes fail, also where the end of the bytes
    wraps around. -/
def nested : List Call :=
  [⟨0, .u4⟩, ⟨0, .bytes 0xFFFFFFFFFFFFFFFF⟩, ⟨0, .seek 0xFFFFFFFFFFFFFFFF⟩, ⟨0, .u1⟩, ⟨0, .seek 4⟩,
    ⟨0, .sub 3⟩, ⟨1, .u2⟩, ⟨1, .i2⟩]

theorem calls_nested :
    calls beginning nested = [⟨beginning.toArray, 7⟩, ⟨#[0x00, 0x34, 0xFF], 2⟩] := rfl

theorem exact_of_calls_nested :
    beginning.length < 2 ^ 64 ∧ (calls beginning nested)[1]? = some ⟨#[0x00, 0x34, 0xFF], 2⟩ ∧
      (⟨#[0x00, 0x34, 0xFF], 2⟩ : Cursor).Exact beginning ∧
      ∀ more, ∃ p, (calls beginning (nested ++ more))[1]? = some ⟨#[0x00, 0x34, 0xFF], p⟩ := by
  have hlength : beginning.length < 2 ^ 64 := by decide
  have hsub : (calls beginning nested)[1]? = some ⟨#[0x00, 0x34, 0xFF], 2⟩ := by
    rw [calls_nested]
    rfl
  exact ⟨hlength, hsub, exact_of_calls hlength hsub⟩

end JvmClass.Cursor
