/-
  Reading bytes and bytecode without going past their end.

  * `Checked.slice` are the bytes from one place to another, which have to lie in
    order inside a string of bytes; `Checked.take_eq`: `take` reads such slices
    alone;
  * `Checked.unitsFrom_eq`: modified UTF-8 is decoded from bytes that are there;
  * `Checked.decodeBytecode_eq`: instructions start inside their code, so that
    there is a place for each in the map of the labels.
-/
import JvmClass.Proofs.Bytecode.Decoded
import JvmClass.Proofs.Checked.Basic
import JvmClass.Text.ModifiedUtf8

namespace JvmClass

/-! ## Slices -/

namespace Checked

/-- The bytes from the place `start` to the place `stop`, which have to lie in
    order inside the bytes. -/
def slice (bytes : Array UInt8) (start stop : Nat) : Option Bytes :=
  if start ≤ stop ∧ stop ≤ bytes.size then some (bytes.extract start stop).toList else none

/-- Read the next `k` bytes. -/
def take (k : Nat) (c : Cursor) : Option (EStateM.Result Malformed Cursor Bytes) :=
  if c.position + k ≤ c.bytes.size then
    (slice c.bytes c.position (c.position + k)).map fun bytes =>
      .ok bytes { c with position := c.position + k }
  else some (.error (.unexpectedEnd c.position k c.remaining) c)

/-- **Bytes are read inside the string of bytes.** -/
theorem take_eq (k : Nat) (c : Cursor) : take k c = some (Reader.take k c) := by
  unfold take Reader.take slice
  split
  next h => rw [if_pos ⟨Nat.le_add_right .., h⟩]; rfl
  next => rfl

/-! ## Modified UTF-8 -/

open ModifiedUtf8

/-- The byte at a place, if there is one there that continues a sequence. -/
def continuation (bytes : Bytes) (i : Nat) : Option UInt8 := bytes[i]?.filter isContinuation

/-- The code units of the bytes from the place `i` on, after the units `done` in
    reverse. -/
def unitsFrom (bytes : Bytes) (i : Nat) (done : List Nat) : Option (List Nat) :=
  if i < bytes.length then
    match bytes[i]? with
    | none => none
    | some b =>
      if b.toNat / 0x20 = 6 then
        match continuation bytes (i + 1) with
        | some c => unitsFrom bytes (i + 2) (unit2 b c :: done)
        | none => unitsFrom bytes (i + 1) (unit1 b :: done)
      else if b.toNat / 0x10 = 14 then
        match continuation bytes (i + 1), continuation bytes (i + 2) with
        | some c, some d => unitsFrom bytes (i + 3) (unit3 b c d :: done)
        | _, _ => unitsFrom bytes (i + 1) (unit1 b :: done)
      else unitsFrom bytes (i + 1) (unit1 b :: done)
  else some done.reverse
termination_by bytes.length - i

theorem unitsRev_cons (done : List Nat) (b : UInt8) (rest : Bytes) :
    unitsRev done (b :: rest) =
      if b.toNat / 0x20 = 6 then
        match continuation rest 0 with
        | some c => unitsRev (unit2 b c :: done) (rest.drop 1)
        | none => unitsRev (unit1 b :: done) rest
      else if b.toNat / 0x10 = 14 then
        match continuation rest 0, continuation rest 1 with
        | some c, some d => unitsRev (unit3 b c d :: done) (rest.drop 2)
        | _, _ => unitsRev (unit1 b :: done) rest
      else unitsRev (unit1 b :: done) rest := by
  match rest with
  | [] => simp [continuation, unitsRev]
  | [c] => cases hc : isContinuation c <;> simp [continuation, Option.filter, unitsRev, hc]
  | c :: d :: rest =>
    rw [unitsRev]
    cases hc : isContinuation c <;> cases hd : isContinuation d <;>
      simp [continuation, Option.filter, hc, hd]

theorem unitsRev_drop (done : List Nat) {bytes : Bytes} {i : Nat} {b : UInt8}
    (h : bytes[i]? = some b) :
    unitsRev done (bytes.drop i) =
      if b.toNat / 0x20 = 6 then
        match continuation bytes (i + 1) with
        | some c => unitsRev (unit2 b c :: done) (bytes.drop (i + 2))
        | none => unitsRev (unit1 b :: done) (bytes.drop (i + 1))
      else if b.toNat / 0x10 = 14 then
        match continuation bytes (i + 1), continuation bytes (i + 2) with
        | some c, some d => unitsRev (unit3 b c d :: done) (bytes.drop (i + 3))
        | _, _ => unitsRev (unit1 b :: done) (bytes.drop (i + 1))
      else unitsRev (unit1 b :: done) (bytes.drop (i + 1)) := by
  have hdrop : bytes.drop i = b :: bytes.drop (i + 1) := by
    obtain ⟨hlt, rfl⟩ := List.getElem?_eq_some_iff.mp h
    exact List.drop_eq_getElem_cons hlt
  have hahead (k : Nat) : continuation (bytes.drop (i + 1)) k = continuation bytes (i + 1 + k) := by
    rw [continuation, List.getElem?_drop, continuation]
  rw [hdrop, unitsRev_cons, hahead, hahead, List.drop_drop, List.drop_drop]

/-- **Modified UTF-8 is decoded from bytes that are there.** -/
theorem unitsFrom_eq (bytes : Bytes) (i : Nat) (done : List Nat) :
    unitsFrom bytes i done = some (unitsRev done (bytes.drop i)) := by
  fun_induction unitsFrom bytes i done with
  | case1 i done hlt hnone => exact absurd (List.getElem?_eq_none_iff.mp hnone) (Nat.not_le.mpr hlt)
  | case2 i done _ b hb h6 c hc ih => rw [ih, unitsRev_drop done hb, if_pos h6, hc]
  | case3 i done _ b hb h6 hc ih => rw [ih, unitsRev_drop done hb, if_pos h6, hc]
  | case4 i done _ b hb h6 h14 c d hd hc ih =>
    rw [ih, unitsRev_drop done hb, if_neg h6, if_pos h14, hc, hd]
  | case5 i done _ b hb h6 h14 hnone ih =>
    rw [ih, unitsRev_drop done hb, if_neg h6, if_pos h14]
    split
    next c d hc hd => exact (hnone c d hc hd).elim
    next => rfl
  | case6 i done _ b hb h6 h14 ih => rw [ih, unitsRev_drop done hb, if_neg h6, if_neg h14]
  | case7 i done hlt =>
    rw [List.drop_eq_nil_of_le (Nat.not_lt.mp hlt)]
    rfl

/-! ## Labels -/

/-- The labels with one for the instruction that starts at an offset. -/
def mark (labels : Array (Option Label)) (start : Nat × Label) :
    Checked Malformed (Array (Option Label)) := do
  require (start.1 < labels.size)
  return labels.setIfInBounds start.1 (some start.2)

/-- The labels of instructions that start at `offsets`, in code of `length`
    bytes. -/
def labelMap (offsets : List Nat) (length : Nat) : Checked Malformed LabelMap := do
  let labels ← offsets.zipIdx.foldlM mark (Array.replicate (length + 1) none)
  require (length < labels.size)
  return ⟨labels.setIfInBounds length (some offsets.length)⟩

theorem foldlM_mark {starts : List (Nat × Label)} {labels : Array (Option Label)}
    (h : ∀ start ∈ starts, start.1 < labels.size) :
    starts.foldlM mark labels = pure (starts.foldl
        (fun labels (offset, label) => labels.setIfInBounds offset (some label)) labels) ∧
      (starts.foldl (fun labels (offset, label) => labels.setIfInBounds offset (some label))
        labels).size = labels.size := by
  induction starts generalizing labels with
  | nil => exact ⟨rfl, rfl⟩
  | cons start starts ih =>
    obtain ⟨hstart, hrest⟩ := List.forall_mem_cons.mp h
    have hmark : mark labels start = pure (labels.setIfInBounds start.1 (some start.2)) := by
      rw [mark, require_of hstart, pure_bind]
    have hsize : (labels.setIfInBounds start.1 (some start.2)).size = labels.size :=
      Array.size_setIfInBounds
    rw [List.foldlM_cons, hmark, pure_bind, List.foldl_cons]
    rw [← hsize] at hrest ⊢
    exact ih hrest

theorem labelMap_eq {offsets : List Nat} {length : Nat} (h : ∀ offset ∈ offsets, offset < length) :
    labelMap offsets length = pure (.ofOffsets offsets length) := by
  have hstarts : ∀ start ∈ offsets.zipIdx,
      start.1 < (Array.replicate (length + 1) (none : Option Label)).size := by
    intro start hstart
    have := h _ (List.fst_mem_of_mem_zipIdx hstart)
    simp only [Array.size_replicate]
    omega
  obtain ⟨hmarks, hsize⟩ := foldlM_mark hstarts
  rw [labelMap, hmarks, pure_bind, require_of (by simp [hsize]), pure_bind]
  rfl

/-- Read all instructions of `code`, with labels for their targets, and the map
    of the labels. -/
def decodeBytecode (linkage : Linkage) (code : Bytes) :
    Checked Malformed (List Instruction × LabelMap) := do
  let placed ← ofExcept (Bytecode.instructions linkage code)
  let labels ← labelMap (placed.map (·.1)) code.length
  let resolved ← ofExcept (placed.mapM fun (_, i) => i.mapTargetsM labels.instruction)
  return (resolved, labels)

/-- **There is a place for every instruction in the map of the labels.** -/
theorem decodeBytecode_eq (linkage : Linkage) (code : Bytes) :
    decodeBytecode linkage code = ofExcept (Bytecode.decode linkage code) := by
  refine bind_ofExcept fun placed hplaced => ?_
  have hinside : ∀ offset ∈ placed.map (·.1), offset < code.length := fun offset hmem =>
    (Bytecode.ascendTo_instructions hplaced).lt hmem
  rw [labelMap_eq hinside]
  exact bind_ofExcept fun _ _ => rfl

end Checked

end JvmClass
