/-
  What is known of instructions that were read.

  * `Instruction.Sound`: the operation code of an instruction goes with its
    operands, and its operands can be written;
  * `produces_instruction`: anything that is read as an instruction is one, and
    does not nest too deep;
  * `instructionsRev_induction` is induction on the instructions that are read;
    they start one behind the other (`ascendTo_instructions`);
  * `of_decode`: decoded instructions are sound, their branch targets are
    instructions, and the labels are those of ascending offsets.
-/
import JvmClass.Bytecode.Writing
import JvmClass.Proofs.Bytecode.Instruction
import JvmClass.Proofs.Bytes.Produces
import JvmClass.Proofs.Linkage.Resolved

namespace JvmClass

/-- The operation code goes with the operands, and these can be written.
    Bootstrap methods presuppose `linked`. -/
def Instruction.Sound (linked : Prop) : Instruction → Prop
  | simple opcode => Opcode.form? opcode = some .plain
  | push opcode value =>
    (opcode = Opcode.bipush ∧ Bytecode.fitsByte value = true) ∨ opcode = Opcode.sipush
  | ldc constant => constant.Linkable linked
  | var opcode _ => Opcode.form? opcode = some .localVar
  | jump opcode _ => Opcode.form? opcode = some .jump ∨ Opcode.form? opcode = some .jumpW
  | tableSwitch _ low high targets =>
    high.toInt - low.toInt + 1 = targets.length ∧ ¬ high < low
  | field opcode _ => Opcode.form? opcode = some .field
  | method opcode _ _ => Opcode.form? opcode = some .method
  | invokeDynamic _ _ bootstrap => bootstrap.Linkable linked
  | type opcode _ => Opcode.form? opcode = some .type
  | newArray atype => Opcode.isArrayType atype
  | multiNewArray _ dimensions => dimensions ≠ 0
  | iinc .. | lookupSwitch .. => True

/-- Replacing the branch targets of an instruction leaves the rest of it
    alone. -/
theorem Instruction.of_mapTargetsM {linked : Prop} {f : Label → Except Malformed Label}
    {i j : Instruction} (h : i.mapTargetsM f = .ok j) (hsound : i.Sound linked ∧ i.Nests) :
    (j.Sound linked ∧ j.Nests) ∧ ∀ target ∈ j.targets, ∃ offset, f offset = .ok target := by
  cases i with
  | jump opcode offset =>
    obtain ⟨target, htarget, h⟩ := Result.bind_eq_ok.mp h
    cases h
    refine ⟨hsound, fun t ht => ⟨offset, ?_⟩⟩
    rwa [List.mem_singleton.mp ht]
  | tableSwitch default low high offsets =>
    obtain ⟨default', hdefault, h⟩ := Result.bind_eq_ok.mp h
    obtain ⟨targets, htargets, h⟩ := Result.bind_eq_ok.mp h
    cases h
    have hlength := (Result.mapM_eq_ok.mp htargets).length_eq
    refine ⟨⟨⟨hlength ▸ hsound.1.1, hsound.1.2⟩, trivial⟩, ?_⟩
    refine List.forall_mem_cons.mpr ⟨⟨default, hdefault⟩, ?_⟩
    exact Result.forall_of_mapM htargets fun offset _ target htarget => ⟨offset, htarget⟩
  | lookupSwitch default pairs =>
    obtain ⟨default', hdefault, h⟩ := Result.bind_eq_ok.mp h
    obtain ⟨pairs', hpairs, h⟩ := Result.bind_eq_ok.mp h
    cases h
    refine ⟨⟨trivial, trivial⟩, List.forall_mem_cons.mpr ⟨⟨default, hdefault⟩, ?_⟩⟩
    refine List.forall_mem_map.mpr (Result.forall_of_mapM hpairs ?_)
    rintro ⟨key, offset⟩ - pair hpair
    obtain ⟨target, htarget, hpair⟩ := Result.bind_eq_ok.mp hpair
    cases hpair
    exact ⟨offset, htarget⟩
  | _ =>
    cases h
    exact ⟨hsound, nofun⟩

namespace Bytecode

open Reader

variable {linkage : Linkage}

/-! ## One instruction -/

theorem fitsByte_toInt16 (v : Int8) : fitsByte v.toInt16 = true := by
  have hlow := v.le_toInt
  have hhigh := v.toInt_lt
  simp only [fitsByte, Bool.and_eq_true, decide_eq_true_eq, Int16.le_iff_toInt_le,
    Int8.toInt_toInt16]
  exact ⟨hlow, Int.le_of_lt_add_one hhigh⟩

theorem form_short :
    (∀ opcode, Opcode.form? opcode = some .localLoad →
      Opcode.form? (Opcode.iload + (opcode - Opcode.iload0) / 4) = some .localVar) ∧
    ∀ opcode, Opcode.form? opcode = some .localStore →
      Opcode.form? (Opcode.istore + (opcode - Opcode.istore0) / 4) = some .localVar := by
  decide +kernel

theorem opcode_of_push :
    (∀ opcode, Opcode.form? opcode = some .bytePush → opcode = Opcode.bipush) ∧
    ∀ opcode, Opcode.form? opcode = some .shortPush → opcode = Opcode.sipush := by
  decide +kernel

theorem produces_constantOperand (hcount : linkage.Countable) (opcode : UInt8)
    (form : Opcode.Form) (offset : Nat) :
    Produces (constantOperand linkage opcode form offset) fun i =>
      i.Sound (linkage.bootstraps ≠ #[]) ∧ i.Nests :=
  by
  unfold constantOperand
  split <;>
  · refine .after fun index => .lift fun constant hconstant => .guard fun _ => .pure ?_
    exact Linkage.of_constant hcount hconstant

theorem produces_tableSwitchOperands (linked : Prop) (offset : Nat) :
    Produces (tableSwitchOperands offset) fun i => i.Sound linked ∧ i.Nests := by
  refine .after fun _ => .after fun default => .after fun low => .after fun high =>
    .guard fun hle => .after fun left => .guard fun _ => ?_
  refine (Produces.any.times _).bind fun targets htargets => .pure ⟨⟨?_, ?_⟩, trivial⟩
  · have hle' : low.toInt ≤ high.toInt := Int32.le_iff_toInt_le.mp (Int32.not_lt.mp hle)
    rw [htargets.1]
    omega
  · exact hle

theorem produces_operands (hcount : linkage.Countable) {opcode : UInt8} {form : Opcode.Form}
    (hform : Opcode.form? opcode = some form) (offset : Nat) :
    Produces (operands linkage opcode offset form) fun i =>
      i.Sound (linkage.bootstraps ≠ #[]) ∧ i.Nests := by
  cases form with
  | plain => exact .pure ⟨hform, trivial⟩
  | bytePush =>
    exact .after fun value =>
      .pure ⟨.inl ⟨opcode_of_push.1 opcode hform, fitsByte_toInt16 value⟩, trivial⟩
  | shortPush => exact .after fun _ => .pure ⟨.inr (opcode_of_push.2 opcode hform), trivial⟩
  | constant => exact produces_constantOperand hcount opcode .constant offset
  | constantW => exact produces_constantOperand hcount opcode .constantW offset
  | constant2W => exact produces_constantOperand hcount opcode .constant2W offset
  | localVar => exact .after fun _ => .pure ⟨hform, trivial⟩
  | localLoad => exact .pure ⟨form_short.1 opcode hform, trivial⟩
  | localStore => exact .pure ⟨form_short.2 opcode hform, trivial⟩
  | increment => exact .after fun _ => .after fun _ => .pure ⟨trivial, trivial⟩
  | jump => exact .after fun _ => .after fun _ => .pure ⟨.inl hform, trivial⟩
  | jumpW => exact .after fun _ => .pure ⟨.inr hform, trivial⟩
  | tableSwitch => exact produces_tableSwitchOperands _ offset
  | lookupSwitch =>
    exact .after fun _ => .after fun _ => .after fun _ => .after fun _ => .guard fun _ =>
      .after fun _ => .pure ⟨trivial, trivial⟩
  | field => exact .after fun _ => .after fun _ => .require fun _ => .pure ⟨hform, trivial⟩
  | method =>
    refine .after fun index => ?_
    dsimp only
    split
    · exact .after fun _ => .after fun ref => .guard fun _ => .pure ⟨hform, trivial⟩
    · exact .after fun ref => .guard fun _ => .pure ⟨hform, trivial⟩
  | callSite =>
    refine .after fun index => .after fun _ => .lift fun entry _ => ?_
    cases entry with
    | invokeDynamic bootstrap nameAndType =>
      exact .lift fun _ _ => .lift fun method hmethod =>
        .pure (Linkage.of_bootstrapMethod hcount hmethod)
    | _ => exact .throw
  | type => exact .after fun _ => .after fun _ => .pure ⟨hform, trivial⟩
  | newArray => exact .after fun atype => .require fun hatype => .pure ⟨hatype, trivial⟩
  | multiNewArray =>
    exact .after fun _ => .after fun _ => .after fun _ => .guard fun hzero =>
      .pure ⟨hzero, trivial⟩
  | wide =>
    refine .after fun opcode => ?_
    split
    next h => exact .after fun _ => .pure ⟨h, trivial⟩
    next => exact .after fun _ => .after fun _ => .pure ⟨trivial, trivial⟩
    next => exact .throw

/-- **Anything that is read as an instruction is one.** -/
theorem produces_instruction (hcount : linkage.Countable) :
    Produces (instruction linkage) fun i => i.Sound (linkage.bootstraps ≠ #[]) ∧ i.Nests := by
  rw [instruction_eq]
  refine .after fun offset => .after fun opcode => ?_
  split
  next => exact .throw
  next form hform => exact produces_operands hcount hform offset

/-! ## All instructions -/

theorem forward_wideBranch (offset : Nat) : Forward (wideBranch offset) :=
  forward_i4.bind fun _ => .ofExcept _

theorem forward_operands (opcode : UInt8) (offset : Nat) (form : Opcode.Form) :
    Forward (operands linkage opcode offset form) := by
  have hconstant : ∀ form, Forward (constantOperand linkage opcode form offset) := by
    intro form
    unfold constantOperand
    split
    · exact (forward_u1.bind fun _ => .pure).bind fun _ => .lift fun _ => .guard .pure
    · exact forward_u2.bind fun _ => .lift fun _ => .guard .pure
  cases form with
  | plain | localLoad | localStore => exact .pure
  | bytePush => exact forward_i1.bind fun _ => .pure
  | shortPush => exact forward_i2.bind fun _ => .pure
  | constant => exact hconstant .constant
  | constantW => exact hconstant .constantW
  | constant2W => exact hconstant .constant2W
  | localVar => exact forward_u1.bind fun _ => .pure
  | increment => exact forward_u1.bind fun _ => forward_i1.bind fun _ => .pure
  | jump => exact forward_i2.bind fun _ => .lift fun _ => .pure
  | jumpW => exact (forward_wideBranch offset).bind fun _ => .pure
  | tableSwitch =>
    exact (forward_skip _).bind fun _ => (forward_wideBranch offset).bind fun _ =>
      forward_i4.bind fun _ => forward_i4.bind fun _ => .guard (forward_remaining.bind fun _ =>
        .guard (((forward_wideBranch offset).times _).bind fun _ => .pure))
  | lookupSwitch =>
    exact (forward_skip _).bind fun _ => (forward_wideBranch offset).bind fun _ =>
      forward_i4.bind fun _ => forward_remaining.bind fun _ => .guard (.bind (.times
        (forward_i4.bind fun _ => (forward_wideBranch offset).bind fun _ => .pure) _) fun _ => .pure)
  | field => exact forward_u2.bind fun _ => .lift fun _ => .require .pure
  | method =>
    refine forward_u2.bind fun index => ?_
    dsimp only
    split
    · exact (forward_skip 2).bind fun _ => .lift fun _ => .guard .pure
    · exact .lift fun _ => .guard .pure
  | callSite =>
    refine forward_u2.bind fun _ => (forward_skip 2).bind fun _ => .lift fun entry => ?_
    cases entry with
    | invokeDynamic => exact .lift fun _ => .lift fun _ => .pure
    | _ => exact .throw
  | type => exact forward_u2.bind fun _ => .lift fun _ => .pure
  | newArray => exact forward_u1.bind fun _ => .require .pure
  | multiNewArray =>
    exact forward_u2.bind fun _ => .lift fun _ => forward_u1.bind fun _ => .guard .pure
  | wide =>
    refine forward_u1.bind fun opcode => ?_
    split
    · exact forward_u2.bind fun _ => .pure
    · exact forward_u2.bind fun _ => forward_i2.bind fun _ => .pure
    · exact .throw

theorem lt_of_instruction {c d : Cursor} {i : Instruction} (h : instruction linkage c = .ok i d) :
    d.bytes = c.bytes ∧ c.position < d.position ∧ d.position ≤ d.bytes.size := by
  rw [instruction_eq] at h
  obtain ⟨offset, _, hposition, h⟩ := bind_eq_ok.mp h
  obtain ⟨-, rfl⟩ := position_eq_ok hposition
  obtain ⟨opcode, e, hopcode, h⟩ := bind_eq_ok.mp h
  obtain ⟨hbytes, hlt, hle⟩ := lt_of_u1 hopcode
  cases hform : Opcode.form? opcode with
  | none =>
    rw [hform] at h
    exact nomatch (show EStateM.Result.error _ e = .ok i d from h)
  | some form =>
    rw [hform] at h
    obtain ⟨hbytes', hle', hend⟩ := forward_operands opcode offset form e i d h
    exact ⟨hbytes'.trans hbytes, Nat.lt_of_lt_of_le hlt hle', hend hle⟩

/-- Offsets that ascend to the offset `stop`. -/
def AscendTo (offsets : List Nat) (stop : Nat) : Prop := (offsets ++ [stop]).Pairwise (· < ·)

theorem AscendTo.concat {offsets : List Nat} {offset stop : Nat} (h : AscendTo offsets offset)
    (hlt : offset < stop) : AscendTo (offsets ++ [offset]) stop := by
  refine List.pairwise_append.mpr ⟨h, List.pairwise_singleton .., ?_⟩
  rintro a ha b hb
  obtain rfl := List.mem_singleton.mp hb
  rcases List.mem_append.mp ha with ha | ha
  · exact Nat.lt_trans ((List.pairwise_append.mp h).2.2 a ha _ (.head _)) hlt
  · obtain rfl := List.mem_singleton.mp ha
    exact hlt

theorem AscendTo.lt {offsets : List Nat} {stop : Nat} (h : AscendTo offsets stop) {offset : Nat}
    (hmem : offset ∈ offsets) : offset < stop :=
  (List.pairwise_append.mp h).2.2 offset hmem _ (.head _)

theorem AscendTo.mono {offsets : List Nat} {stop stop' : Nat} (h : AscendTo offsets stop)
    (hle : stop ≤ stop') : AscendTo offsets stop' := by
  refine List.pairwise_append.mpr ⟨(List.pairwise_append.mp h).1, List.pairwise_singleton .., ?_⟩
  rintro a ha b hb
  obtain rfl := List.mem_singleton.mp hb
  exact Nat.lt_of_lt_of_le (h.lt ha) hle

/-- What holds in the beginning and is kept by every instruction that is read,
    holds in the end. -/
theorem instructionsRev_induction {P : List (Nat × Instruction) → Cursor → Prop}
    (hstep : ∀ done c i e, P done c → instruction linkage c = .ok i e → P ((c.position, i) :: done) e)
    {fuel : Nat} {done placed : List (Nat × Instruction)} {c d : Cursor} (hdone : P done c)
    (h : instructionsRev linkage fuel done c = .ok placed d) : P placed.reverse d := by
  induction fuel generalizing done c with
  | zero => cases h; rwa [List.reverse_reverse]
  | succ fuel ih =>
    obtain ⟨left, _, hleft, h⟩ := bind_eq_ok.mp h
    obtain ⟨rfl, rfl⟩ := remaining_eq_ok hleft
    split at h
    next => cases h; rwa [List.reverse_reverse]
    next =>
      obtain ⟨offset, _, hposition, h⟩ := bind_eq_ok.mp h
      obtain ⟨rfl, rfl⟩ := position_eq_ok hposition
      obtain ⟨i, e, hi, h⟩ := bind_eq_ok.mp h
      exact ih (hstep done _ i e hdone hi) h

/-- Instructions start one behind the other, up to the end of the code. -/
theorem ascendTo_instructions {code : Bytes} {placed : List (Nat × Instruction)}
    (h : instructions linkage code = .ok placed) : AscendTo (placed.map (·.1)) code.length := by
  obtain ⟨⟨_, d⟩, hrun, rfl⟩ := Result.map_eq_ok.mp h
  have hstart : AscendTo (([] : List (Nat × Instruction)).reverse.map (·.1)) 0 :=
    List.pairwise_singleton ..
  have hend := instructionsRev_induction
    (P := fun done c => AscendTo (done.reverse.map (·.1)) c.position ∧
      c.bytes = code.toArray ∧ c.position ≤ code.length)
    (fun done c i e ⟨hascend, hbytes, _⟩ hi => by
      obtain ⟨hbytes', hlt, hle⟩ := lt_of_instruction hi
      refine ⟨?_, hbytes'.trans hbytes, by simpa [hbytes', hbytes] using hle⟩
      rw [List.reverse_cons, List.map_append]
      exact hascend.concat hlt)
    ⟨hstart, rfl, Nat.zero_le _⟩ (runOn_eq_ok.mp hrun)
  rw [List.reverse_reverse] at hend
  exact hend.1.mono hend.2.2

/-- Instructions that were read are sound, and do not nest too deep. -/
theorem sound_instructions (hcount : linkage.Countable) {code : Bytes}
    {placed : List (Nat × Instruction)} (h : instructions linkage code = .ok placed) :
    ∀ p ∈ placed, p.2.Sound (linkage.bootstraps ≠ #[]) ∧ p.2.Nests := by
  obtain ⟨⟨_, d⟩, hrun, rfl⟩ := Result.map_eq_ok.mp h
  have hend := instructionsRev_induction
    (P := fun done _ => ∀ p ∈ done, p.2.Sound (linkage.bootstraps ≠ #[]) ∧ p.2.Nests)
    (fun done c i e hdone hi =>
      List.forall_mem_cons.mpr ⟨produces_instruction hcount _ _ _ hi, hdone⟩)
    (by simp) (runOn_eq_ok.mp hrun)
  exact fun p hp => hend p (List.mem_reverse.mpr hp)

/-- **Decoded instructions are sound**, their branch targets are instructions,
    and the labels are those of offsets that ascend to the end of the code. -/
theorem of_decode (hcount : linkage.Countable) {code : Bytes} {resolved : List Instruction}
    {labels : LabelMap} (h : decode linkage code = .ok (resolved, labels)) :
    ∃ starts, labels = .ofOffsets starts code.length ∧ AscendTo starts code.length ∧
      starts.length = resolved.length ∧ ∀ i ∈ resolved,
        (i.Sound (linkage.bootstraps ≠ #[]) ∧ i.Nests) ∧
          ∀ target ∈ i.targets, target < resolved.length := by
  obtain ⟨placed, hplaced, h⟩ := Result.bind_eq_ok.mp h
  have hascend := ascendTo_instructions hplaced
  have hall := sound_instructions hcount hplaced
  obtain ⟨_, hresolved, h⟩ := Result.bind_eq_ok.mp h
  cases h
  have hlength := (Result.mapM_eq_ok.mp hresolved).length_eq
  refine ⟨placed.map (·.1), rfl, hascend, by rw [List.length_map, hlength], ?_⟩
  refine Result.forall_of_mapM hresolved fun p hp i hi => ?_
  obtain ⟨hsound, htargets⟩ := Instruction.of_mapTargetsM hi (hall p hp)
  refine ⟨hsound, fun target htarget => ?_⟩
  obtain ⟨offset, hoffset⟩ := htargets target htarget
  have hstart := (LabelMap.instruction_ofOffsets hascend).mp hoffset
  have hlt := (List.getElem?_eq_some_iff.mp hstart).1
  rwa [List.length_map, hlength] at hlt

end Bytecode

end JvmClass
