/-
  Instructions that are read as they were written.

  * `Handle.Plain`: a handle of a field says nothing of interfaces, which no
    class file tells; `Constant.handles` are the handles in a constant;
  * `Instruction.Normal`: an instruction is its own normal form.
-/
import JvmClass.Proofs.Bytecode.Instruction

namespace JvmClass

/-! ## Constants -/

/-- A handle of a field does not claim to be one of an interface. -/
def Handle.Plain (handle : Handle) : Prop := handle.isField → handle.interface = false

theorem Handle.Plain.normalize_eq {handle : Handle} (h : handle.Plain) :
    handle.normalize = handle := by
  unfold normalize
  split
  next hfield =>
    obtain ⟨kind, member, interface⟩ := handle
    cases (h hfield : interface = false)
    rfl
  next => rfl

namespace Constant

mutual

/-- The method handles in a constant. -/
def handles : Constant → List Handle
  | handle h => [h]
  | dynamic _ _ h arguments => h :: handlesOf arguments
  | _ => []

/-- The method handles in constants. -/
def handlesOf : List Constant → List Handle
  | [] => []
  | c :: rest => c.handles ++ handlesOf rest

end

mutual

theorem normalize_eq_self : ∀ c : Constant, (∀ h ∈ c.handles, h.Plain) → c.normalize = c
  | .integer _, _ | .float _, _ | .long _, _ | .double _, _ | .string _, _ | .methodType _, _
  | .classRef _, _ => rfl
  | .handle _, hplain => congrArg handle (hplain _ (.head _)).normalize_eq
  | .dynamic name descriptor h arguments, hplain => by
    rw [normalize, (hplain h (.head _)).normalize_eq,
      normalizes_eq_self arguments fun h hmem => hplain h (.tail _ hmem)]

theorem normalizes_eq_self :
    ∀ cs : List Constant, (∀ h ∈ handlesOf cs, h.Plain) → normalizes cs = cs
  | [], _ => rfl
  | c :: rest, hplain => by
    rw [normalizes, normalize_eq_self c fun h hmem => hplain h (List.mem_append_left _ hmem),
      normalizes_eq_self rest fun h hmem => hplain h (List.mem_append_right _ hmem)]

end

end Constant

/-! ## Instructions -/

/-- The constants of an instruction are plain and the keys of a `lookupswitch`
    ascend. -/
def Instruction.Normal : Instruction → Prop
  | ldc constant => ∀ h ∈ constant.handles, h.Plain
  | lookupSwitch _ pairs => pairs.Pairwise fun a b => a.1 ≤ b.1
  | invokeDynamic _ _ bootstrap =>
    bootstrap.handle.Plain ∧ ∀ h ∈ Constant.handlesOf bootstrap.arguments, h.Plain
  | _ => True

theorem Instruction.Normal.normalize_eq {i : Instruction} (h : i.Normal) : i.normalize = i := by
  cases i with
  | ldc constant => exact congrArg Instruction.ldc (constant.normalize_eq_self h)
  | lookupSwitch default pairs =>
    refine congrArg (Instruction.lookupSwitch default) (List.mergeSort_of_pairwise ?_)
    exact h.imp fun hle => decide_eq_true hle
  | invokeDynamic name descriptor bootstrap =>
    refine congrArg (Instruction.invokeDynamic name descriptor) ?_
    rw [BootstrapMethod.normalize, h.1.normalize_eq, ← Constant.normalizes_eq_map,
      Constant.normalizes_eq_self _ h.2]
  | _ => rfl

end JvmClass
