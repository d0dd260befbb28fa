/-
  What is known of constants that were resolved.

  * `Constant.Linkable`: the handles in a constant have a kind, and the
    arguments of bootstrap methods can be counted; where there are no bootstrap
    methods there are no dynamic constants;
  * `of_constant` and `of_bootstrapMethod`: what an index stands for can be
    linked again, and does not nest too deep.
-/
import JvmClass.Proofs.Linkage.Constants

namespace JvmClass

namespace Constant

mutual

/-- The handles in a constant have a kind, and its bootstrap methods have
    countable arguments.  Dynamic constants presuppose `linked`. -/
def Linkable (linked : Prop) : Constant → Prop
  | handle h => Handle.isKind h.kind
  | dynamic _ _ h arguments =>
    linked ∧ Handle.isKind h.kind ∧ arguments.length ≤ 0xFFFF ∧ Linkables linked arguments
  | _ => True

/-- Every constant of a list can be linked. -/
def Linkables (linked : Prop) : List Constant → Prop
  | [] => True
  | c :: rest => c.Linkable linked ∧ Linkables linked rest

end

theorem linkables_iff {linked : Prop} {cs : List Constant} :
    Linkables linked cs ↔ ∀ c ∈ cs, c.Linkable linked := by
  induction cs with
  | nil => exact ⟨fun _ => nofun, fun _ => trivial⟩
  | cons c cs ih => rw [Linkables, ih, List.forall_mem_cons]

theorem depths_le_iff {cs : List Constant} {n : Nat} : depths cs ≤ n ↔ ∀ c ∈ cs, c.depth ≤ n := by
  induction cs with
  | nil => exact ⟨fun _ => nofun, fun _ => Nat.zero_le n⟩
  | cons c cs ih => rw [depths, Nat.max_le, ih, List.forall_mem_cons]

end Constant

/-- The handles of a bootstrap method have a kind, and its arguments can be
    counted. -/
structure BootstrapMethod.Linkable (linked : Prop) (method : BootstrapMethod) : Prop where
  exist : linked
  kind : Handle.isKind method.handle.kind
  count : method.arguments.length ≤ 0xFFFF
  arguments : ∀ c ∈ method.arguments, c.Linkable linked

/-- The rows of the bootstrap method table have countable arguments. -/
def Linkage.Countable (linkage : Linkage) : Prop :=
  ∀ row ∈ linkage.bootstraps, row.arguments.length ≤ 0xFFFF

namespace Linkage

variable {linkage : Linkage}

theorem isKind_of_handle {index : Pool.Index} {h : Handle} (hh : linkage.handle index = .ok h) :
    Handle.isKind h.kind := by
  obtain ⟨entry, -, hh⟩ := Result.bind_eq_ok.mp hh
  cases entry with
  | methodHandle kind member =>
    dsimp only at hh
    split at hh
    next hkind =>
      obtain ⟨ref, -, hh⟩ := Result.bind_eq_ok.mp hh
      cases hh
      exact hkind
    next => exact absurd hh nofun
  | _ => exact absurd hh nofun

/-- What an index stands for, if bootstrap methods are resolved well. -/
theorem of_constantWith {linked : Prop} {depth : Nat}
    {resolve : UInt16 → Except Malformed BootstrapMethod}
    (hresolve : ∀ row method, resolve row = .ok method →
      method.Linkable linked ∧ Constant.depths method.arguments < depth)
    {index : Pool.Index} {c : Constant} (h : linkage.constantWith resolve index = .ok c) :
    c.Linkable linked ∧ c.depth ≤ depth := by
  obtain ⟨entry, -, h⟩ := Result.bind_eq_ok.mp h
  cases entry with
  | integer | float | long | double =>
    cases h
    exact ⟨trivial, Nat.zero_le _⟩
  | string | classRef | methodType =>
    obtain ⟨text, -, h⟩ := Result.bind_eq_ok.mp h
    cases h
    exact ⟨trivial, Nat.zero_le _⟩
  | methodHandle =>
    obtain ⟨handle, hhandle, h⟩ := Result.bind_eq_ok.mp h
    cases h
    exact ⟨isKind_of_handle hhandle, Nat.zero_le _⟩
  | dynamic bootstrap nameAndType =>
    obtain ⟨⟨name, descriptor⟩, -, h⟩ := Result.bind_eq_ok.mp h
    obtain ⟨method, hmethod, h⟩ := Result.bind_eq_ok.mp h
    cases h
    obtain ⟨hlinkable, hdepth⟩ := hresolve bootstrap method hmethod
    exact ⟨⟨hlinkable.exist, hlinkable.kind, hlinkable.count,
      Constant.linkables_iff.mpr hlinkable.arguments⟩, hdepth⟩
  | _ => exact absurd h nofun

theorem of_bootstrapWithin (hcount : linkage.Countable) {depth : Nat} {index : UInt16}
    {method : BootstrapMethod} (h : linkage.bootstrapWithin depth index = .ok method) :
    method.Linkable (linkage.bootstraps ≠ #[]) ∧ Constant.depths method.arguments < depth := by
  induction depth generalizing index method with
  | zero => exact absurd h nofun
  | succ depth ih =>
    unfold bootstrapWithin at h
    split at h
    next => exact absurd h nofun
    next row hrow =>
      have hmem := Array.mem_of_getElem? hrow
      obtain ⟨arguments, harguments, h⟩ := Result.bind_eq_ok.mp h
      obtain ⟨handle, hhandle, h⟩ := Result.bind_eq_ok.mp h
      cases h
      have hall : ∀ c ∈ arguments,
          c.Linkable (linkage.bootstraps ≠ #[]) ∧ c.depth ≤ depth :=
        Result.forall_of_mapM harguments fun index _ c hc =>
          of_constantWith (fun _ _ hmethod => ih hmethod) hc
      have hlength := (Result.mapM_eq_ok.mp harguments).length_eq
      refine ⟨⟨?_, isKind_of_handle hhandle, hlength ▸ hcount row hmem, fun c hc => (hall c hc).1⟩,
        Nat.lt_succ_of_le (Constant.depths_le_iff.mpr fun c hc => (hall c hc).2)⟩
      exact Array.ne_empty_of_mem hmem

theorem of_bootstrapMethod (hcount : linkage.Countable) {index : UInt16}
    {method : BootstrapMethod} (h : linkage.bootstrapMethod index = .ok method) :
    method.Linkable (linkage.bootstraps ≠ #[]) ∧
      Constant.depths method.arguments ≤ maxDepth :=
  (of_bootstrapWithin hcount h).imp_right Nat.le_of_lt_succ

theorem of_constant (hcount : linkage.Countable) {index : Pool.Index} {c : Constant}
    (h : linkage.constant index = .ok c) :
    c.Linkable (linkage.bootstraps ≠ #[]) ∧ c.depth ≤ maxDepth + 1 :=
  of_constantWith (fun _ _ hmethod => of_bootstrapWithin hcount hmethod) h

end Linkage

end JvmClass
