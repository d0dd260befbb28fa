/-
  Constants survive writing.

  * `Constant.depth` says how deep dynamic constants nest in the arguments of
    bootstrap methods;
  * `Handle.normalize` forgets of which kind of class a field is, which no
    class file says; `Constant.normalize` does so everywhere in a constant;
  * `Holds linker index c`: the constant lies at an index of a linker, with all
    that it refers to; `yields_holds`: so does every constant that is added;
  * `leadsTo_of_holds`: where a constant lies, its normal form is read;
  * `yields_constant` and `yields_bootstrapMethod`: an index that was written
    leads to the normal form of what was written, if that does not nest too
    deep;
  * `constant_normalize` and its relatives: a value and its normal form are
    written alike.
-/
import JvmClass.Proofs.Linkage.Growing
import JvmClass.Proofs.Pool.Requests

namespace JvmClass

/-! ## Normal forms -/

/-- The handle that is read for a written one: handles of fields do not tell
    interfaces from classes. -/
def Handle.normalize (handle : Handle) : Handle :=
  if handle.isField then { handle with interface := false } else handle

namespace Constant

mutual

/-- How deep dynamic constants nest. -/
def depth : Constant → Nat
  | dynamic _ _ _ arguments => depths arguments + 1
  | _ => 0

/-- How deep dynamic constants nest in a list. -/
def depths : List Constant → Nat
  | [] => 0
  | c :: rest => max c.depth (depths rest)

end

mutual

/-- The constant that is read for a written one. -/
def normalize : Constant → Constant
  | .handle h => .handle h.normalize
  | .dynamic name descriptor h arguments =>
    .dynamic name descriptor h.normalize (normalizes arguments)
  | c => c

/-- The constants that are read for written ones. -/
def normalizes : List Constant → List Constant
  | [] => []
  | c :: rest => c.normalize :: normalizes rest

end

@[simp] theorem normalizes_eq_map (cs : List Constant) : normalizes cs = cs.map normalize := by
  induction cs with
  | nil => rfl
  | cons c cs ih => rw [normalizes, ih, List.map_cons]

@[simp] theorem isWide_normalize (c : Constant) : c.normalize.isWide = c.isWide := by
  cases c <;> rfl

mutual

@[simp] theorem depth_normalize : ∀ c : Constant, c.normalize.depth = c.depth
  | .integer _ | .float _ | .long _ | .double _ | .string _ | .methodType _ | .classRef _
  | .handle _ => rfl
  | .dynamic _ _ _ arguments => congrArg (· + 1) (depths_normalizes arguments)

theorem depths_normalizes : ∀ cs : List Constant, depths (normalizes cs) = depths cs
  | [] => rfl
  | c :: rest => by rw [normalizes, depths, depths, depth_normalize c, depths_normalizes rest]

end

theorem depth_le_depths {c : Constant} {cs : List Constant} (h : c ∈ cs) :
    c.depth ≤ depths cs := by
  induction h with
  | head => exact Nat.le_max_left ..
  | tail _ _ ih => exact Nat.le_trans ih (Nat.le_max_right ..)

end Constant

/-- The bootstrap method that is read for a written one. -/
def BootstrapMethod.normalize (method : BootstrapMethod) : BootstrapMethod :=
  ⟨method.handle.normalize, method.arguments.map Constant.normalize⟩

namespace Linking

/-! ## What is written is there -/

/-- The request for the member that a handle refers to. -/
def member (h : Handle) : Pool.Request :=
  if h.isField then .fieldRef h.member else .methodRef h.member h.interface

/-- A handle lies at an index of a linker, with the member that it refers to. -/
def HoldsHandle (linker : Linker) (index : Pool.Index) (h : Handle) : Prop :=
  Handle.isKind h.kind ∧ ∃ inner, linker.pool.toPool.get index = .ok (.methodHandle h.kind inner) ∧
    (member h).Resolves linker.pool.toPool inner

mutual

/-- A constant lies at an index of a linker, with all that it refers to. -/
def Holds (linker : Linker) (index : Pool.Index) : Constant → Prop
  | .integer value => (Pool.Request.integer value).Resolves linker.pool.toPool index
  | .float bits => (Pool.Request.float bits).Resolves linker.pool.toPool index
  | .long value => (Pool.Request.long value).Resolves linker.pool.toPool index
  | .double bits => (Pool.Request.double bits).Resolves linker.pool.toPool index
  | .string text => (Pool.Request.string text).Resolves linker.pool.toPool index
  | .classRef name => (Pool.Request.classRef name).Resolves linker.pool.toPool index
  | .methodType descriptor =>
    (Pool.Request.methodType descriptor).Resolves linker.pool.toPool index
  | .handle h => HoldsHandle linker index h
  | .dynamic name descriptor h arguments => ∃ (bootstrap : UInt16) (row : BootstrapRow),
    (Pool.Request.dynamic bootstrap name descriptor).Resolves linker.pool.toPool index ∧
      linker.rows[bootstrap.toNat]? = some row ∧ HoldsHandle linker row.handle h ∧
      HoldsAll linker row.arguments arguments

/-- Constants lie at indices of a linker. -/
def HoldsAll (linker : Linker) (indices : List Pool.Index) : List Constant → Prop
  | [] => indices = []
  | c :: rest => ∃ index later, indices = index :: later ∧ Holds linker index c ∧
    HoldsAll linker later rest

end

/-- A bootstrap method lies in a row of a linker. -/
def HoldsRow (linker : Linker) (index : UInt16) (method : BootstrapMethod) : Prop :=
  ∃ row, linker.rows[index.toNat]? = some row ∧ HoldsHandle linker row.handle method.handle ∧
    HoldsAll linker row.arguments method.arguments

theorem handle_eq (h : Handle) :
    handle h = if Handle.isKind h.kind then (do
        let inner ← (liftM (member h).index : Linking Pool.Index)
        liftM (Pool.add (.methodHandle h.kind inner)))
      else throw (.handleKind h.kind) := by
  unfold handle member
  cases Handle.isKind h.kind with
  | true => cases h.isField <;> rfl
  | false => rfl

theorem yields_holdsHandle (h : Handle) :
    Yields (handle h) fun linker index => HoldsHandle linker index h := by
  rw [handle_eq]
  refine Yields.ite (fun hkind => ?_) fun _ => .throw
  refine (member h).yields_index.lift.bind fun inner => ?_
  refine (Pool.yields_add _ (by simp)).lift.mono fun linker index _ hget hmember => ?_
  exact ⟨hkind, inner, hget, hmember⟩

mutual

/-- **A constant lies at its index** from then on. -/
theorem yields_holds : ∀ c : Constant, Yields (constant c) fun linker index => Holds linker index c
  | .integer value => (Pool.Request.integer value).yields_index.lift
  | .float bits => (Pool.Request.float bits).yields_index.lift
  | .long value => (Pool.Request.long value).yields_index.lift
  | .double bits => (Pool.Request.double bits).yields_index.lift
  | .string text => (Pool.Request.string text).yields_index.lift
  | .classRef name => (Pool.Request.classRef name).yields_index.lift
  | .methodType descriptor => (Pool.Request.methodType descriptor).yields_index.lift
  | .handle h => yields_holdsHandle h
  | .dynamic name descriptor h arguments => by
    refine (yields_holdsHandle h).bind fun handle => ?_
    refine (yields_holdsAll [] arguments).bind fun indices => ?_
    refine (yields_row ⟨handle, indices⟩).bind fun bootstrap => ?_
    refine (Pool.Request.dynamic bootstrap name descriptor).yields_index.lift.mono ?_
    rintro linker index - hindex hrow ⟨later, rfl, hlater⟩ hhandle
    exact ⟨bootstrap, _, hindex, hrow, hhandle, hlater⟩

theorem yields_holdsAll (done : List Pool.Index) : ∀ cs : List Constant,
    Yields (constantsRev done cs) fun linker indices =>
      ∃ later, indices = done.reverse ++ later ∧ HoldsAll linker later cs
  | [] => .pure fun _ _ => ⟨[], by simp, rfl⟩
  | c :: rest => by
    refine (yields_holds c).bind fun index => ?_
    refine (yields_holdsAll (index :: done) rest).mono ?_
    rintro linker indices - ⟨later, rfl, hlater⟩ hindex
    exact ⟨index :: later, by simp, index, later, rfl, hindex, hlater⟩

end

/-- **A bootstrap method lies in its row** from then on. -/
theorem yields_holdsRow (method : BootstrapMethod) :
    Yields (bootstrapMethod method) fun linker index => HoldsRow linker index method := by
  refine (yields_holdsHandle method.handle).bind fun handle => ?_
  refine (yields_holdsAll [] method.arguments).bind fun indices => ?_
  refine (yields_row ⟨handle, indices⟩).mono ?_
  rintro linker index - hrow ⟨later, rfl, hlater⟩ hhandle
  exact ⟨_, hrow, hhandle, hlater⟩

/-! ## What is there is read -/

theorem constantWith_of_get {linker : Linker} {index : Pool.Index} {entry : Pool.Entry}
    (h : linker.pool.toPool.get index = .ok entry)
    (resolve : UInt16 → Except Malformed BootstrapMethod) :
    linker.toLinkage.constantWith resolve index = (do
      match entry with
      | .integer value => return .integer value
      | .float bits => return .float bits
      | .long value => return .long value
      | .double bits => return .double bits
      | .string text => return .string (← linker.pool.toPool.utf8 text)
      | .classRef name => return .classRef (← linker.pool.toPool.utf8 name)
      | .methodType descriptor => return .methodType (← linker.pool.toPool.utf8 descriptor)
      | .methodHandle _ _ => return .handle (← linker.toLinkage.handle index)
      | .dynamic bootstrap nameAndType =>
        let (name, descriptor) ← linker.pool.toPool.nameAndType nameAndType
        let method ← resolve bootstrap
        return .dynamic name descriptor method.handle method.arguments
      | entry => throw (.notLoadable index entry.kind)) := by
  rw [Linkage.constantWith, Linker.toLinkage, h]; rfl

/-- An index leads to the normal form of a constant, wherever dynamic constants
    may nest as deep as they do in it. -/
def LeadsTo (linker : Linker) (index : Pool.Index) (c : Constant) : Prop :=
  ∀ depth, c.depth ≤ depth →
    linker.toLinkage.constantWith (linker.toLinkage.bootstrapWithin depth) index = .ok c.normalize

/-- A row whose indices lead to a handle and to constants is resolved as
    their bootstrap method. -/
theorem bootstrapWithin_of_leadsTo {linker : Linker} {index : UInt16} {row : BootstrapRow}
    {depth : Nat} (method : BootstrapMethod)
    (hrow : linker.toLinkage.bootstraps[index.toNat]? = some row)
    (hhandle : linker.toLinkage.handle row.handle = .ok method.handle.normalize)
    (harguments : List.Forall₂ (LeadsTo linker) row.arguments method.arguments)
    (hdepth : Constant.depths method.arguments ≤ depth) :
    linker.toLinkage.bootstrapWithin (depth + 1) index = .ok method.normalize := by
  have hmap : row.arguments.mapM
      (linker.toLinkage.constantWith (linker.toLinkage.bootstrapWithin depth)) =
        .ok (method.arguments.map Constant.normalize) := by
    rw [Result.mapM_eq_ok, List.forall₂_map_right_iff]
    have hmem := List.forall₂_iff_get.mp harguments
    refine List.forall₂_iff_get.mpr ⟨hmem.1, fun i h₁ h₂ => hmem.2 i h₁ h₂ depth ?_⟩
    exact Nat.le_trans (Constant.depth_le_depths (List.get_mem _ _)) hdepth
  rw [Linkage.bootstrapWithin]
  simp only [hrow, hmap, hhandle, Bind.bind, Except.bind]
  rfl

theorem handle_of_holds {linker : Linker} {index : Pool.Index} {h : Handle}
    (hh : HoldsHandle linker index h) : linker.toLinkage.handle index = .ok h.normalize := by
  obtain ⟨hkind, inner, hget, hmember⟩ := hh
  have hresolve : ∀ ref, linker.toLinkage.pool.member inner = .ok ref →
      linker.toLinkage.handle index = .ok ⟨h.kind, ref.member, ref.interface⟩ := by
    intro ref href
    have hget : linker.toLinkage.pool.get index = .ok (.methodHandle h.kind inner) := hget
    simp [Linkage.handle, hget, href, hkind, Bind.bind, Except.bind, Pure.pure, Except.pure]
  unfold member at hmember
  unfold Handle.normalize
  split at hmember
  next hfield => rw [hresolve _ hmember, if_pos hfield]
  next hfield => rw [hresolve _ hmember, if_neg hfield]

mutual

/-- **Where a constant lies, its normal form is read**, wherever dynamic
    constants may nest as deep as they do in it. -/
theorem leadsTo_of_holds {linker : Linker} : ∀ (c : Constant) {index : Pool.Index},
    Holds linker index c → LeadsTo linker index c
  | .integer value, _, h, _, _ | .float value, _, h, _, _ | .long value, _, h, _, _
  | .double value, _, h, _, _ => by
    rw [constantWith_of_get h]; rfl
  | .string text, _, ⟨inner, h, htext⟩, _, _ | .methodType text, _, ⟨inner, h, htext⟩, _, _ => by
    rw [constantWith_of_get h]
    simp only [htext]; rfl
  | .classRef name, _, h, _, _ => by
    obtain ⟨inner, h, hname⟩ := Pool.get_of_className h
    rw [constantWith_of_get h]
    simp only [hname]; rfl
  | .handle h, _, hholds, _, _ => by
    have hhandle := handle_of_holds hholds
    obtain ⟨-, inner, hget, -⟩ := hholds
    rw [constantWith_of_get hget]
    simp only [hhandle]; rfl
  | .dynamic name descriptor h arguments, _, ⟨bootstrap, row, ⟨inner, hget, hname⟩, hrow, hhandle,
      harguments⟩, depth, hdepth => by
    cases depth with
    | zero => simp [Constant.depth] at hdepth
    | succ depth =>
      have hmethod := bootstrapWithin_of_leadsTo ⟨h, arguments⟩ hrow (handle_of_holds hhandle)
        (leadsTo_of_holdsAll arguments harguments) (by simpa [Constant.depth] using hdepth)
      rw [constantWith_of_get hget]
      simp only [hname, hmethod, Bind.bind, Except.bind, Constant.normalize,
        Constant.normalizes_eq_map]
      rfl

theorem leadsTo_of_holdsAll {linker : Linker} : ∀ (cs : List Constant) {indices : List Pool.Index},
    HoldsAll linker indices cs → List.Forall₂ (LeadsTo linker) indices cs
  | [], _, h => h ▸ .nil
  | c :: rest, _, ⟨_, _, heq, hc, hrest⟩ =>
    heq ▸ .cons (leadsTo_of_holds c hc) (leadsTo_of_holdsAll rest hrest)

end

theorem bootstrapWithin_of_holds {linker : Linker} {index : UInt16} {method : BootstrapMethod}
    (h : HoldsRow linker index method) {depth : Nat}
    (hdepth : Constant.depths method.arguments ≤ depth) :
    linker.toLinkage.bootstrapWithin (depth + 1) index = .ok method.normalize := by
  obtain ⟨row, hrow, hhandle, harguments⟩ := h
  exact bootstrapWithin_of_leadsTo method hrow (handle_of_holds hhandle)
    (leadsTo_of_holdsAll _ harguments) hdepth

/-- **The index of a constant leads to its normal form** from then on. -/
theorem yields_constant (c : Constant) :
    Yields (constant c) fun linker index => LeadsTo linker index c :=
  (yields_holds c).mono fun _ _ _ => leadsTo_of_holds c

theorem yields_bootstrapMethod {method : BootstrapMethod}
    (hdepth : Constant.depths method.arguments ≤ Linkage.maxDepth) :
    Yields (bootstrapMethod method) fun linker index =>
      linker.toLinkage.bootstrapMethod index = .ok method.normalize :=
  (yields_holdsRow method).mono fun _ _ _ h => bootstrapWithin_of_holds h hdepth

/-! ## Normal forms are written alike -/

theorem handle_normalize (h : Handle) : handle h.normalize = handle h := by
  unfold Handle.normalize
  split
  next hfield =>
    have hfield' : Handle.isField { h with interface := false } = true := hfield
    simp only [handle, hfield, hfield', if_true]
  next => rfl

mutual

theorem constant_normalize : ∀ c : Constant, constant c.normalize = constant c
  | .integer _ | .float _ | .long _ | .double _ | .string _ | .methodType _ | .classRef _ => rfl
  | .handle h => handle_normalize h
  | .dynamic name descriptor h arguments => by
    simp only [Constant.normalize, constant, handle_normalize,
      constantsRev_normalizes arguments]

theorem constantsRev_normalizes : ∀ (cs : List Constant) (done : List Pool.Index),
    constantsRev done (Constant.normalizes cs) = constantsRev done cs
  | [], _ => rfl
  | c :: rest, done => by
    simp only [Constant.normalizes, constantsRev, constant_normalize c,
      constantsRev_normalizes rest]

end

theorem bootstrapMethod_normalize (method : BootstrapMethod) :
    bootstrapMethod method.normalize = bootstrapMethod method := by
  simp only [bootstrapMethod, BootstrapMethod.normalize, handle_normalize,
    ← Constant.normalizes_eq_map, constantsRev_normalizes]

end Linking

end JvmClass
