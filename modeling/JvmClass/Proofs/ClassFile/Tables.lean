/-
  The constant pool and the bootstrap method table on their own.

  * `follows_bootstrapWithin`: where dynamic constants may nest less deep, a
    bootstrap method is resolved in the same way, or it is refused;
  * `writeTables` and `readTables`: a linker as it is written, and as it is read
    again;
  * a `Linking.Request` asks for the index of a constant or of a bootstrap
    method, and `Interned` says at which indices the parts of a bootstrap method
    lie;
  * `resolves_requests`: what the indices stand for that requests were given.
-/
import JvmClass.Proofs.Bytes.Follows
import JvmClass.Proofs.ClassFile.Walk
import JvmClass.Proofs.Linkage.Tight

namespace JvmClass

/-! ## Smaller depths -/

namespace Linkage

variable {linkage : Linkage} {E : Malformed → Prop}

theorem follows_constantWith {resolve resolve' : UInt16 → Except Malformed BootstrapMethod}
    (h : ∀ row, Result.Follows (resolve row) (resolve' row) (· = ·) E) (index : Pool.Index) :
    Result.Follows (linkage.constantWith resolve index) (linkage.constantWith resolve' index)
      (· = ·) E := by
  refine Result.Follows.same.bindEq fun entry => ?_
  cases entry with
  | dynamic bootstrap nameAndType =>
    exact Result.Follows.same.bindEq fun _ => (h bootstrap).bindEq fun _ => .same
  | _ => exact .same

/-- **Where dynamic constants may nest less deep, a bootstrap method is resolved
    in the same way, or it is refused.** -/
theorem follows_bootstrapWithin (depth smaller : Nat) (index : UInt16) :
    Result.Follows (linkage.bootstrapWithin depth index) (linkage.bootstrapWithin smaller index)
      (· = ·) (· = .bootstrapDepth maxDepth) := by
  induction smaller generalizing depth index with
  | zero => exact fun _ _ => .inr ⟨_, rfl, rfl⟩
  | succ smaller ih =>
    cases depth with
    | zero => exact nofun
    | succ depth =>
      unfold bootstrapWithin
      split
      next => exact nofun
      next row _ =>
        refine (Result.Follows.mapM (fun index => ?_) row.arguments).bindEq fun _ => .same
        exact follows_constantWith (ih depth) index

end Linkage

namespace Linking

variable {linker : Linker} (hcount : linker.toLinkage.Countable)
include hcount

/-- **A constant that nests too deep is refused**, and any other one is read. -/
theorem constant_of_leadsTo {index : Pool.Index} {c : Constant} (h : LeadsTo linker index c) :
    linker.toLinkage.constant index =
      if c.depth ≤ Linkage.maxDepth + 1 then .ok c.normalize
      else .error (.bootstrapDepth Linkage.maxDepth) := by
  split
  next hdepth => exact h _ hdepth
  next hdeep =>
    rcases Linkage.follows_constantWith (Linkage.follows_bootstrapWithin _ (Linkage.maxDepth + 1))
      index c.normalize (h c.depth (Nat.le_refl _)) with ⟨_, hok, rfl⟩ | ⟨_, herror, rfl⟩
    · have hdepth := (Linkage.of_constant hcount hok).2
      rw [Constant.depth_normalize] at hdepth
      exact absurd hdepth hdeep
    · exact herror

theorem bootstrapMethod_of_holds {index : UInt16} {method : BootstrapMethod}
    (h : HoldsRow linker index method) :
    linker.toLinkage.bootstrapMethod index =
      if Constant.depths method.arguments ≤ Linkage.maxDepth then .ok method.normalize
      else .error (.bootstrapDepth Linkage.maxDepth) := by
  split
  next hdepth => exact bootstrapWithin_of_holds h hdepth
  next hdeep =>
    rcases Linkage.follows_bootstrapWithin _ (Linkage.maxDepth + 1) index _
      (bootstrapWithin_of_holds h (Nat.le_refl _)) with ⟨_, hok, rfl⟩ | ⟨_, herror, rfl⟩
    · have hdepth := (Linkage.of_bootstrapMethod hcount hok).2
      rw [BootstrapMethod.normalize, ← Constant.normalizes_eq_map,
        Constant.depths_normalizes] at hdepth
      exact absurd hdepth hdeep
    · exact herror

end Linking

namespace ClassFile

open Reader

/-! ## Tables that are written and read -/

/-- The constant pool of a linker, and the attributes of a class that has a
    bootstrap method table alone. -/
def writeTables (linker : Linker) : Except Invalid Bytes :=
  match writeBootstraps linker with
  | .error cause _ => throw cause
  | .ok written last => do
    let pool ← last.pool.write
    return pool ++ (← AttributeTable.write written)

/-- Read a constant pool and the bootstrap methods in the attributes of a
    class. -/
def readTables : Reader Linkage := do
  let pool ← Pool.read (← u2)
  return ⟨pool, ← readRows pool⟩

theorem countable_of_isBootstraps {linker : Linker} {ws : List Bytes}
    (h : IsBootstraps linker ws) : linker.toLinkage.Countable := by
  intro row hrow
  rcases h with ⟨-, hempty⟩ | ⟨w, content, -, -, hread⟩
  · rw [← Array.mem_toList_iff] at hrow
    change row ∈ linker.rows.toList at hrow
    rw [hempty] at hrow
    exact nomatch hrow
  · exact produces_readBootstraps _ _ _ (hread [] []) row (Array.mem_toList_iff.mpr hrow)

/-- **The tables that were written are read again**, with what the linker
    holds. -/
theorem reads_tables {linker : Linker} (hvalid : linker.Valid) {bytes : Bytes}
    (h : writeTables linker = .ok bytes) :
    ∃ last : Linker, last.Valid ∧ Growing.Extends linker last ∧ last.toLinkage.Countable ∧
      Reads readTables bytes last.toLinkage := by
  unfold writeTables at h
  split at h
  next => exact nomatch h
  next written last hwritten =>
    obtain ⟨pool, hpool, h⟩ := Result.bind_eq_ok.mp h
    obtain ⟨table, htable, h⟩ := Result.bind_eq_ok.mp h
    cases h
    obtain ⟨hlast, hle, hbootstraps⟩ := ends_writeBootstraps linker written last hvalid hwritten
    refine ⟨last, hlast, hle, countable_of_isBootstraps hbootstraps, ?_⟩
    have hnone : AttributeTable.Attributes last.toLinkage.pool (fun _ (_ : Unit) => pure ())
        (fun name => name ≠ AttributeName.bootstrapMethods) () [] () := .nil ()
    rw [readTables, ← bind_assoc]
    exact (Pool.Builder.reads_write hlast.pool hpool).bind
      (reads_bootstrapTables hnone hbootstraps htable).map

end ClassFile

/-! ## Requests -/

namespace Linking

/-- A constant or a bootstrap method whose index is asked for. -/
inductive Request where
  | constant (constant : Constant)
  | bootstrapMethod (method : BootstrapMethod)

namespace Request

/-- Ask for the index. -/
def index : Request → Linking UInt16
  | constant c => Linking.constant c
  | bootstrapMethod method => Linking.bootstrapMethod method

/-- What is asked for lies at an index of a linker. -/
def Holds (linker : Linker) (index : UInt16) : Request → Prop
  | constant c => Linking.Holds linker index c
  | bootstrapMethod method => HoldsRow linker index method

/-- What an index stands for is the normal form of what is asked for, unless
    dynamic constants nest too deep in it. -/
def Resolves (linkage : Linkage) (index : UInt16) : Request → Prop
  | constant c => linkage.constant index =
      if c.depth ≤ Linkage.maxDepth + 1 then .ok c.normalize
      else .error (.bootstrapDepth Linkage.maxDepth)
  | bootstrapMethod method => linkage.bootstrapMethod index =
      if Constant.depths method.arguments ≤ Linkage.maxDepth then .ok method.normalize
      else .error (.bootstrapDepth Linkage.maxDepth)

theorem yields_index (request : Request) :
    Yields request.index fun linker index => request.Holds linker index := by
  cases request with
  | constant c => exact yields_holds c
  | bootstrapMethod method => exact yields_holdsRow method

theorem keepsTight_index (request : Request) : KeepsTight request.index := by
  cases request with
  | constant c => exact keepsTight_constant c
  | bootstrapMethod method => exact keepsTight_bootstrapMethod method

theorem resolves_of_holds {linker : Linker} (hcount : linker.toLinkage.Countable)
    {request : Request} {index : UInt16} (h : request.Holds linker index) :
    request.Resolves linker.toLinkage index := by
  cases request with
  | constant c => exact constant_of_leadsTo hcount (leadsTo_of_holds c h)
  | bootstrapMethod method => exact bootstrapMethod_of_holds hcount h

end Request

/-- The handle and the arguments of a bootstrap method have the indices of a row
    in a linker, which is given them without adding anything. -/
def Interned (linker : Linker) (method : BootstrapMethod) (row : BootstrapRow) : Prop :=
  handle method.handle linker = .ok row.handle linker ∧
    constantsRev [] method.arguments linker = .ok row.arguments linker

theorem interned_of_holdsRow {linker : Linker} (htight : linker.Tight) {index : UInt16}
    {method : BootstrapMethod} (h : HoldsRow linker index method) :
    ∃ row, linker.rows[index.toNat]? = some row ∧ Interned linker method row := by
  obtain ⟨row, hrow, hhandle, harguments⟩ := h
  exact ⟨row, hrow, handle_of_holdsHandle htight hhandle,
    constantsRev_of_holds htight [] _ harguments⟩

/-- **Indices resolve to what they were given for.**  After any requests that an
    empty linker answers, the tables are written and read again.  Then every
    index stands for the normal form of what was asked for, or it is refused
    since dynamic constants nest too deep; and two bootstrap methods have the
    same index if and only if their handles and arguments have the same
    indices. -/
theorem resolves_requests {requests : List Request} {indices : List UInt16} {linker : Linker}
    {bytes : Bytes} (hrun : each Request.index requests .empty = .ok indices linker)
    (hwrite : ClassFile.writeTables linker = .ok bytes) :
    ∃ linkage, Reader.Reads ClassFile.readTables bytes linkage ∧
      List.Forall₂ (fun request index => request.Resolves linkage index) requests indices ∧
      ∀ method index method' index',
        (Request.bootstrapMethod method, index) ∈ requests.zip indices →
        (Request.bootstrapMethod method', index') ∈ requests.zip indices →
          ∃ row row', Interned linker method row ∧ Interned linker method' row' ∧
            (index = index' ↔ row = row') := by
  obtain ⟨hvalid, -, hlater⟩ :=
    Yields.each (fun request _ => request.yields_index) _ indices linker Linker.valid_empty hrun
  obtain ⟨last, hlast, hle, hcount, hread⟩ := ClassFile.reads_tables hvalid hwrite
  refine ⟨last.toLinkage, hread, ?_, ?_⟩
  · exact (hlater last hlast hle).flip.imp fun _ _ h => Request.resolves_of_holds hcount h
  · have htight : linker.Tight :=
      ((Attempt.each fun request _ => request.keepsTight_index) .empty Linker.tight_empty).1 _ _
        hrun |>.1
    have hholds := (hlater linker hvalid (Growing.refl linker)).flip
    intro method index method' index' hmem hmem'
    obtain ⟨row, hrow, hinterned⟩ :=
      interned_of_holdsRow htight ((List.forall₂_iff_zip.mp hholds).2 hmem)
    obtain ⟨row', hrow', hinterned'⟩ :=
      interned_of_holdsRow htight ((List.forall₂_iff_zip.mp hholds).2 hmem')
    refine ⟨row, row', hinterned, hinterned', fun h => ?_, fun h => ?_⟩
    · rw [h, hrow'] at hrow
      exact (Option.some.inj hrow).symm
    · rw [h] at hrow
      exact htight.row_unique hrow hrow'

/-- A bootstrap method, a dynamic constant that has it, and one with the same
    handle and other arguments. -/
theorem resolves_requests_dynamic :
    let handle : Handle := ⟨6, ⟨"A", "f", "()V"⟩, false⟩
    let requests : List Request := [.bootstrapMethod ⟨handle, [.integer 1]⟩,
      .constant (.dynamic "n" "I" handle [.integer 1]), .bootstrapMethod ⟨handle, []⟩]
    ∃ linker bytes linkage, each Request.index requests .empty = .ok [0, 12, 1] linker ∧
      ClassFile.writeTables linker = .ok bytes ∧ Reader.Reads ClassFile.readTables bytes linkage ∧
      linkage.bootstrapMethod 0 = .ok ⟨handle, [.integer 1]⟩ ∧
      linkage.constant 12 = .ok (.dynamic "n" "I" handle [.integer 1]) := by
  intro handle requests
  let entries : List Pool.Entry := [.reserved, .utf8 "A", .classRef 1, .utf8 "f", .utf8 "()V",
    .nameAndType 3 4, .methodRef 2 5, .methodHandle 6 6, .integer 1, .utf8 "n", .utf8 "I",
    .nameAndType 9 10, .dynamic 0 11, .utf8 "BootstrapMethods"]
  obtain ⟨linker, w, last, hrun, hrows, hentries⟩ : ∃ linker w last,
      each Request.index requests .empty = .ok [0, 12, 1] linker ∧
        ClassFile.writeBootstraps linker = .ok [w] last ∧ last.pool.entries = entries.toArray := by
    have hget (linker : Linker) : (get : Linking Linker) linker = .ok linker linker := rfl
    have hmodify (f : Linker → Linker) (linker : Linker) :
        (modify f : Linking Unit) linker = .ok () (f linker) := rfl
    -- The entries and the rows are added one by one, and found where they are there.
    simp [requests, handle, entries, each, eachRev, Request.index, Linking.bootstrapMethod,
      Linking.constant, constantsRev, Linking.row, Linking.handle, Handle.isKind, Handle.isField,
      hget, hmodify, Pool.Intern.methodRef, Pool.Intern.classRef, Pool.Intern.nameAndType,
      Pool.Intern.dynamic, Pool.Intern.utf8, Pool.add_mk, Pool.Entry.slots, Pool.Entry.isWide,
      Pool.Builder.maxSlots, Pool.Builder.empty, Linker.empty, liftM, monadLift,
      MonadLift.monadLift, Linking.ofInterning, Linking.ofExcept, Linking.count, Bind.bind,
      EStateM.bind, Except.bind, Pure.pure, EStateM.pure, Except.pure, Std.HashMap.getElem_insert,
      ClassFile.writeBootstraps, ClassFile.writeBootstrapRow, AttributeTable.attr,
      AttributeName.bootstrapMethods, Bytes.u2, Bytes.length_ofNat]
  have hpool : ∃ pool, last.pool.write = .ok pool := by
    rw [Pool.Builder.write, Pool.Builder.size, hentries]
    exact ⟨_, rfl⟩
  obtain ⟨pool, hpool⟩ := hpool
  have hwrite : ClassFile.writeTables linker = .ok (pool ++ (Bytes.u2 1 ++ [w].flatten)) := by
    rw [ClassFile.writeTables, hrows]
    simp only [hpool]
    rfl
  obtain ⟨linkage, hread, hresolves, -⟩ := resolves_requests hrun hwrite
  simp only [requests, List.forall₂_cons] at hresolves
  obtain ⟨hmethod, hconstant, -⟩ := hresolves
  exact ⟨linker, _, linkage, hrun, hwrite, hread, hmethod, hconstant⟩

end Linking

end JvmClass
