/-
  Linkers that hold nothing twice.

  * `Linker.Tight`: the index of every entry and of every row is remembered, so
    that no row is there twice;
  * `keepsTight_constant` and its relatives: adding a handle, a constant or a
    bootstrap method keeps a linker tight;
  * `constant_of_holds`: a tight linker gives the index where a constant lies,
    and adds nothing.
-/
import JvmClass.Proofs.Attempt
import JvmClass.Proofs.Linkage.Constants

namespace JvmClass

namespace Linker

/-- The index of every entry is remembered, and that of every row. -/
structure Tight (linker : Linker) : Prop extends linker.Valid where
  entries : linker.pool.Tight
  remembered : ∀ (i : Nat) (row : BootstrapRow), linker.rows[i]? = some row →
    linker.rowIndices[row]? = some (UInt16.ofNat i)

theorem tight_empty : Tight empty where
  toValid := valid_empty
  entries := Pool.Builder.tight_empty
  remembered i row h := by simp [empty] at h

/-- **No row is there twice.** -/
theorem Tight.row_unique {linker : Linker} (h : linker.Tight) {i j : UInt16} {row : BootstrapRow}
    (hi : linker.rows[i.toNat]? = some row) (hj : linker.rows[j.toNat]? = some row) : i = j := by
  have hsame := (h.remembered _ row hi).symm.trans (h.remembered _ row hj)
  rwa [UInt16.ofNat_toNat, UInt16.ofNat_toNat, Option.some.injEq] at hsame

theorem Tight.push {linker : Linker} (h : linker.Tight) {row : BootstrapRow} {index : UInt16}
    (hnew : linker.rowIndices[row]? = none) (hindex : index.toNat = linker.rows.size)
    (hvalid : Valid ⟨linker.pool, linker.rows.push row, linker.rowIndices.insert row index⟩) :
    Tight ⟨linker.pool, linker.rows.push row, linker.rowIndices.insert row index⟩ where
  toValid := hvalid
  entries := h.entries
  remembered i other hother := by
    rw [Std.HashMap.getElem?_insert]
    rw [Array.getElem?_push] at hother
    split at hother
    next hlast =>
      obtain rfl := Option.some.inj hother
      rw [if_pos (beq_self_eq_true row), hlast, ← hindex, UInt16.ofNat_toNat]
    next =>
      have hfound := h.remembered i other hother
      have hne : ¬ (row == other) = true := by
        intro heq
        rw [beq_iff_eq.mp heq, hfound] at hnew
        cases hnew
      rw [if_neg hne, hfound]

end Linker

namespace Linking

/-! ## Linkers stay tight -/

/-- A step that succeeds keeps a linker tight. -/
abbrev KeepsTight {α : Type} (step : Linking α) : Prop :=
  Attempt Linker.Tight step (fun _ => True) fun _ _ => True

theorem keepsTight_request (request : Pool.Request) :
    KeepsTight (liftM request.index : Linking Pool.Index) := by
  refine fun s hs => ⟨fun index t hrun => ⟨?_, trivial⟩, fun _ _ _ => trivial⟩
  obtain ⟨hvalid, -, -⟩ := request.yields_index.lift s index t hs.toValid hrun
  obtain ⟨hstep, hrows, hindices⟩ := lift_eq_ok.mp hrun
  have hgrows := request.adds_index.grows_of (.inl ⟨index, hstep⟩)
  refine ⟨hvalid, hgrows.tight hs.entries, ?_⟩
  rw [hrows, hindices]
  exact hs.remembered

theorem keepsTight_row (row : BootstrapRow) : KeepsTight (Linking.row row) := by
  refine fun s hs => ⟨fun index t hrun => ⟨?_, trivial⟩, fun _ _ _ => trivial⟩
  obtain ⟨hvalid, -, -⟩ := yields_row row s index t hs.toValid hrun
  rw [row_eq] at hrun
  split at hrun
  next => cases hrun; exact hs
  next hnew =>
    split at hrun
    next hcount => cases hrun; exact hs.push hnew (toNat_of_count hcount) hvalid
    next => exact nomatch hrun

theorem keepsTight_handle (h : Handle) : KeepsTight (handle h) := by
  rw [handle_eq]
  refine .ite (fun _ => ?_) fun _ => .throw fun _ => trivial
  exact (keepsTight_request (member h)).after fun inner =>
    keepsTight_request (.methodHandle h.kind inner)

mutual

theorem keepsTight_constant : ∀ c : Constant, KeepsTight (constant c)
  | .integer value => keepsTight_request (.integer value)
  | .float bits => keepsTight_request (.float bits)
  | .long value => keepsTight_request (.long value)
  | .double bits => keepsTight_request (.double bits)
  | .string text => keepsTight_request (.string text)
  | .classRef name => keepsTight_request (.classRef name)
  | .methodType descriptor => keepsTight_request (.methodType descriptor)
  | .handle h => keepsTight_handle h
  | .dynamic name descriptor h arguments =>
    (keepsTight_handle h).after fun _ => (keepsTight_constantsRev [] arguments).after fun _ =>
      (keepsTight_row _).after fun bootstrap =>
        keepsTight_request (.dynamic bootstrap name descriptor)

theorem keepsTight_constantsRev (done : List Pool.Index) : ∀ cs : List Constant,
    KeepsTight (constantsRev done cs)
  | [] => .pure trivial
  | c :: rest => (keepsTight_constant c).after fun index => keepsTight_constantsRev (index :: done) rest

end

theorem keepsTight_bootstrapMethod (method : BootstrapMethod) :
    KeepsTight (bootstrapMethod method) :=
  (keepsTight_handle _).after fun _ => (keepsTight_constantsRev [] _).after fun _ =>
    keepsTight_row _

/-! ## What lies there is given again -/

section
variable {linker : Linker} (htight : linker.Tight)
include htight

theorem request_of_resolves (request : Pool.Request) {index : Pool.Index}
    (h : request.Resolves linker.pool.toPool index) :
    (liftM request.index : Linking Pool.Index) linker = .ok index linker :=
  lift_eq_ok.mpr ⟨request.index_of_resolves htight.entries h, rfl, rfl⟩

theorem row_of_getElem? {index : UInt16} {row : BootstrapRow}
    (h : linker.rows[index.toNat]? = some row) : Linking.row row linker = .ok index linker := by
  rw [row_eq, htight.remembered _ row h, UInt16.ofNat_toNat]

theorem handle_of_holdsHandle {index : Pool.Index} {h : Handle} (hh : HoldsHandle linker index h) :
    handle h linker = .ok index linker := by
  obtain ⟨hkind, inner, hget, hmember⟩ := hh
  rw [handle_eq, if_pos hkind]
  exact bind_eq_ok.mpr ⟨inner, linker, request_of_resolves htight (member h) hmember,
    request_of_resolves htight (.methodHandle h.kind inner) hget⟩

end

mutual

/-- **A tight linker gives the index where a constant lies**, and adds nothing. -/
theorem constant_of_holds {linker : Linker} (htight : linker.Tight) : ∀ (c : Constant)
    {index : Pool.Index}, Holds linker index c → constant c linker = .ok index linker
  | .integer value, _, h => request_of_resolves htight (.integer value) h
  | .float bits, _, h => request_of_resolves htight (.float bits) h
  | .long value, _, h => request_of_resolves htight (.long value) h
  | .double bits, _, h => request_of_resolves htight (.double bits) h
  | .string text, _, h => request_of_resolves htight (.string text) h
  | .classRef name, _, h => request_of_resolves htight (.classRef name) h
  | .methodType descriptor, _, h => request_of_resolves htight (.methodType descriptor) h
  | .handle _, _, hh => handle_of_holdsHandle htight hh
  | .dynamic name descriptor _ arguments, _, ⟨bootstrap, row, hindex, hrow, hhandle, harguments⟩ =>
    bind_eq_ok.mpr ⟨row.handle, linker, handle_of_holdsHandle htight hhandle,
      bind_eq_ok.mpr ⟨row.arguments, linker, constantsRev_of_holds htight [] arguments harguments,
        bind_eq_ok.mpr ⟨bootstrap, linker, row_of_getElem? htight hrow,
          request_of_resolves htight (.dynamic bootstrap name descriptor) hindex⟩⟩⟩

theorem constantsRev_of_holds {linker : Linker} (htight : linker.Tight)
    (done : List Pool.Index) : ∀ (cs : List Constant) {indices : List Pool.Index},
    HoldsAll linker indices cs →
      constantsRev done cs linker = .ok (done.reverse ++ indices) linker
  | [], _, h => by rw [h, List.append_nil]; rfl
  | c :: rest, _, ⟨index, later, heq, hc, hrest⟩ => by
    have hlater := constantsRev_of_holds htight (index :: done) rest hrest
    rw [List.reverse_cons, List.append_assoc, List.singleton_append] at hlater
    rw [heq]
    exact bind_eq_ok.mpr ⟨index, linker, constant_of_holds htight c hc, hlater⟩

end

end Linking

end JvmClass
