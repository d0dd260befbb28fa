/-
  Adding to a linker fails only where the pool is full.

  * `Linker.Tidy`: every bootstrap method has an entry in the pool that asked
    for it, so the table of bootstrap methods is never full before the pool is;
  * `attempt_request`, `attempt_constant` and `attempt_invokeDynamic`: adding what
    can be linked keeps a linker tidy, or no more than one slot of the pool is
    left.
-/
import JvmClass.Proofs.Attempt
import JvmClass.Proofs.Linkage.Resolved

namespace JvmClass

namespace Pool

/-- A step failed since no more than one slot is left. -/
def Builder.Full (cause : Invalid) (builder : Builder) : Prop :=
  cause = .poolFull ∧ maxSlots ≤ builder.size + 1

/-- The row of the bootstrap method table that an entry refers to. -/
def Entry.bootstrap? : Entry → Option UInt16
  | dynamic bootstrap _ | invokeDynamic bootstrap _ => some bootstrap
  | _ => none

/-- The row of the bootstrap method table that is asked for with a value. -/
def Request.bootstrap? : Request → Option UInt16
  | dynamic bootstrap _ _ | invokeDynamic bootstrap _ _ => some bootstrap
  | _ => none

/-- The entries refer to `rows` bootstrap methods, and there are at least
    `least` slots. -/
structure Builder.Named (rows least : Nat) (builder : Builder) : Prop extends builder.Valid where
  named : ∀ entry ∈ builder.entries, ∀ b ∈ entry.bootstrap?, b.toNat < rows
  least_le : least ≤ builder.size

section
variable {rows least : Nat}

theorem attempt_add {entry : Entry} (hreserved : entry ≠ .reserved)
    (h : ∀ b ∈ entry.bootstrap?, b.toNat < rows) :
    Attempt (Builder.Named rows least) (add entry) (fun _ => True) Builder.Full := by
  intro builder hnamed
  unfold add
  split
  next => exact ⟨fun _ _ hrun => by cases hrun; exact ⟨hnamed, trivial⟩, nofun⟩
  next =>
    split
    next hfull =>
      refine ⟨nofun, fun _ _ hrun => ?_⟩
      cases hrun
      have hslots := entry.length_slots_le
      exact ⟨rfl, by omega⟩
    next hroom =>
      refine ⟨fun _ _ hrun => ?_, nofun⟩
      cases hrun
      refine ⟨⟨hnamed.toValid.push hreserved (by omega), fun other hmem => ?_, ?_⟩, trivial⟩
      · rw [← Array.mem_toList_iff, Builder.entries_push] at hmem
        rcases List.mem_append.mp hmem with hold | hslot
        · exact hnamed.named other (Array.mem_toList_iff.mp hold)
        · unfold Entry.slots at hslot
          split at hslot
          · rcases List.mem_cons.mp hslot with rfl | hslot
            · exact h
            · rw [List.mem_singleton.mp hslot]; exact nofun
          · rw [List.mem_singleton.mp hslot]; exact h
      · rw [Builder.size_push]
        exact Nat.le_trans hnamed.least_le (Nat.le_add_right ..)

theorem attempt_utf8 (text : String) :
    Attempt (Builder.Named rows least) (Intern.utf8 text) (fun _ => True) Builder.Full :=
  attempt_add (by simp) nofun

theorem attempt_classRef (name : String) :
    Attempt (Builder.Named rows least) (Intern.classRef name) (fun _ => True) Builder.Full :=
  (attempt_utf8 name).after fun _ => attempt_add (by simp) nofun

theorem attempt_nameAndType (name descriptor : String) :
    Attempt (Builder.Named rows least) (Intern.nameAndType name descriptor) (fun _ => True)
      Builder.Full :=
  (attempt_utf8 name).after fun _ => (attempt_utf8 descriptor).after fun _ =>
    attempt_add (by simp) nofun

/-- A request for a value whose bootstrap method, if it has one, is there. -/
theorem attempt_index (request : Request) (h : ∀ b ∈ request.bootstrap?, b.toNat < rows) :
    Attempt (Builder.Named rows least) request.index (fun _ => True) Builder.Full := by
  cases request with
  | utf8 text => exact attempt_utf8 text
  | classRef name => exact attempt_classRef name
  | string text | methodType text =>
    exact (attempt_utf8 text).after fun _ => attempt_add (by simp) nofun
  | integer | float | long | double | methodHandle => exact attempt_add (by simp) nofun
  | nameAndType name descriptor => exact attempt_nameAndType name descriptor
  | fieldRef member =>
    exact (attempt_classRef _).after fun _ => (attempt_nameAndType _ _).after fun _ =>
      attempt_add (by simp) nofun
  | methodRef member interface =>
    refine (attempt_classRef _).after fun owner => (attempt_nameAndType _ _).after fun inner => ?_
    split
    · exact attempt_add (by simp) nofun
    · exact attempt_add (by simp) nofun
  | dynamic bootstrap name descriptor | invokeDynamic bootstrap name descriptor =>
    exact (attempt_nameAndType name descriptor).after fun _ => attempt_add (by simp) h

end

theorem mem_of_get {builder : Builder} {index : Index} {entry : Entry}
    (h : builder.toPool.get index = .ok entry) : entry ∈ builder.entries := by
  unfold get at h
  split at h
  next => exact nomatch h
  next => exact nomatch h
  next hget => cases h; exact Array.mem_of_getElem? hget

/-- An index stands for a value with a bootstrap method at an entry that refers
    to it. -/
theorem Request.exists_get_of_resolves {request : Request} {pool : Pool} {index : Index}
    {b : UInt16} (h : request.Resolves pool index) (hb : request.bootstrap? = some b) :
    ∃ entry, pool.get index = .ok entry ∧ entry.bootstrap? = some b := by
  cases request with
  | dynamic | invokeDynamic =>
    cases hb
    obtain ⟨inner, hget, -⟩ := h
    exact ⟨_, hget, rfl⟩
  | _ => exact nomatch hb

end Pool

/-! ## Linkers -/

/-- A step failed since no more than one slot of the pool is left. -/
abbrev Linker.Full (cause : Invalid) (linker : Linker) : Prop :=
  Pool.Builder.Full cause linker.pool

/-- Every bootstrap method has an entry that asked for it and countable
    arguments.  Bootstrap methods presuppose `linked`. -/
structure Linker.Tidy (linked : Prop) (linker : Linker) : Prop where
  valid : linker.Valid
  named : linker.pool.Named linker.rows.size (linker.rows.size + 1)
  arguments : ∀ row ∈ linker.rows, row.arguments.length ≤ 0xFFFF
  linked : linker.rows ≠ #[] → linked

theorem Linker.tidy_empty (linked : Prop) : Linker.empty.Tidy linked where
  valid := Linker.valid_empty
  named := by
    refine ⟨Pool.Builder.valid_empty, ?_, Nat.le_refl 1⟩
    simp [Linker.empty, Pool.Builder.empty, Pool.Entry.bootstrap?]
  arguments := nofun
  linked h := absurd rfl h

namespace Linking

variable {linked : Prop} {α : Type}

/-- A step that concerns the pool alone leaves the rows as they are. -/
theorem lift_named {step : Pool.Interning α} {P : α → Prop} {linker : Linker} {least : Nat}
    (hvalid : linker.Valid) (hnamed : linker.pool.Named linker.rows.size least)
    (h : Attempt (Pool.Builder.Named linker.rows.size least) step P Pool.Builder.Full) :
    (∀ a t, (liftM step : Linking α) linker = .ok a t →
      t.Valid ∧ t.rows = linker.rows ∧ t.pool.Named linker.rows.size least ∧ P a) ∧
      ∀ cause t, (liftM step : Linking α) linker = .error cause t → Linker.Full cause t := by
  obtain ⟨hok, herror⟩ := h linker.pool hnamed
  refine ⟨fun a t hrun => ?_, fun cause t hrun => herror cause t.pool (lift_eq_error hrun)⟩
  obtain ⟨hstep, hrows, hindices⟩ := lift_eq_ok.mp hrun
  obtain ⟨hnext, ha⟩ := hok a t.pool hstep
  exact ⟨hvalid.of_pool hnext.toValid hrows hindices, hrows, hnext, ha⟩

theorem lift_tidy {step : Pool.Interning α} {P : α → Prop} {linker : Linker}
    (htidy : linker.Tidy linked)
    (h : Attempt (Pool.Builder.Named linker.rows.size (linker.rows.size + 1)) step P
      Pool.Builder.Full) :
    (∀ a t, (liftM step : Linking α) linker = .ok a t → t.Tidy linked ∧ P a) ∧
      ∀ cause t, (liftM step : Linking α) linker = .error cause t → Linker.Full cause t := by
  obtain ⟨hok, herror⟩ := lift_named htidy.valid htidy.named h
  refine ⟨fun a t hrun => ?_, herror⟩
  obtain ⟨hvalid, hrows, hnamed, ha⟩ := hok a t hrun
  rw [← hrows] at hnamed
  exact ⟨⟨hvalid, hnamed, hrows ▸ htidy.arguments, hrows ▸ htidy.linked⟩, ha⟩

theorem attempt_request (request : Pool.Request) (h : request.bootstrap? = none) :
    Attempt (Linker.Tidy linked) (liftM request.index : Linking Pool.Index) (fun _ => True)
      Linker.Full :=
  fun _ htidy => lift_tidy htidy (Pool.attempt_index request (by simp [h]))

theorem attempt_handle {h : Handle} (hkind : Handle.isKind h.kind) :
    Attempt (Linker.Tidy linked) (handle h) (fun _ => True) Linker.Full := by
  rw [handle_eq, if_pos hkind]
  have hmember : (member h).bootstrap? = none := by
    unfold member
    split <;> rfl
  exact (attempt_request _ hmember).after fun inner =>
    attempt_request (.methodHandle h.kind inner) rfl

/-- An entry that asks for a row behind those that there are is new. -/
theorem size_lt_of_mem {linker : Linker} {pool : Pool.Builder} {entry : Pool.Entry} {b : UInt16}
    (htidy : linker.Tidy linked) (hle : linker.pool.entries.toList <+: pool.entries.toList)
    (hmem : entry ∈ pool.entries) (hentry : entry.bootstrap? = some b)
    (hb : b.toNat = linker.rows.size) : linker.pool.size < pool.size := by
  by_contra hlt
  have hsame := hle.eq_of_length_le (by simpa [Pool.Builder.size] using hlt)
  have hold : entry ∈ linker.pool.entries := by
    rw [← Array.mem_toList_iff, hsame]
    exact Array.mem_toList_iff.mpr hmem
  have := htidy.named.named entry hold b hentry
  omega

/-- The entry that asks for a bootstrap method comes right after its row, so
    that the table has no more rows than the pool has entries. -/
theorem attempt_rowRequest {row : BootstrapRow} (harguments : row.arguments.length ≤ 0xFFFF)
    (hlinked : linked) {request : UInt16 → Pool.Request}
    (hrequest : ∀ b, (request b).bootstrap? = some b) :
    Attempt (Linker.Tidy linked) (do
      let index ← Linking.row row
      liftM (request index).index : Linking Pool.Index) (fun _ => True) Linker.Full := by
  have hindex : ∀ {rows least : Nat} {index : UInt16}, index.toNat < rows →
      Attempt (Pool.Builder.Named rows least) (request index).index (fun _ => True)
        Pool.Builder.Full := fun hlt =>
    Pool.attempt_index _ (by simpa [hrequest] using hlt)
  intro linker htidy
  simp only [Bind.bind, EStateM.bind, row_eq]
  cases hfound : linker.rowIndices[row]? with
  | some index =>
    have hrow := htidy.valid.found row index hfound
    exact lift_tidy htidy (hindex (Array.getElem?_eq_some_iff.mp hrow).1)
  | none =>
    -- The row is new, so the entry that asks for it is new as well.
    have hsize := htidy.named.size_le
    have hleast := htidy.named.least_le
    obtain ⟨index, hcount⟩ : ∃ index, count linker.rows.size "bootstrap methods" = .ok index :=
      ⟨_, if_pos (by simp only [Pool.Builder.maxSlots] at hsize; omega)⟩
    have hlast := toNat_of_count hcount
    have hrow : Linking.row row linker = .ok index
        ⟨linker.pool, linker.rows.push row, linker.rowIndices.insert row index⟩ := by
      rw [row_eq, hfound, hcount]
    obtain ⟨hvalid, -, -⟩ := yields_row row linker index _ htidy.valid hrow
    have hnamed : linker.pool.Named (linker.rows.push row).size (linker.rows.size + 1) := by
      refine ⟨htidy.named.toValid, fun entry hmem b hb => ?_, hleast⟩
      rw [Array.size_push]
      exact Nat.lt_succ_of_lt (htidy.named.named entry hmem b hb)
    rw [hcount]
    obtain ⟨hok, herror⟩ := lift_named hvalid hnamed
      (hindex (by rw [Array.size_push, hlast]; exact Nat.lt_succ_self _))
    refine ⟨fun a t hrun => ⟨?_, trivial⟩, herror⟩
    obtain ⟨htvalid, hrows, htnamed, -⟩ := hok a t hrun
    obtain ⟨-, hle, hentered⟩ := (request index).yields_index.lift _ a t hvalid hrun
    obtain ⟨entry, hget, hentry⟩ := Pool.Request.exists_get_of_resolves
      (hentered t htvalid (Growing.refl t)) (hrequest index)
    have hlt := size_lt_of_mem htidy hle.1 (Pool.mem_of_get hget) hentry hlast
    refine ⟨htvalid, ?_, ?_, fun _ => hlinked⟩
    · rw [hrows]
      refine ⟨htnamed.toValid, htnamed.named, ?_⟩
      rw [Array.size_push]
      omega
    · rw [hrows]
      intro other hmem
      rcases Array.mem_push.mp hmem with hold | rfl
      · exact htidy.arguments other hold
      · exact harguments

mutual

/-- **Adding a constant that can be linked fails only where the pool is
    full.** -/
theorem attempt_constant : ∀ c : Constant, c.Linkable linked →
    Attempt (Linker.Tidy linked) (constant c) (fun _ => True) Linker.Full
  | .integer value, _ => attempt_request (.integer value) rfl
  | .float bits, _ => attempt_request (.float bits) rfl
  | .long value, _ => attempt_request (.long value) rfl
  | .double bits, _ => attempt_request (.double bits) rfl
  | .string text, _ => attempt_request (.string text) rfl
  | .classRef name, _ => attempt_request (.classRef name) rfl
  | .methodType descriptor, _ => attempt_request (.methodType descriptor) rfl
  | .handle _, hkind => attempt_handle hkind
  | .dynamic name descriptor h arguments, ⟨hlinked, hkind, hcount, harguments⟩ => by
    refine (attempt_handle hkind).after fun handle => ?_
    refine (attempt_constantsRev [] arguments harguments).bind fun indices hindices => ?_
    have hlength : (⟨handle, indices⟩ : BootstrapRow).arguments.length ≤ 0xFFFF := by
      simp only [hindices, List.length_nil]
      omega
    have hrequest : ∀ b, (Pool.Request.dynamic b name descriptor).bootstrap? = some b :=
      fun _ => rfl
    exact attempt_rowRequest hlength hlinked hrequest

theorem attempt_constantsRev (done : List Pool.Index) : ∀ cs : List Constant,
    Constant.Linkables linked cs → Attempt (Linker.Tidy linked) (constantsRev done cs)
      (fun indices => indices.length = done.length + cs.length) Linker.Full
  | [], _ => .pure (by simp)
  | c :: rest, ⟨hc, hrest⟩ => by
    refine (attempt_constant c hc).after fun index => ?_
    refine (attempt_constantsRev (index :: done) rest hrest).mono fun indices hindices => ?_
    rw [hindices, List.length_cons, List.length_cons]
    omega

end

/-- Adding an entry that calls a bootstrap method that can be linked. -/
theorem attempt_invokeDynamic (name descriptor : String) {method : BootstrapMethod}
    (h : method.Linkable linked) :
    Attempt (Linker.Tidy linked) (do
      let index ← bootstrapMethod method
      liftM (Pool.Intern.invokeDynamic index name descriptor)) (fun _ => True) Linker.Full := by
  simp only [bootstrapMethod, bind_assoc]
  refine (attempt_handle h.kind).after fun handle => ?_
  refine (attempt_constantsRev [] _ (Constant.linkables_iff.mpr h.arguments)).bind
    fun indices hindices => ?_
  have hlength : (⟨handle, indices⟩ : BootstrapRow).arguments.length ≤ 0xFFFF := by
    have := h.count
    simp only [hindices, List.length_nil]
    omega
  have hrequest : ∀ b, (Pool.Request.invokeDynamic b name descriptor).bootstrap? = some b :=
    fun _ => rfl
  exact attempt_rowRequest hlength h.exist hrequest

end Linking

end JvmClass
