/-
  Reading a class apart from what stands behind it.

  * every step of reading a class is `Local`: constant pools, attributes, the
    walk to the bootstrap method table, fields, methods and the class itself;
  * `readRecord` reads a class, whatever stands behind it, and `local_readRecord`
    says that it does not depend on that.
-/
import JvmClass.Proofs.Attribute.Table
import JvmClass.Proofs.Bytes.Local

namespace JvmClass

open Reader

/-! ## Pools and attributes -/

namespace Pool

theorem local_readEntry : Local Entry.read := by
  have word {f : UInt16 → Entry} : Local (do return f (← u2)) := local_u2.bind fun _ => .pure
  have words {f : UInt16 → UInt16 → Entry} : Local (do return f (← u2) (← u2)) :=
    local_u2.bind fun _ => local_u2.bind fun _ => .pure
  refine local_position.bind fun offset => local_u1.bind fun tag => ?_
  split
  · exact local_u2.bind fun _ => (local_take _).bind fun _ => .pure
  · exact local_i4.bind fun _ => .pure
  · exact local_u4.bind fun _ => .pure
  · exact local_i8.bind fun _ => .pure
  · exact local_u8.bind fun _ => .pure
  · exact word
  · exact word
  · exact words
  · exact words
  · exact words
  · exact words
  · exact local_u1.bind fun _ => local_u2.bind fun _ => .pure
  · exact word
  · exact words
  · exact words
  · exact word
  · exact word
  · exact .throw

theorem local_readSlots (left : Nat) (filled : Array Entry) : Local (readSlots left filled) := by
  induction left, filled using readSlots.induct with
  | case1 filled => exact .pure
  | case2 filled => exact local_readEntry.bind fun entry => .guard .pure
  | case3 left filled ih ih' => exact local_readEntry.bind fun entry => .ite (ih entry) (ih' entry)

theorem local_read (count : UInt16) : Local (read count) :=
  .guard ((local_readSlots _ _).bind fun _ => .pure)

end Pool

/-- The content of an attribute is read apart from everything else. -/
theorem AttributeTable.local_read {σ : Type} (pool : Pool) (step : String → σ → Reader σ) (s : σ) :
    Local (read pool step s) := by
  have hentry (s : σ) : Local (readEntry pool step s) :=
    local_u2.bind fun _ => local_u4.bind fun _ => .lift fun name => (local_take _).bind fun _ =>
      .lift fun _ => .require .pure
  exact local_u2.bind fun count => .fold hentry _ s

theorem Attribute.local_readClassNames (pool : Pool) : Local (readClassNames pool) :=
  local_u2.bind fun _ => .times (local_u2.bind fun _ => .ofExcept _) _

/-! ## Classes -/

namespace ClassFile

variable {linkage : Linkage} {options : DecodeOptions}

theorem local_readHeader : Local readHeader :=
  local_u4.bind fun _ => .require (local_u2.bind fun _ => local_u2.bind fun _ =>
    local_u2.bind fun _ => (Pool.local_read _).bind fun _ => .pure)

theorem local_findBootstraps (pool : Pool) : Local (findBootstraps pool) := by
  have hattribute : Local skipAttribute :=
    (local_skip 2).bind fun _ => local_u4.bind fun _ => local_skip _
  have hmember : Local skipMember :=
    (local_skip 6).bind fun _ => local_u2.bind fun _ => (hattribute.times _).bind fun _ => .pure
  have hwalk : Local skipToAttributes :=
    (local_skip 6).bind fun _ => local_u2.bind fun _ => (local_skip _).bind fun _ =>
      local_u2.bind fun _ => (hmember.times _).bind fun _ =>
        local_u2.bind fun _ => (hmember.times _).bind fun _ => .pure
  have htable : Local (readBootstrapAttribute pool) := by
    refine local_u2.bind fun _ => local_u4.bind fun _ => (local_take _).bind fun _ => ?_
    exact .lift fun _ => .ite .pure (.lift fun _ => .require .pure)
  exact hwalk.bind fun _ => local_u2.bind fun _ => (htable.times _).bind fun _ => .pure

theorem local_readField : Local (readField linkage) :=
  local_u2.bind fun _ => local_u2.bind fun _ => .lift fun _ => local_u2.bind fun _ =>
    .lift fun _ => (AttributeTable.local_read _ _ _).bind fun _ => .pure

theorem local_readMethod (owner : String) : Local (readMethod linkage options owner) :=
  local_u2.bind fun _ => local_u2.bind fun _ => .lift fun _ => local_u2.bind fun _ =>
    .lift fun _ => (AttributeTable.local_read _ _ _).bind fun _ => .pure

theorem local_readClass (minorVersion majorVersion : UInt16) :
    Local (readClass linkage options minorVersion majorVersion) :=
  local_u2.bind fun _ => local_u2.bind fun _ => .lift fun name => local_u2.bind fun _ =>
    .lift fun _ => (Attribute.local_readClassNames _).bind fun _ =>
      local_u2.bind fun _ => (local_readField.times _).bind fun _ =>
        local_u2.bind fun _ => ((local_readMethod name).times _).bind fun _ =>
          (AttributeTable.local_read _ _ _).bind fun _ => .pure

/-- Read a class, whatever stands behind it. -/
def readRecord (options : DecodeOptions) : Reader ClassRecord := do
  let header ← readHeader
  let bootstraps ← peek (findBootstraps header.pool)
  readClass ⟨header.pool, bootstraps⟩ options header.minorVersion header.majorVersion

/-- **Reading a class does not depend on what stands behind it.** -/
theorem local_readRecord : Local (readRecord options) :=
  local_readHeader.bind fun header => (local_peek (local_findBootstraps header.pool)).bind fun _ =>
    local_readClass _ _

end ClassFile

end JvmClass
