/-
  The two passes over a class.

  * `bootstraps_of_decode`: the pass that moves over everything in front of the
    attributes of a class and the one that reads it meet at the table of
    attributes.  The bootstrap methods that constants refer to are those in the
    attributes that the second pass moves over;
  * `interleaved` is a class file with two such attributes.
-/
import JvmClass.Proofs.ClassFile.Verbatim

namespace JvmClass.ClassFile

open Reader AttributeTable

/-- **Both passes over a class see the same attributes.**  They read the number
    of attributes at the same place `table`, see the same attributes behind it
    and stop at the same place.  The bootstrap methods that the second
    pass resolves references with are the rows in the contents of the attributes
    that hold bootstrap methods, one after the other; and what it reads of the
    attributes does not depend on these. -/
theorem bootstraps_of_decode {bytes : Bytes} {options : DecodeOptions} {record : ClassRecord}
    (h : decode bytes options = .ok record) :
    ∃ header start table stop attrs tables,
      let linkage : Linkage := ⟨header.pool, tables.flatten.toArray⟩
      readHeader.runOn bytes = .ok (header, start) ∧
      -- the first pass
      findBootstraps header.pool start = .ok linkage.bootstraps stop ∧
      skipToAttributes start = .ok () table ∧
      readRows header.pool table = .ok linkage.bootstraps stop ∧
      -- the second pass
      readClass linkage options header.minorVersion header.majorVersion start = .ok record stop ∧
      (∃ front parts,
        readFront linkage options header.minorVersion header.majorVersion start =
          .ok front table ∧
        readClassParts linkage options table = .ok parts stop ∧
        record = parts.addTo front ∧
        Steps (readClassAttribute linkage options) ⟨none, none, .empty⟩ attrs parts ∧
        Steps (readClassAttribute linkage options) ⟨none, none, .empty⟩
          (attrs.filter fun attr => !isBootstraps attr) parts) ∧
      -- what they see
      readRawTable header.pool table = .ok attrs stop ∧
      List.Forall₂ (fun attr rows => readBootstraps.ReadsWhole attr.info rows)
        (attrs.filter isBootstraps) tables := by
  obtain ⟨header, start, stop, hheader, hbehind⟩ := decode_eq_ok.mp h
  obtain ⟨bootstraps, e, hbootstraps, hclass⟩ := readBehind_eq_ok hbehind
  obtain ⟨table, front, parts, attrs, tables, hskip, hfront, hparts, hrows, rfl, rfl, rfl, htable,
    hsteps, htables⟩ := attributes_of_readClass hclass hbootstraps
  exact ⟨header, start, table, stop, attrs, tables, hheader, hbootstraps, hskip, hrows, hclass,
    ⟨front, parts, hfront, hparts, rfl, hsteps, steps_filter hsteps⟩, htable, htables⟩

/-- A class file with a source file between two attributes that hold a bootstrap
    method each. -/
def interleaved : Bytes :=
  [0xCA, 0xFE, 0xBA, 0xBE, 0, 0, 0, 0x34, 0, 5, 1, 0, 1, 0x41, 7, 0, 1, 1, 0, 0x10, 0x42, 0x6F,
    0x6F, 0x74, 0x73, 0x74, 0x72, 0x61, 0x70, 0x4D, 0x65, 0x74, 0x68, 0x6F, 0x64, 0x73, 1, 0, 0x0A,
    0x53, 0x6F, 0x75, 0x72, 0x63, 0x65, 0x46, 0x69, 0x6C, 0x65, 0, 0x21, 0, 2, 0, 0, 0, 0, 0, 0, 0,
    0, 0, 3, 0, 3, 0, 0, 0, 6, 0, 1, 0, 7, 0, 0, 0, 4, 0, 0, 0, 2, 0, 1, 0, 3, 0, 0, 0, 8, 0, 1, 0,
    8, 0, 1, 0, 9]

/-- The rows of both attributes are found. -/
theorem bootstraps_of_decode_interleaved :
    ∃ header start table stop, readHeader.runOn interleaved = .ok (header, start) ∧
      skipToAttributes start = .ok () table ∧
      readRows header.pool table = .ok #[⟨7, []⟩, ⟨8, [9]⟩] stop := by
  obtain ⟨record, hdecode, -⟩ := Result.exists_ok (p := fun _ => True)
    (x := decode interleaved {}) (by decide +kernel)
  obtain ⟨header, start, table, stop, attrs, tables, hheader, -, hskip, hrows, -⟩ :=
    bootstraps_of_decode hdecode
  have hlinkage : linkageOf interleaved = .ok ⟨header.pool, tables.flatten.toArray⟩ := by
    refine Result.map_eq_ok.mpr ⟨(_, stop), runOn_eq_ok.mpr ?_, rfl⟩
    refine bind_eq_ok.mpr ⟨header, start, runOn_eq_ok.mp hheader, ?_⟩
    exact bind_eq_ok.mpr ⟨_, stop, bind_eq_ok.mpr ⟨(), table, hskip, hrows⟩, rfl⟩
  have hfound : (Linkage.bootstraps <$> linkageOf interleaved).toOption =
      some #[⟨7, []⟩, ⟨8, [9]⟩] := by decide +kernel
  rw [hlinkage] at hfound
  have hrow : tables.flatten.toArray = #[⟨7, []⟩, ⟨8, [9]⟩] := Option.some.inj hfound
  exact ⟨header, start, table, stop, hheader, hskip, hrow ▸ hrows⟩

end JvmClass.ClassFile
