/-
  Classes without their debug information.

  * `ClassRecord.DebugFree`: a class tells nothing about its source;
  * `debugFree_of_decode`: a class that is read without debug information has
    none, and leaving it out again changes nothing;
  * `stripDebug_keeps`: stripping a class file removes debug information, keeps
    everything else, and does nothing when it is done again.
-/
import JvmClass.Proofs.ClassFile.Reencode
import JvmClass.Proofs.ClassFile.View

namespace JvmClass

/-! ## Classes that tell nothing about their source -/

/-- A body without line numbers and names of local variables. -/
structure Code.DebugFree (code : Code) : Prop where
  lines : code.lineNumbers = none
  locals : code.localVariables = none
  localTypes : code.localVariableTypes = none
  raw : ∀ attr ∈ code.attributes, attr.name ∉ AttributeName.debugInCode

/-- A method without names of its parameters. -/
structure MethodRecord.DebugFree (method : MethodRecord) : Prop where
  code : ∀ code ∈ method.code, code.DebugFree
  attributes : ∀ attr ∈ method.attributes, attr.name ≠ AttributeName.methodParameters

/-- A class that tells nothing about its source.  An attribute of a class or a
    field that is called as one of the names of parameters is no such one: like
    any other attribute that means nothing there, it is kept byte for byte. -/
structure ClassRecord.DebugFree (record : ClassRecord) : Prop where
  sourceFile : record.sourceFile = none
  sourceDebugExtension : record.sourceDebugExtension = none
  methods : ∀ method ∈ record.methods, method.DebugFree
  fields : ∀ field ∈ record.fields, ∀ attr ∈ field.attributes, attr.isDebug = false
  attributes : ∀ attr ∈ record.attributes, attr.isDebug = false ∧
    attr.name ≠ AttributeName.sourceFile ∧ attr.name ≠ AttributeName.sourceDebugExtension

theorem ClassRecord.DebugFree.mapCode {record : ClassRecord} (h : record.DebugFree)
    {f : MethodRecord → Code → Code} (hf : ∀ method code, code.DebugFree → (f method code).DebugFree) :
    (record.mapCode f).DebugFree where
  sourceFile := h.sourceFile
  sourceDebugExtension := h.sourceDebugExtension
  methods method hmethod := by
    obtain ⟨before, hbefore, rfl⟩ := List.mem_map.mp hmethod
    refine ⟨fun code hcode => ?_, (h.methods before hbefore).attributes⟩
    obtain ⟨body, hbody, rfl⟩ := Option.map_eq_some_iff.mp hcode
    exact hf before body ((h.methods before hbefore).code body hbody)
  fields field hfield := by
    obtain ⟨before, hbefore, rfl⟩ := List.mem_map.mp hfield
    exact h.fields before hbefore
  attributes := h.attributes

namespace Attribute

theorem isDebug_of_name {attr : Attribute} (h : attr.name ≠ AttributeName.methodParameters) :
    attr.isDebug = false := by
  cases attr with
  | methodParameters => exact absurd rfl h
  | _ => rfl

theorem kept_eq_self {attributes : List Attribute} :
    kept true attributes = attributes ↔ ∀ attr ∈ attributes, attr.isDebug = false := by
  simp [kept, List.filter_eq_self]

/-- Only the names of parameters have their name in a method. -/
theorem name_of_onMethod {attr : Attribute} (hstands : attr.OnMethod)
    (h : attr.isDebug = false) : attr.name ≠ AttributeName.methodParameters := by
  cases attr with
  | raw attr => exact fun hname => hstands (by rw [← Attribute.name, hname]; decide)
  | parameterAnnotations visible _ => cases visible <;> simp only [Attribute.name] <;> decide
  | methodParameters => cases h
  | _ => first | exact absurd hstands id | simp only [Attribute.name]; decide

end Attribute

/-! ## Nothing to leave out -/

/-- Nothing is left out of a body without line numbers and names of local
    variables. -/
theorem Code.DebugFree.view_eq {code : Code} (h : code.DebugFree)
    (initial : Except Malformed (List VerificationType)) :
    code.view { skipDebug := true } initial = .ok code := by
  refine Code.view_eq_ok.mpr ⟨code.frames, ?_, ?_⟩
  · rw [Frames.view]
    cases code.frames with
    | none => rfl
    | some frames => exact Result.bind_eq_ok.mpr ⟨frames, Frames.shown_false frames, rfl⟩
  · obtain ⟨_, _, _, _, lines, locals, types, _, _, _, _⟩ := code
    obtain rfl : lines = none := h.lines
    obtain rfl : locals = none := h.locals
    obtain rfl : types = none := h.localTypes
    rfl

/-- Nothing is left out of a class that tells nothing about its source. -/
theorem ClassRecord.DebugFree.view_eq {record : ClassRecord} (h : record.DebugFree) :
    record.view { skipDebug := true } = .ok record := by
  refine ClassRecord.view_eq_ok.mpr
    ⟨record.methods, ?_, List.forall₂_same.mpr fun method hmethod => ⟨method.code, ?_, ?_⟩⟩
  · simp only [if_true, ← h.sourceFile, ← h.sourceDebugExtension]
  · have hattributes := fun attr hattr =>
      Attribute.isDebug_of_name ((h.methods method hmethod).attributes attr hattr)
    rw [Attribute.kept_eq_self.mpr hattributes]
  · cases hcode : method.code with
    | none => exact .none
    | some code => exact .some (((h.methods method hmethod).code code hcode).view_eq _)

/-- What is left of a body that was read without debug information. -/
theorem Code.debugFree_of_view {options : DecodeOptions} (hskip : options.skipDebug = true)
    {initial : Except Malformed (List VerificationType)} {code : Code}
    (hraw : ∀ attr ∈ code.attributes, attr.name ∉ AttributeName.inCode)
    (h : code.view options initial = .ok code) : code.DebugFree := by
  obtain ⟨frames, -, hcode⟩ := Code.view_eq_ok.mp h
  rw [hskip] at hcode
  refine ⟨by rw [hcode]; rfl, by rw [hcode]; rfl, by rw [hcode]; rfl, fun attr hattr hmem => ?_⟩
  refine hraw attr hattr ?_
  simp only [AttributeName.debugInCode, AttributeName.inCode, List.mem_cons, List.not_mem_nil,
    or_false] at hmem ⊢
  exact hmem.elim .inl fun hmem => .inr (hmem.elim .inl fun hmem => .inr (.inl hmem))

namespace ClassFile

open Reader

variable {bytes : Bytes} {options : DecodeOptions} {record : ClassRecord}

/-- **A class that is read without debug information** has none. -/
theorem debugFree_of_decode (hskip : options.skipDebug = true)
    (h : decode bytes options = .ok record) : record.DebugFree := by
  obtain ⟨linked, hsound, -⟩ := sound_of_decode h
  obtain ⟨methods, hrecord, hmethods⟩ := ClassRecord.view_eq_ok.mp (view_of_decode h)
  rw [hskip] at hrecord hmethods
  obtain rfl : record.methods = methods := by rw [hrecord]
  refine ⟨by rw [hrecord]; rfl, by rw [hrecord]; rfl, fun method hmethod => ?_,
    fun field hfield attr hattr => ?_, fun attr hattr => ?_⟩
  · obtain ⟨code, hsame, hcode⟩ := List.forall₂_same.mp hmethods method hmethod
    obtain rfl : method.code = code := by rw [hsame]
    have hreadable := hsound.readable.methods method hmethod
    constructor
    · intro code hmem
      have hbody := hsound.readable.bodies method hmethod code hmem
      rw [hmem] at hcode
      cases hcode with
      | some hview => exact Code.debugFree_of_view hskip hbody.raw hview
    · have hkept : Attribute.kept true method.attributes = method.attributes := by
        conv_rhs => rw [hsame]
      exact fun attr hattr => Attribute.name_of_onMethod (hreadable.stands attr hattr)
        (Attribute.kept_eq_self.mp hkept attr hattr)
  · have hstands := (hsound.readable.fields field hfield).stands attr hattr
    cases attr with
    | methodParameters => exact hstands.elim
    | _ => rfl
  · have hstands := hsound.readable.stands attr hattr
    obtain ⟨hfile, hextension, -⟩ := name_of_onClass hstands
    refine ⟨?_, hfile, hextension⟩
    cases attr with
    | methodParameters => exact hstands.elim
    | _ => rfl

/-- **A class file that was written for a class without debug information** is
    read without it as this class, if its frames are spelled out in both. -/
theorem decode_spelled (hdebug : record.DebugFree) (hreadable : record.Readable)
    (hframes : ∀ method ∈ record.methods, ∀ code ∈ method.code, ∀ frames ∈ code.frames,
      ∃ list, frames = .expanded list) {hierarchy : Hierarchy}
    (h : encode record {} hierarchy = .ok bytes) :
    decode bytes { expandFrames := true } = .ok record.tidy ∧
      decode bytes { skipDebug := true, expandFrames := true } = .ok record.tidy := by
  have hspelled : decode bytes { expandFrames := true } = .ok record.tidy :=
    decode_encode_as hreadable (fun method hmethod code hcode =>
      Code.readAs_tidy record.name method (hframes method hmethod code hcode)) h
  refine ⟨hspelled, ?_⟩
  have htidy : record.tidy.DebugFree :=
    hdebug.mapCode fun _ _ h => ⟨h.lines, h.locals, h.localTypes, h.raw⟩
  rcases view_or_malformed hspelled { skipDebug := true } with ⟨other, hother, hview⟩ | ⟨hspells, -⟩
  · rw [htidy.view_eq] at hview
    cases hview
    exact hother
  · exact nomatch hspells.1

/-- Frames of a class that was read with its frames spelled out. -/
theorem expanded_of_decode (hspelled : options.SpellsOut)
    (h : decode bytes options = .ok record) :
    ∀ method ∈ record.methods, ∀ code ∈ method.code, ∀ frames ∈ code.frames,
      ∃ list, frames = .expanded list := by
  obtain ⟨methods, hrecord, hmethods⟩ := ClassRecord.view_eq_ok.mp (view_of_decode h)
  obtain rfl : record.methods = methods := by rw [hrecord]
  intro method hmethod code hcode frames hframes
  obtain ⟨body, hsame, hbody⟩ := List.forall₂_same.mp hmethods method hmethod
  obtain rfl : method.code = body := by rw [hsame]
  rw [hcode] at hbody
  cases hbody with
  | some hview =>
    obtain ⟨shown, hshown, hcode⟩ := Code.view_eq_ok.mp hview
    obtain rfl : code.frames = shown := by rw [hcode]; rfl
    rw [hframes, Frames.view, hspelled.2, hspelled.1] at hshown
    obtain ⟨once, honce, hsame⟩ := Result.bind_eq_ok.mp hshown
    cases hsame
    cases frames with
    | expanded list => exact ⟨list, rfl⟩
    | compressed deltas =>
      obtain ⟨_, -, honce⟩ := Result.bind_eq_ok.mp honce
      obtain ⟨_, -, honce⟩ := Result.bind_eq_ok.mp honce
      cases honce

/-- A class file that is long enough is stripped by reading it without debug
    information and writing it again. -/
theorem stripDebug_eq_ok {stripped : Bytes} (hlong : stripThreshold < bytes.length) :
    stripDebug bytes = .ok stripped ↔
      ∃ record, decode bytes { skipDebug := true, expandFrames := true } = .ok record ∧
        encode record {} .trivial = .ok stripped := by
  rw [stripDebug, if_neg (Nat.not_le.mpr hlong)]
  simp only [Result.bind_eq_ok, Result.mapError_eq_ok]

/-- **Stripping removes debug information, keeps everything else, and does
    nothing when it is done again.**  What is left is the class with its
    instructions and constants as they are read for written ones; its frames
    are the same once they are spelled out. -/
theorem stripDebug_keeps {stripped : Bytes} (hlong : stripThreshold < bytes.length)
    (h : stripDebug bytes = .ok stripped) :
    ∃ kept, decode stripped {} = .ok kept ∧ kept.DebugFree ∧
      (∀ record, decode bytes {} = .ok record →
        ∃ shown, record.view { skipDebug := true, expandFrames := true } = .ok shown ∧
          kept.view { expandFrames := true } = .ok shown.tidy) ∧
      stripDebug stripped = .ok stripped := by
  obtain ⟨shown, hshown, hencode⟩ := (stripDebug_eq_ok hlong).mp h
  obtain ⟨linked, hsound, -⟩ := sound_of_decode hshown
  have hdebug := debugFree_of_decode rfl hshown
  have hkept := decode_encode hsound.readable hencode
  obtain ⟨hspelled, hagain⟩ := decode_spelled hdebug hsound.readable
    (expanded_of_decode ⟨rfl, rfl⟩ hshown) hencode
  refine ⟨shown.normalize, hkept, ?_, fun record hrecord => ⟨shown, ?_, ?_⟩, ?_⟩
  · exact hdebug.mapCode fun _ _ h => ⟨h.lines, h.locals, h.localTypes, h.raw⟩
  · rcases view_or_malformed hrecord { skipDebug := true, expandFrames := true } with
      ⟨other, hother, hview⟩ | ⟨-, cause, hcause⟩
    · cases hshown.symm.trans hother
      exact hview
    · exact nomatch hshown.symm.trans hcause
  · rcases view_or_malformed hkept { expandFrames := true } with
      ⟨other, hother, hview⟩ | ⟨-, cause, hcause⟩
    · cases hspelled.symm.trans hother
      exact hview
    · exact nomatch hspelled.symm.trans hcause
  · by_cases hshort : stripThreshold < stripped.length
    · exact (stripDebug_eq_ok hshort).mpr ⟨shown.tidy, hagain, encode_tidy hencode .trivial⟩
    · rw [stripDebug, if_pos (Nat.not_lt.mp hshort)]
      rfl

/-! ## A class with a source file -/

/-- The class that switches, with a source file. -/
def sourced : ClassRecord := { switching with sourceFile := some "A" }

theorem writeClass_sourced (hierarchy : Hierarchy) :
    match writeClass (Body.write {} hierarchy "A" 52) sourced .empty with
    | .ok _ linker => linker.pool.entries.toList = switchingEntries ++ [.utf8 "SourceFile"]
    | .error _ _ => False := by
  obtain ⟨content, hlength, hcontent⟩ : ∃ content : Bytes, ¬ 0xFFFFFFFF < content.length ∧
      ∀ linker method, Body.write {} hierarchy "A" 52 method switchingBody linker =
        .ok content linker :=
    ⟨_, by decide, fun linker method => write_switchingBody hierarchy method linker⟩
  have hget (linker : Linker) : (get : Linking Linker) linker = .ok linker linker := rfl
  -- As for the class without a source file, with the name of the attribute behind.
  simp [sourced, switching, ClassRecord.ofName, objectClass, defaultMajorVersion, switchingEntries,
    hcontent, hlength, writeClass, writeMethod, writeExceptions, writeShared, writeBootstraps,
    Attribute.writeAnnotations, Annotations.absent, AttributeTable.optional, AttributeTable.attr,
    AttributeTable.write, AttributeName.code, AttributeName.sourceFile, Linking.count,
    Linking.each, Linking.eachRev, Pool.Intern.classRef?, Pool.Intern.classRef, Pool.Intern.utf8,
    Pool.add_mk, Pool.Entry.slots, Pool.Entry.isWide, Pool.Builder.maxSlots, Pool.Builder.empty,
    Linker.empty, liftM, monadLift, MonadLift.monadLift, Linking.ofInterning, Linking.ofExcept,
    Bind.bind, EStateM.bind, Except.bind, Pure.pure, EStateM.pure, Except.pure, Functor.map,
    EStateM.map, Bytes.u2, hget]

theorem encode_sourced (hierarchy : Hierarchy) :
    ∃ bytes, stripThreshold < bytes.length ∧ encode sourced {} hierarchy = .ok bytes := by
  have hwrite := writeClass_sourced hierarchy
  split at hwrite
  next body linker hrun =>
    obtain ⟨pool, hlong, hpool⟩ : ∃ pool, 2 < pool.length ∧ linker.pool.write = .ok pool := by
      rw [Pool.Builder.write, hwrite]
      exact ⟨_, by simp [Bytes.u2], rfl⟩
    refine ⟨_, ?_, encode_eq_ok.mpr ⟨body, linker, pool, rfl, hrun, hpool, rfl⟩⟩
    simp only [List.length_append, Bytes.u4, Bytes.u2, Bytes.length_ofNat, stripThreshold]
    omega
  next => exact hwrite.elim

theorem stripDebug_sourced : ∃ bytes stripped, encode sourced {} .trivial = .ok bytes ∧
    stripThreshold < bytes.length ∧ encode switching {} .trivial = .ok stripped ∧
      stripDebug bytes = .ok stripped := by
  obtain ⟨bytes, hlong, hbytes⟩ := encode_sourced .trivial
  obtain ⟨stripped, hstripped⟩ := encode_switching .trivial
  refine ⟨bytes, stripped, hbytes, hlong, hstripped, ?_⟩
  have hreadable : sourced.Readable := { wellFormed_switching.toReadable with }
  have hframes : ∀ method ∈ sourced.methods, ∀ code ∈ method.code, code.frames = none := by
    simp only [sourced, switching, List.forall_mem_singleton]
    rintro code ⟨⟩
    rfl
  have hspelled : decode bytes { expandFrames := true } = .ok sourced.tidy := by
    refine decode_encode_as hreadable (fun method hmethod code hcode => ?_) hbytes
    refine Code.readAs_tidy _ method fun frames hmem => ?_
    rw [hframes method hmethod code hcode] at hmem
    cases hmem
  rcases view_or_malformed hspelled { skipDebug := true } with ⟨other, hother, hview⟩ | ⟨hspells, -⟩
  · cases hview.symm.trans (show _ = Except.ok switching.tidy from rfl)
    exact (stripDebug_eq_ok hlong).mpr ⟨_, hother, encode_tidy hstripped .trivial⟩
  · cases hspells.1

/-- The debug information of a class that names its source file is removed, and
    stays so. -/
theorem stripDebug_keeps_sourced : ∃ bytes stripped, stripDebug bytes = .ok stripped ∧
    stripThreshold < bytes.length ∧
    ∃ kept, decode stripped {} = .ok kept ∧ kept.DebugFree ∧
      stripDebug stripped = .ok stripped := by
  obtain ⟨bytes, stripped, -, hlong, -, hstrip⟩ := stripDebug_sourced
  obtain ⟨kept, hkept, hdebug, -, hagain⟩ := stripDebug_keeps hlong hstrip
  exact ⟨bytes, stripped, hstrip, hlong, kept, hkept, hdebug, hagain⟩

end ClassFile

end JvmClass
