/-
  What options leave of a class.

  * `ClassRecord.view`: a class without what the options leave out, with frames
    in the form that they ask for;
  * `view_or_malformed`: a class that is read with some options is read with
    further ones as what these leave of it, unless they ask to spell out
    frames;
  * `decode_view`: options and the questions about a class file agree with
    reading all of it.
-/
import JvmClass.Proofs.ClassFile.Consistent
import JvmClass.Proofs.ClassFile.Inspection
import JvmClass.Proofs.ClassFile.Options

namespace JvmClass

/-- What options leave of a method of the class `owner`. -/
def MethodRecord.view (options : DecodeOptions) (owner : String) (method : MethodRecord) :
    Except Malformed MethodRecord := do
  let code ← method.code.mapM (Code.view options (method.initial owner))
  return { method with
    code := code
    attributes := Attribute.kept options.skipDebug method.attributes }

/-- What options leave of a class: `skipDebug` leaves out its source file, its
    debug extension, line numbers, local variables and the names of parameters,
    `skipFrames` all frames; otherwise `expandFrames` spells them out. -/
def ClassRecord.view (options : DecodeOptions) (record : ClassRecord) :
    Except Malformed ClassRecord := do
  let methods ← record.methods.mapM (MethodRecord.view options record.name)
  return { record with
    methods := methods
    sourceFile := if options.skipDebug then none else record.sourceFile
    sourceDebugExtension := if options.skipDebug then none else record.sourceDebugExtension }

/-- A body is related to what options leave of it. -/
def DecodeOptions.relation (options : DecodeOptions) : BodyRelation :=
  fun initial plain other => plain.view options initial = .ok other

theorem MethodRecord.view_eq_ok {options : DecodeOptions} {owner : String}
    {plain other : MethodRecord} :
    plain.view options owner = .ok other ↔
      plain.Related options.skipDebug options.relation owner other := by
  obtain ⟨access, name, descriptor, exceptions, code, annotations, attributes⟩ := plain
  rw [MethodRecord.view, Result.bind_eq_ok]
  constructor
  · rintro ⟨seen, hseen, hother⟩
    cases hother
    refine ⟨seen, rfl, ?_⟩
    cases code with
    | none => cases hseen; exact .none
    | some code =>
      obtain ⟨other, hother, hseen⟩ := Result.bind_eq_ok.mp hseen
      cases hseen
      exact .some hother
  · rintro ⟨seen, rfl, hseen⟩
    refine ⟨seen, ?_, rfl⟩
    cases hseen with
    | none => rfl
    | some hcode => exact Result.bind_eq_ok.mpr ⟨_, hcode, rfl⟩

theorem ClassRecord.view_eq_ok {options : DecodeOptions} {plain other : ClassRecord} :
    plain.view options = .ok other ↔
      plain.Related options.skipDebug options.relation other := by
  rw [ClassRecord.view, Result.bind_eq_ok]
  constructor
  · rintro ⟨methods, hmethods, hother⟩
    cases hother
    exact ⟨methods, rfl, (Result.mapM_eq_ok.mp hmethods).imp fun _ _ => MethodRecord.view_eq_ok.mp⟩
  · rintro ⟨methods, rfl, hmethods⟩
    exact ⟨methods, Result.mapM_eq_ok.mpr (hmethods.imp fun _ _ => MethodRecord.view_eq_ok.mpr), rfl⟩

namespace ClassFile

open Reader

variable {bytes : Bytes} {options : DecodeOptions} {record : ClassRecord}

/-- **A class that is read with some options** is read with further ones as what
    these leave of it, unless they ask for frames to be spelled out. -/
theorem view_or_malformed (h : decode bytes options = .ok record) (further : DecodeOptions) :
    (∃ other, decode bytes (options.union further) = .ok other ∧
      record.view further = .ok other) ∨
    further.SpellsOut ∧ ∃ cause, decode bytes (options.union further) = .error cause := by
  have hbody : ∀ linkage, BodiesFollow linkage options (options.union further) further.relation
      (fun _ _ => further.SpellsOut) :=
    fun linkage owner method body =>
      (Body.follows_view linkage options further owner method).runOn body
  have hdropped : (options.union further).skipDebug = (options.skipDebug || further.skipDebug) := rfl
  rcases related_or_malformed (E := fun _ _ _ => further.SpellsOut) hbody hdropped h with
    ⟨other, hother, hrelated⟩ | ⟨cause, _, _, hcause, -, hspelled⟩
  · exact .inl ⟨other, hother, ClassRecord.view_eq_ok.mpr hrelated⟩
  · exact .inr ⟨hspelled, cause, hcause⟩

theorem view_of_decode (h : decode bytes options = .ok record) :
    record.view options = .ok record := by
  have hsame : options.union options = options := by
    simp only [DecodeOptions.union, Bool.or_self]
  rcases view_or_malformed h options with ⟨other, hother, hview⟩ | ⟨-, cause, hcause⟩
  · rw [hsame, h] at hother
    cases hother
    exact hview
  · rw [hsame, h] at hcause
    cases hcause

/-- **Options and the questions about a class file agree with reading all of
    it.**  What is read with other options is what these leave of the class;
    that can only fail where frames are to be spelled out. -/
theorem decode_view (h : decode bytes {} = .ok record) :
    (∀ options other, decode bytes options = .ok other → record.view options = .ok other) ∧
    (∀ options cause, decode bytes options = .error cause →
      options.expandFrames = true ∧ options.skipFrames = false) ∧
    isClass bytes = true ∧ isValid bytes = true ∧ version bytes = record.majorVersion ∧
    decodeAccess bytes = .ok record.access ∧ access bytes = record.access.bits := by
  have hoptions : ∀ options : DecodeOptions,
      (∃ other, decode bytes options = .ok other ∧ record.view options = .ok other) ∨
        options.SpellsOut ∧ ∃ cause, decode bytes options = .error cause := by
    intro options
    have hunion : ({} : DecodeOptions).union options = options := by
      simp only [DecodeOptions.union, Bool.false_or]
    have hread := view_or_malformed h options
    rwa [hunion] at hread
  have hplain : ∃ plain, decode bytes { skipFrames := true } = .ok plain := by
    rcases hoptions { skipFrames := true } with ⟨plain, hplain, -⟩ | ⟨⟨hspelled, -⟩, -⟩
    · exact ⟨plain, hplain⟩
    · cases hspelled
  refine ⟨fun options other hother => ?_, fun options cause hcause => ?_, isClass_of_decode h, ?_,
    version_of_decode h, decodeAccess_of_decode h, access_of_decode h⟩
  · rcases hoptions options with ⟨seen, hseen, hview⟩ | ⟨-, cause, hcause⟩
    · cases hseen.symm.trans hother
      exact hview
    · cases hother.symm.trans hcause
  · rcases hoptions options with ⟨seen, hseen, -⟩ | ⟨hspelled, -⟩
    · cases hseen.symm.trans hcause
    · exact hspelled
  · obtain ⟨plain, hplain⟩ := hplain
    rw [isValid, isClass_of_decode h, hplain]
    rfl

/-- The class with line numbers and frames, read without the former and with the
    latter spelled out. -/
theorem decode_view_framedClass : ∃ record other,
    decode framedClass {} = .ok record ∧
      decode framedClass { skipDebug := true, expandFrames := true } = .ok other ∧
      record.view { skipDebug := true, expandFrames := true } = .ok other ∧
      version framedClass = record.majorVersion := by
  have hfull : (decode framedClass {}).isOk = true := by decide +kernel
  have hpart : (decode framedClass { skipDebug := true, expandFrames := true }).isOk = true := by
    decide +kernel
  cases hrecord : decode framedClass {} with
  | error cause => rw [hrecord] at hfull; exact nomatch hfull
  | ok record =>
    cases hother : decode framedClass { skipDebug := true, expandFrames := true } with
    | error cause => rw [hother] at hpart; exact nomatch hpart
    | ok other =>
      obtain ⟨hview, -, -, -, hversion, -⟩ := decode_view hrecord
      exact ⟨record, other, rfl, rfl, hview _ other hother, hversion⟩

end ClassFile

end JvmClass
