/-
  What options leave of a method body.

  * `Code.view`: a body without what the options leave out, with its frames in
    the form that they ask for;
  * `follows_view`: a body that is read with some options is read with further
    ones as what these leave of it, unless they ask to spell out frames.
-/
import JvmClass.Body.Reading
import JvmClass.Proofs.Bytes.Follows
import JvmClass.Proofs.Attribute.Table
import JvmClass.Proofs.Frame.Delta

namespace JvmClass

/-- The options that ask for what either of two asks for. -/
def DecodeOptions.union (options further : DecodeOptions) : DecodeOptions where
  skipDebug := options.skipDebug || further.skipDebug
  skipFrames := options.skipFrames || further.skipFrames
  expandFrames := options.expandFrames || further.expandFrames

/-- Options ask for frames that are spelled out. -/
def DecodeOptions.SpellsOut (options : DecodeOptions) : Prop :=
  options.expandFrames = true ∧ options.skipFrames = false

/-- The attributes of a body that are debug information. -/
def AttributeName.debugInCode : List String :=
  [lineNumberTable, localVariableTable, localVariableTypeTable]

/-- The body with the frames `frames`, and without debug information if it is
    to be `dropped`. -/
def Code.showing (dropped : Bool) (frames : Option Frames) (code : Code) : Code :=
  { code with
    lineNumbers := if dropped then none else code.lineNumbers
    localVariables := if dropped then none else code.localVariables
    localVariableTypes := if dropped then none else code.localVariableTypes
    frames := frames }

/-- The frames that options leave, in a method with the locals `initial` on
    entry. -/
def Frames.view (options : DecodeOptions) (initial : Except Malformed (List VerificationType))
    (frames : Option Frames) : Except Malformed (Option Frames) :=
  if options.skipFrames then return none else frames.mapM (Frames.shown options.expandFrames initial)

/-- What options leave of a body of a method with the locals `initial` on
    entry. -/
def Code.view (options : DecodeOptions) (initial : Except Malformed (List VerificationType))
    (code : Code) : Except Malformed Code := do
  return code.showing options.skipDebug (← Frames.view options initial code.frames)

theorem Code.view_eq_ok {options : DecodeOptions}
    {initial : Except Malformed (List VerificationType)} {code other : Code} :
    code.view options initial = .ok other ↔
      ∃ frames, Frames.view options initial code.frames = .ok frames ∧
        other = code.showing options.skipDebug frames := by
  rw [Code.view, Result.bind_eq_ok]
  constructor
  · rintro ⟨frames, hframes, hother⟩
    cases hother
    exact ⟨frames, hframes, rfl⟩
  · rintro ⟨frames, hframes, rfl⟩
    exact ⟨frames, hframes, rfl⟩

/-- The locals on entry of a method of the class `owner`. -/
def MethodRecord.initial (owner : String) (method : MethodRecord) :
    Except Malformed (List VerificationType) :=
  initialLocals owner method.access method.name method.descriptor

namespace AttributeTable

open Reader

/-- An attribute that is left out follows whatever is read of it, if that makes
    no difference. -/
theorem follows_skipped {σ τ : Type} {x : Reader σ} {t : τ} {R : σ → τ → Prop}
    {E : Malformed → Prop} (h : Produces x fun s => R s t) (name : String) (content : Bytes) :
    Follows (readAll name x content) (readAll name (do skipRest; return t) content) R E := by
  intro c s d hrun
  obtain ⟨rfl, rest, hrest, -⟩ := readAll_eq_ok.mp hrun
  have hskip : ReadsAt [] [] (do skipRest; return t) content t :=
    ReadsAt.map (reads_skipRest [] content)
  exact .inl ⟨t, readAll_eq_ok.mpr ⟨rfl, _, runOn_of_reads hskip, by simp⟩, h.of_runOn hrest⟩

end AttributeTable

namespace Body

open Reader AttributeTable

variable {linkage : Linkage} {options further : DecodeOptions} {owner : String}
  {method : MethodRecord} {labels : LabelMap} {plain other : Code} {E : Malformed → Prop}

/-! ## Frames -/

theorem readFrames_eq :
    readFrames linkage options owner method labels = (do
      let deltas ← StackMap.read linkage.pool labels
      Frames.shown options.expandFrames (method.initial owner) (.compressed deltas)) := by
  unfold readFrames MethodRecord.initial
  congr
  funext deltas
  cases options.expandFrames with
  | false => rfl
  | true =>
    cases initialLocals owner method.access method.name method.descriptor with
    | error cause => rfl
    | ok initial =>
      change (do return .expanded (← expand initial deltas) : Reader Frames) =
        liftM (do return .expanded (← expand initial deltas) : Except Malformed Frames)
      cases expand initial deltas <;> rfl

theorem follows_readFrames :
    Follows (readFrames linkage options owner method labels)
      (readFrames linkage (options.union further) owner method labels)
      (fun frames shown => frames.shown further.expandFrames (method.initial owner) = .ok shown)
      (fun _ => further.expandFrames = true) := by
  rw [readFrames_eq, readFrames_eq]
  refine .after fun deltas => .ofExcept fun once honce => ?_
  have hshown : Frames.shown (options.union further).expandFrames (method.initial owner)
      (.compressed deltas) = once.shown further.expandFrames (method.initial owner) :=
    Frames.shown_shown honce
  rw [hshown]
  cases htwice : once.shown further.expandFrames (method.initial owner) with
  | ok twice => exact .inl ⟨twice, rfl, rfl⟩
  | error cause =>
    refine .inr ⟨cause, rfl, ?_⟩
    cases hspelled : further.expandFrames with
    | true => rfl
    | false => rw [hspelled, Frames.shown_false] at htwice; exact nomatch htwice

/-! ## Attributes -/

/-- Options make a difference to stack map tables and to debug information. -/
theorem readAttribute_congr {other : DecodeOptions} {name : String}
    (hframes : name ≠ AttributeName.stackMapTable)
    (hdebug : name ∈ AttributeName.debugInCode → options.skipDebug = other.skipDebug)
    (code : Code) :
    readAttribute linkage options owner method labels name code =
      readAttribute linkage other owner method labels name code := by
  simp only [AttributeName.debugInCode, List.mem_cons, List.not_mem_nil, or_false] at hdebug
  by_cases hname : name = AttributeName.lineNumberTable ∨
      name = AttributeName.localVariableTable ∨ name = AttributeName.localVariableTypeTable
  · simp only [readAttribute, hframes, hdebug hname, and_false, if_false]
  · simp only [readAttribute, hframes, hname, and_false, if_false]

/-- An attribute that holds no frames, and no debug information that is
    dropped. -/
theorem follows_sameAttribute {dropped : Bool} {name : String} (frames : Option Frames)
    (hframes : name ≠ AttributeName.stackMapTable)
    (hdropped : dropped = true → name ∉ AttributeName.debugInCode) (plain : Code) :
    Follows (readAttribute linkage options owner method labels name plain)
      (readAttribute linkage options owner method labels name (plain.showing dropped frames))
      (fun next other => next.frames = plain.frames ∧ other = next.showing dropped frames) E := by
  have hdebug : name ∈ AttributeName.debugInCode → dropped = false := fun hname =>
    Bool.eq_false_iff.mpr fun h => hdropped h hname
  refine .ite (fun _ => .after fun _ => .pure ⟨rfl, rfl⟩) fun _ => ?_
  refine .ite (fun _ => .after fun _ => .pure ⟨rfl, rfl⟩) fun _ => ?_
  refine .ite (fun h => ?_) fun _ => .ite (fun h => ?_) fun _ => .ite (fun h => ?_) fun _ => ?_
  iterate 3
    · obtain rfl := hdebug (by simp [h, AttributeName.debugInCode])
      exact .after fun more => .pure ⟨rfl, rfl⟩
  refine .ite (fun h => absurd h hframes) fun _ => ?_
  refine .ite (fun _ => .after fun list => .pure ⟨rfl, rfl⟩) fun _ => ?_
  refine .ite (fun _ => .after fun list => .pure ⟨rfl, rfl⟩) fun _ => ?_
  exact .after fun attr => .pure ⟨rfl, rfl⟩

theorem produces_dropped {name : String} (hname : name ∈ AttributeName.debugInCode)
    (frames : Option Frames) (plain : Code) :
    Produces (readAttribute linkage options owner method labels name plain) fun next =>
      next.frames = plain.frames ∧ next.showing true frames = plain.showing true frames := by
  simp only [AttributeName.debugInCode, List.mem_cons, List.not_mem_nil, or_false] at hname
  refine .ite (fun _ => .after fun _ => .pure ⟨rfl, rfl⟩) fun _ => ?_
  refine .ite (fun _ => .after fun _ => .pure ⟨rfl, rfl⟩) fun _ => ?_
  refine .ite (fun _ => .after fun _ => .pure ⟨rfl, rfl⟩) fun h₁ => ?_
  refine .ite (fun _ => .after fun _ => .pure ⟨rfl, rfl⟩) fun h₂ => ?_
  refine .ite (fun _ => .after fun _ => .pure ⟨rfl, rfl⟩) fun h₃ => ?_
  exact absurd hname (by simp [h₁, h₂, h₃])

/-- `other` is what further options leave of `plain`, a body of `method`. -/
abbrev Viewed (further : DecodeOptions) (owner : String) (method : MethodRecord)
    (plain other : Code) : Prop :=
  plain.view further (method.initial owner) = .ok other

theorem follows_otherAttribute {name : String} (hname : name ≠ AttributeName.stackMapTable)
    (h : Viewed further owner method plain other) (content : Bytes) :
    Follows
      (readAll name (readAttribute linkage options owner method labels name plain) content)
      (readAll name (readAttribute linkage (options.union further) owner method labels name other)
        content) (Viewed further owner method) E := by
  obtain ⟨frames, hframes, rfl⟩ := Code.view_eq_ok.mp h
  have hview : ∀ {next : Code}, next.frames = plain.frames →
      Viewed further owner method next (next.showing further.skipDebug frames) :=
    fun hnext => Code.view_eq_ok.mpr ⟨frames, hnext ▸ hframes, rfl⟩
  by_cases hdropped : further.skipDebug = true ∧ name ∈ AttributeName.debugInCode
  · have hskip : readAttribute linkage (options.union further) owner method labels name
        (plain.showing further.skipDebug frames) =
          (do skipRest; return plain.showing further.skipDebug frames) := by
      have hmem := hdropped.2
      simp only [AttributeName.debugInCode, List.mem_cons, List.not_mem_nil, or_false] at hmem
      unfold readAttribute
      rw [if_pos ⟨by simp [DecodeOptions.union, hdropped.1], hmem⟩]
    rw [hskip]
    refine follows_skipped ((produces_dropped hdropped.2 frames plain).mono ?_) name content
    rintro next ⟨hnext, hsame⟩
    rw [hdropped.1, ← hsame, ← hdropped.1]
    exact hview hnext
  · have hsame : readAttribute linkage (options.union further) owner method labels name
        (plain.showing further.skipDebug frames) =
          readAttribute linkage options owner method labels name
            (plain.showing further.skipDebug frames) := by
      refine readAttribute_congr hname (fun hmem => ?_) _
      have hkept : further.skipDebug = false :=
        Bool.eq_false_iff.mpr fun hskip => hdropped ⟨hskip, hmem⟩
      rw [DecodeOptions.union, hkept, Bool.or_false]
    rw [hsame]
    refine (follows_readAll (follows_sameAttribute frames hname
      (fun hskip hmem => hdropped ⟨hskip, hmem⟩) plain) name content).mono ?_
    rintro next _ ⟨hnext, rfl⟩
    exact hview hnext

theorem readAttribute_frames (code : Code) :
    readAttribute linkage options owner method labels AttributeName.stackMapTable code =
      if options.skipFrames = true then (do skipRest; return code)
      else (do
        let frames ← readFrames linkage options owner method labels
        return { code with frames := some frames }) := by
  have h₁ : AttributeName.stackMapTable ≠ AttributeName.lineNumberTable := by decide
  have h₂ : AttributeName.stackMapTable ≠ AttributeName.localVariableTable := by decide
  have h₃ : AttributeName.stackMapTable ≠ AttributeName.localVariableTypeTable := by decide
  simp only [readAttribute, h₁, h₂, h₃, or_false, and_false, and_true, if_false, if_true]

theorem follows_framesAttribute (h : Viewed further owner method plain other) (content : Bytes) :
    Follows
      (readAll AttributeName.stackMapTable (readAttribute linkage options owner method labels
        AttributeName.stackMapTable plain) content)
      (readAll AttributeName.stackMapTable (readAttribute linkage (options.union further) owner
        method labels AttributeName.stackMapTable other) content)
      (Viewed further owner method) (fun _ => further.SpellsOut) := by
  obtain ⟨frames, hframes, rfl⟩ := Code.view_eq_ok.mp h
  by_cases hskip : further.skipFrames = true
  · have hview : ∀ next : Code, next.showing further.skipDebug none =
        plain.showing further.skipDebug none →
        Viewed further owner method next (plain.showing further.skipDebug frames) := by
      rw [Frames.view, if_pos hskip] at hframes
      cases hframes
      intro next hnext
      refine Code.view_eq_ok.mpr ⟨none, ?_, hnext.symm⟩
      rw [Frames.view, if_pos hskip]
      rfl
    rw [readAttribute_frames, readAttribute_frames,
      if_pos (show (options.union further).skipFrames = true by simp [DecodeOptions.union, hskip])]
    refine follows_skipped ?_ _ content
    exact .ite (fun _ => .after fun _ => .pure (hview _ rfl)) fun _ =>
      .after fun _ => .pure (hview _ rfl)
  · rw [readAttribute_frames, readAttribute_frames]
    rw [Bool.not_eq_true] at hskip
    refine follows_readAll ?_ _ content
    rw [show (options.union further).skipFrames = options.skipFrames by
      rw [DecodeOptions.union, hskip, Bool.or_false]]
    refine .ite (fun _ => .after fun _ => .pure h) fun _ => ?_
    refine (follows_readFrames.causes ?_).bind fun once shown hshown => .pure ?_
    · exact fun _ hspelled => ⟨hspelled, hskip⟩
    · refine Code.view_eq_ok.mpr ⟨some shown, ?_, rfl⟩
      rw [Frames.view, hskip]
      simp [hshown]

/-! ## Bodies -/

/-- **A body that is read with some options** is read with further ones as what
    these leave of it, unless they ask for frames to be spelled out. -/
theorem follows_view (linkage : Linkage) (options further : DecodeOptions) (owner : String)
    (method : MethodRecord) :
    Follows (read linkage options owner method) (read linkage (options.union further) owner method)
      (Viewed further owner method) (fun _ => further.SpellsOut) := by
  refine .after fun maxStack => .after fun maxLocals => .after fun length => .guard fun _ => ?_
  refine .after fun bytes => .after fun ⟨instructions, labels⟩ => .after fun number => ?_
  refine .after fun handlers => ?_
  refine (follows_table (R := Viewed further owner method) ?_ ?_).bind ?_
  · intro name plain other h content
    by_cases hname : name = AttributeName.stackMapTable
    · subst hname
      exact follows_framesAttribute h content
    · exact follows_otherAttribute hname h content
  · refine Code.view_eq_ok.mpr ⟨none, ?_, ?_⟩
    · rw [Frames.view]
      split <;> rfl
    · simp [Code.showing]
  · intro plain other h
    obtain ⟨frames, hframes, rfl⟩ := Code.view_eq_ok.mp h
    exact .pure (Code.view_eq_ok.mpr ⟨frames, hframes, rfl⟩)

end Body

end JvmClass
