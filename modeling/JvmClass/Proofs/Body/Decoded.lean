/-
  What is known of method bodies that were read.

  * `Code.PartsSound`: the attributes of a body refer to instructions that
    there are, and can be written and read again;
  * `Code.Sound`: so do its instructions and its exception table;
  * `produces_read`: this is known of whatever is read as a body.
-/
import JvmClass.Body.Reading
import JvmClass.Proofs.Attribute.Decoded
import JvmClass.Proofs.Body.RoundTrip
import JvmClass.Proofs.Bytecode.Decoded
import JvmClass.Proofs.Frame.Decoded

namespace JvmClass

/-- The number of attributes that are written for a body. -/
def Code.number (code : Code) : Nat :=
  code.lineNumbers.toList.length + code.localVariables.toList.length +
    code.localVariableTypes.toList.length + code.frames.toList.length +
    code.visibleTypeAnnotations.toList.length + code.invisibleTypeAnnotations.toList.length +
    code.attributes.length

/-- The attributes of a body of `count` instructions refer to instructions that
    there are, and can be written and read again. -/
structure Code.PartsSound (count : Nat) (code : Code) : Prop where
  lines : ∀ list ∈ code.lineNumbers, ∀ line ∈ list, line.start ≤ count
  locals : ∀ list ∈ code.localVariables, ∀ entry ∈ list,
    entry.start ≤ entry.stop ∧ entry.stop ≤ count
  localTypes : ∀ list ∈ code.localVariableTypes, ∀ entry ∈ list,
    entry.start ≤ entry.stop ∧ entry.stop ≤ count
  frames : ∀ frames ∈ code.frames, frames.Within count
  visible : ∀ list ∈ code.visibleTypeAnnotations,
    list.length ≤ 0xFFFF ∧ ∀ a ∈ list, a.Readable ∧ a.Within (some count)
  invisible : ∀ list ∈ code.invisibleTypeAnnotations,
    list.length ≤ 0xFFFF ∧ ∀ a ∈ list, a.Readable ∧ a.Within (some count)
  raw : ∀ attr ∈ code.attributes, attr.name ∉ AttributeName.inCode

/-- What is known of a body that was read.  Bootstrap methods presuppose
    `linked`. -/
structure Code.Sound (linked : Prop) (code : Code) : Prop where
  instructions : ∀ i ∈ code.instructions, i.Sound linked ∧ i.Nests
  inside : Body.LabelsInside code
  handlers : code.exceptionTable.length ≤ 0xFFFF
  parts : code.PartsSound code.stop
  number : code.number ≤ 0xFFFF

theorem Code.Sound.readable {linked : Prop} {code : Code} (h : code.Sound linked) :
    code.Readable where
  nests i hi := (h.instructions i hi).2
  visible list hlist a ha := ((h.parts.visible list hlist).2 a ha).1
  invisible list hlist a ha := ((h.parts.invisible list hlist).2 a ha).1
  raw := h.parts.raw

namespace Body

open Reader

variable {linkage : Linkage} {options : DecodeOptions} {owner : String} {method : MethodRecord}
  {labels : LabelMap} {count : Nat}

theorem produces_readHandler (hlabels : labels.Ascends count) :
    Produces (readHandler linkage method labels) fun h =>
      h.start < h.stop ∧ h.stop ≤ count ∧ h.handler < count := by
  refine .after fun _ => .lift fun start _ => .after fun _ => .lift fun stop hstop => ?_
  refine .after fun _ => .lift fun handler hhandler => .after fun _ => .after fun _ => ?_
  refine .guard fun hlt => .pure ⟨Nat.not_le.mp hlt, ?_, hlabels.instruction_lt hhandler⟩
  exact hlabels.label_le (LabelMap.label_eq_ok.mp hstop)

theorem produces_readEntries {α : Type} {entry : Reader (Option α)} {P : α → Prop}
    (h : Produces entry fun a => ∀ b ∈ a, P b) :
    Produces (readEntries entry) fun list => ∀ a ∈ list, P a := by
  refine .after fun number => (h.times _).bind fun list hlist => .pure fun a ha => ?_
  simp only [List.reduceOption, List.mem_filterMap, id_eq, exists_eq_right] at ha
  exact hlist.2 (some a) ha a rfl

theorem produces_readLineNumber (hlabels : labels.Ascends count) :
    Produces (readLineNumber labels) fun entry => ∀ line ∈ entry, line.start ≤ count := by
  refine .after fun _ => .after fun _ => .pure fun line hline => ?_
  obtain ⟨start, hstart, rfl⟩ := Option.map_eq_some_iff.mp hline
  exact hlabels.label_le hstart

theorem produces_readVariable (hlabels : labels.Ascends count) :
    Produces (readVariable linkage labels) fun entry => ∀ range ∈ entry,
      range.start ≤ range.stop ∧ range.stop ≤ count := by
  refine .after fun start => .after fun length => .after fun _ => .after fun _ => ?_
  refine .after fun _ => .after fun _ => .after fun _ => ?_
  split
  next first last hfirst hlast =>
    refine .pure ?_
    rintro _ ⟨⟩
    exact ⟨hlabels.le_of_le hfirst hlast (Nat.le_add_right ..), hlabels.label_le hlast⟩
  next => exact .pure nofun

/-- Frames refer to instructions that there are, in the form that is asked
    for. -/
theorem produces_readFrames (hlabels : labels.Ascends count) :
    Produces (readFrames linkage options owner method labels) fun frames =>
      frames.Within count := by
  refine (StackMap.produces_read hlabels).bind fun deltas hdeltas => .ite (fun _ => ?_) fun _ => ?_
  · exact .lift fun initial hinitial => .lift fun frames hframes =>
      .pure (within_expand (within_initialLocals hinitial) hdeltas hframes)
  · exact .pure hdeltas

/-- What is known of a body after some of its attributes, and the parts that
    they leave alone. -/
structure ReadSoFar (count : Nat) (start : Code) (n : Nat) (code : Code) : Prop where
  parts : code.PartsSound count
  number : code.number ≤ n
  instructions : code.instructions = start.instructions
  exceptionTable : code.exceptionTable = start.exceptionTable

theorem produces_readAttribute (hlabels : labels.Ascends count) {start code : Code} {n : Nat}
    (name : String) (hcode : ReadSoFar count start n code) :
    Produces (readAttribute linkage options owner method labels name code)
      (ReadSoFar count start (n + 1)) := by
  have ⟨⟨p₁, p₂, p₃, p₄, p₅, p₆, p₇⟩, hnumber, hinstructions, htable⟩ := hcode
  have hskip : ReadSoFar count start (n + 1) code :=
    ⟨hcode.parts, Nat.le_succ_of_le hnumber, hinstructions, htable⟩
  have hone : ∀ {α : Type} (old : Option α) (new : α),
      (some new).toList.length ≤ old.toList.length + 1 := fun _ _ => Nat.le_add_left ..
  have hsome : ∀ {α : Type} {P : α → Prop} {a : α}, P a → ∀ b ∈ some a, P b := by
    rintro α P a ha _ ⟨⟩
    exact ha
  have hmore : ∀ {α : Type} {P : α → Prop} {old : Option (List α)} {more : List α},
      (∀ list ∈ old, ∀ a ∈ list, P a) → (∀ a ∈ more, P a) → ∀ a ∈ old.getD [] ++ more, P a := by
    rintro α P (_ | old) more hold hmore a ha
    · exact hmore a ha
    · exact (List.mem_append.mp ha).elim (hold old rfl a) (hmore a)
  refine .ite (fun _ => .after fun _ => .pure hskip) fun _ => ?_
  refine .ite (fun _ => .after fun _ => .pure hskip) fun _ => ?_
  refine .ite (fun _ => ?_) fun h₁ => .ite (fun _ => ?_) fun h₂ => .ite (fun _ => ?_) fun h₃ => ?_
  · refine (produces_readEntries (produces_readLineNumber hlabels)).bind fun more hlines => .pure ?_
    refine ⟨⟨hsome (hmore p₁ hlines), p₂, p₃, p₄, p₅, p₆, p₇⟩, ?_, hinstructions, htable⟩
    have := hone code.lineNumbers (code.lineNumbers.getD [] ++ more)
    simp only [Code.number] at hnumber ⊢
    omega
  · refine (produces_readEntries (produces_readVariable hlabels)).bind fun more hentries => .pure ?_
    refine ⟨⟨p₁, hsome (hmore p₂ hentries), p₃, p₄, p₅, p₆, p₇⟩, ?_, hinstructions, htable⟩
    have := hone code.localVariables (code.localVariables.getD [] ++ more)
    simp only [Code.number] at hnumber ⊢
    omega
  · refine (produces_readEntries (produces_readVariable hlabels)).bind fun more hentries => .pure ?_
    refine ⟨⟨p₁, p₂, hsome (hmore p₃ hentries), p₄, p₅, p₆, p₇⟩, ?_, hinstructions, htable⟩
    have := hone code.localVariableTypes (code.localVariableTypes.getD [] ++ more)
    simp only [Code.number] at hnumber ⊢
    omega
  refine .ite (fun _ => ?_) fun h₄ => .ite (fun _ => ?_) fun h₅ => .ite (fun _ => ?_) fun h₆ => ?_
  · refine (produces_readFrames hlabels).bind fun frames hframes => .pure ?_
    refine ⟨⟨p₁, p₂, p₃, hsome hframes, p₅, p₆, p₇⟩, ?_,
      hinstructions, htable⟩
    have := hone code.frames frames
    simp only [Code.number] at hnumber ⊢
    omega
  · refine (Annotations.produces_readTypeList (.some hlabels)).bind fun list hlist => .pure ?_
    refine ⟨⟨p₁, p₂, p₃, p₄, hsome hlist, p₆, p₇⟩, ?_, hinstructions, htable⟩
    have := hone code.visibleTypeAnnotations list
    simp only [Code.number] at hnumber ⊢
    omega
  · refine (Annotations.produces_readTypeList (.some hlabels)).bind fun list hlist => .pure ?_
    refine ⟨⟨p₁, p₂, p₃, p₄, p₅, hsome hlist, p₇⟩, ?_, hinstructions, htable⟩
    have := hone code.invisibleTypeAnnotations list
    simp only [Code.number] at hnumber ⊢
    omega
  · have hraw : Produces (Attribute.readRaw name) fun attr => attr.name = name :=
      .after fun _ => .pure rfl
    refine hraw.bind fun attr hattr => .pure ?_
    refine ⟨⟨p₁, p₂, p₃, p₄, p₅, p₆, List.forall_mem_cons.mpr ⟨?_, p₇⟩⟩, ?_, hinstructions, htable⟩
    · rw [hattr]
      simp only [AttributeName.inCode, List.mem_cons, List.not_mem_nil, or_false, not_or]
      exact ⟨h₁, h₂, h₃, h₄, h₅, h₆⟩
    · simp only [Code.number, List.length_cons] at hnumber ⊢
      omega

/-- **What is known of a body that was read.** -/
theorem produces_read (hcount : linkage.Countable) :
    Produces (read linkage options owner method) fun code =>
      code.Sound (linkage.bootstraps ≠ #[]) := by
  refine .after fun maxStack => .after fun maxLocals => .after fun length => .guard fun _ => ?_
  refine .after fun bytes => .lift fun ⟨instructions, labels⟩ hdecode => ?_
  obtain ⟨starts, rfl, hascend, hstarts, hinstructions⟩ := Bytecode.of_decode hcount hdecode
  have hlabels := LabelMap.ascends_ofOffsets hascend
  rw [hstarts] at hlabels
  refine .after fun number => ((produces_readHandler hlabels).times _).bind fun handlers hhandlers => ?_
  let start : Code :=
    { maxStack, maxLocals, instructions, exceptionTable := handlers, lineNumbers := none
      localVariables := none, localVariableTypes := none, frames := none
      visibleTypeAnnotations := none, invisibleTypeAnnotations := none, attributes := [] }
  have hstart : ReadSoFar instructions.length start 0 start :=
    ⟨⟨nofun, nofun, nofun, nofun, nofun, nofun, nofun⟩, Nat.le_refl 0, rfl, rfl⟩
  refine (AttributeTable.produces_table
    (fun _ name _ h => produces_readAttribute hlabels name h) hstart).bind ?_
  rintro code ⟨n, hn, ⟨p₁, p₂, p₃, p₄, p₅, p₆, p₇⟩, hattributes, hsame, htable⟩
  have hstop : code.stop = instructions.length := congrArg List.length hsame
  refine .pure ⟨?_, ⟨?_, ?_⟩, ?_, ?_, ?_⟩
  · rw [hsame]; exact fun i hi => (hinstructions i hi).1
  · dsimp only [Code.stop]
    rw [hsame]; exact fun i hi => (hinstructions i hi).2
  · dsimp only [Code.stop]
    rw [hsame, htable]; exact hhandlers.2
  · dsimp only
    rw [htable]; exact hhandlers.1 ▸ word_le number
  · have hraw : ∀ attr ∈ code.attributes.reverse, attr.name ∉ AttributeName.inCode :=
      fun attr hattr => p₇ attr (List.mem_reverse.mp hattr)
    rw [← hstop] at p₁ p₂ p₃ p₄ p₅ p₆
    exact ⟨p₁, p₂, p₃, p₄, p₅, p₆, hraw⟩
  · simp only [Code.number, List.length_reverse] at hattributes ⊢
    omega

end Body

end JvmClass
