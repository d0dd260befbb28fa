/-
  Reading classes with and without their frames.

  * `Code.Framed`, `MethodRecord.Framed` and `ClassRecord.Framed`: a record is
    another one with frames, which are differences;
  * `Malformed.OfFrames`: why a stack map table cannot be read;
  * `HasStackMap`: the stack map tables in the `Code` attributes of a class file;
  * `framed_or_malformed`: a class that is read without its frames is read with
    them, or one of its stack map tables cannot be read;
  * `compressed_of_decode`: the frames that are read are differences.
-/
import JvmClass.Proofs.ClassFile.View

namespace JvmClass

/-- Why the stack map table `content` of a body with the offsets `labels` cannot
    be read. -/
inductive Malformed.OfFrames (pool : Pool) (labels : LabelMap) (content : Bytes) : Malformed → Prop
  | table {cause : Malformed} (h : (StackMap.read pool labels).runOn content = .error cause) :
    OfFrames pool labels content cause
  | unread {deltas : List DeltaFrame} {rest : Cursor}
    (h : (StackMap.read pool labels).runOn content = .ok (deltas, rest))
    (hrest : ¬ rest.isEmpty) :
    OfFrames pool labels content (.unreadBytes AttributeName.stackMapTable rest.remaining)

/-- `framed` is `plain` with other frames, which are differences. -/
def Code.Framed (plain framed : Code) : Prop :=
  ∃ frames, framed = { plain with frames := frames } ∧
    ∀ f ∈ frames, ∃ deltas, f = .compressed deltas

/-- `framed` is `plain` with other frames in its body. -/
def MethodRecord.Framed (plain framed : MethodRecord) : Prop :=
  ∃ code, framed = { plain with code := code } ∧ Option.Rel Code.Framed plain.code code

/-- `framed` is `plain` with other frames in the bodies of its methods. -/
def ClassRecord.Framed (plain framed : ClassRecord) : Prop :=
  ∃ methods, framed = { plain with methods := methods } ∧
    List.Forall₂ MethodRecord.Framed plain.methods methods

/-- Other frames, which are differences, are all that a body can have. -/
theorem ClassRecord.Framed.compressed {plain framed : ClassRecord} (h : plain.Framed framed) :
    ∀ method ∈ framed.methods, ∀ code ∈ method.code, ∀ frames ∈ code.frames,
      ∃ deltas, frames = .compressed deltas := by
  obtain ⟨methods, rfl, hmethods⟩ := h
  dsimp only
  generalize plain.methods = plains at hmethods
  induction hmethods with
  | nil => exact List.forall_mem_nil _
  | @cons before _ _ _ hmethod _ ih =>
    refine List.forall_mem_cons.mpr ⟨?_, ih⟩
    obtain ⟨_, rfl, hcode⟩ := hmethod
    dsimp only
    generalize before.code = body at hcode
    cases hcode with
    | none => exact fun _ h => nomatch h
    | some hframed =>
      rintro _ ⟨⟩
      obtain ⟨frames, rfl, hframes⟩ := hframed
      exact hframes

namespace Body

open Reader AttributeTable

variable {linkage : Linkage} {owner : String} {method : MethodRecord} {labels : LabelMap}
  {plain framed : Code}

/-- Move over an entry of an exception table. -/
def skipHandler : Reader Unit := do
  skip 6
  let _ ← u2

/-- Read the offsets at which a body has instructions, and list its attributes. -/
def readOutline (linkage : Linkage) : Reader (LabelMap × List RawAttribute) := do
  let _maxStack ← u2
  let _maxLocals ← u2
  let length := (← u4).toNat
  let (_, labels) ← Bytecode.decode linkage (← take length)
  let _ ← times (← u2).toNat skipHandler
  return (labels, ← readRawTable linkage.pool)

/-- The offsets at which a body has instructions, and its attributes. -/
def outline (linkage : Linkage) (body : Bytes) :
    Except Malformed (LabelMap × List RawAttribute) :=
  Prod.fst <$> (readOutline linkage).runOn body

theorem tracks_readHandler :
    Tracks (readHandler linkage method labels) skipHandler fun _ _ => True := by
  refine .words fun _ => .still fun start => .words fun _ => .still fun stop => ?_
  refine .word fun _ => .still fun handler => .after fun _ => .still fun catchType => ?_
  dsimp only
  split
  next => exact tracks_iff.mpr fun c _ d h => nomatch h
  next => exact .pure trivial

/-- A stack map table that is read in place of one that is left out. -/
theorem follows_stackMapTable (h : plain.Framed framed) (content : Bytes) :
    Follows
      (readAll AttributeName.stackMapTable (readAttribute linkage { skipFrames := true } owner
        method labels AttributeName.stackMapTable plain) content)
      (readAll AttributeName.stackMapTable (readAttribute linkage {} owner method labels
        AttributeName.stackMapTable framed) content)
      Code.Framed (Malformed.OfFrames linkage.pool labels content) := by
  have hnext : ∀ deltas, plain.Framed { framed with frames := some (.compressed deltas) } := by
    obtain ⟨_, rfl, -⟩ := h
    intro deltas
    refine ⟨some (.compressed deltas), rfl, ?_⟩
    rintro _ ⟨⟩
    exact ⟨deltas, rfl⟩
  have hskip : readAttribute linkage { skipFrames := true } owner method labels
      AttributeName.stackMapTable plain = (do skipRest; return plain) := by
    simp [readAttribute]
  rw [hskip, readAttribute_stackMapTable]
  intro c code d hrun
  obtain ⟨rfl, rest, hrest, -⟩ := readAll_eq_ok.mp hrun
  have hplain : Produces (do skipRest; return plain) (· = plain) := .after fun _ => .pure rfl
  obtain rfl := hplain.of_runOn hrest
  cases hread : (StackMap.read linkage.pool labels).runOn content with
  | error cause =>
    refine .inr ⟨cause, c, readAll_of_error ?_ c, .table hread⟩
    rw [runOn_bind_pure, hread]
    rfl
  | ok p =>
    obtain ⟨deltas, left⟩ := p
    have hframed : (do return { framed with
        frames := some (.compressed (← StackMap.read linkage.pool labels)) } : Reader Code).runOn
          content = .ok ({ framed with frames := some (.compressed deltas) }, left) := by
      rw [runOn_bind_pure, hread]
      rfl
    by_cases hleft : left.isEmpty
    · exact .inl ⟨_, readAll_eq_ok.mpr ⟨rfl, left, hframed, hleft⟩, hnext deltas⟩
    · exact .inr ⟨_, c, readAll_of_rest hframed hleft c, .unread hread hleft⟩

theorem follows_anyAttribute (h : plain.Framed framed) {name : String}
    (hname : name ≠ AttributeName.stackMapTable) {E : Malformed → Prop} :
    Follows (readAttribute linkage { skipFrames := true } owner method labels name plain)
      (readAttribute linkage {} owner method labels name framed) Code.Framed E := by
  obtain ⟨frames, rfl, hframes⟩ := h
  have hsame : readAttribute linkage { skipFrames := true } owner method labels name plain =
      readAttribute linkage {} owner method labels name plain :=
    readAttribute_congr hname (fun _ => by rfl) plain
  rw [hsame]
  have hkept : false = true → name ∉ AttributeName.debugInCode := nofun
  refine (follows_sameAttribute frames hname hkept plain).mono ?_
  rintro next _ ⟨-, rfl⟩
  exact ⟨frames, rfl, hframes⟩

/-- **A body that is read without its frames** is read with them, or one of its
    stack map tables cannot be read. -/
theorem guided_read (linkage : Linkage) (owner : String) (method : MethodRecord) :
    Guided (read linkage { skipFrames := true } owner method) (read linkage {} owner method)
      (readOutline linkage) Code.Framed fun (labels, attrs) cause =>
        ∃ content, ⟨AttributeName.stackMapTable, content⟩ ∈ attrs ∧
          cause.OfFrames linkage.pool labels content := by
  refine .after fun maxStack => .after fun maxLocals => .after fun length => .guard fun _ => ?_
  refine .after fun bytes => .after fun ⟨instructions, labels⟩ => .after fun number => ?_
  refine .front ((tracks_readHandler.times _).mono fun _ _ _ => trivial) fun handlers _ => ?_
  have hattr : ∀ (attr : RawAttribute) plain framed, Code.Framed plain framed →
      Follows
        (readAll attr.name (readAttribute linkage { skipFrames := true } owner method labels
          attr.name plain) attr.info)
        (readAll attr.name (readAttribute linkage {} owner method labels attr.name framed) attr.info)
        Code.Framed fun cause => attr.name = AttributeName.stackMapTable ∧
          cause.OfFrames linkage.pool labels attr.info := by
    intro ⟨name, content⟩ plain framed h
    dsimp only
    by_cases hname : name = AttributeName.stackMapTable
    · subst hname
      exact (follows_stackMapTable h content).causes fun cause hcause => ⟨rfl, hcause⟩
    · exact follows_readAll (follows_anyAttribute h hname) name content
  refine .returning (((guided_table hattr ⟨none, rfl, nofun⟩).causes ?_).behind ?_)
  · rintro attrs cause ⟨⟨_, content⟩, hmem, rfl, hcause⟩
    exact ⟨content, hmem, hcause⟩
  · rintro plain _ ⟨frames, rfl, hframes⟩
    exact .pure ⟨frames, rfl, hframes⟩

end Body

namespace ClassFile

open Reader

theorem framed_of_related {plain framed : ClassRecord}
    (h : plain.Related false (fun _ => Code.Framed) framed) : plain.Framed framed := by
  obtain ⟨methods, rfl, hmethods⟩ := h
  refine ⟨methods, rfl, hmethods.imp ?_⟩
  rintro method _ ⟨code, rfl, hcode⟩
  exact ⟨code, rfl, hcode⟩

/-- A class file has the constant pool `pool`, and in the `Code` attribute of a
    method, with instructions at the offsets `labels`, this stack map table. -/
def HasStackMap (bytes : Bytes) (pool : Pool) (labels : LabelMap) (content : Bytes) : Prop :=
  ∃ linkage body attrs, HasBody bytes linkage body ∧ linkage.pool = pool ∧
    Body.outline linkage body = .ok (labels, attrs) ∧
    ⟨AttributeName.stackMapTable, content⟩ ∈ attrs

/-- **A class that is read without its frames** is read with them, or one of
    its stack map tables cannot be read. -/
theorem framed_or_malformed {bytes : Bytes} {plain : ClassRecord}
    (h : decode bytes { skipFrames := true } = .ok plain) :
    (∃ framed, decode bytes {} = .ok framed ∧ plain.Framed framed) ∨
      ∃ cause pool labels content, decode bytes {} = .error cause ∧
        HasStackMap bytes pool labels content ∧ cause.OfFrames pool labels content := by
  have hbody : ∀ linkage, BodiesFollow linkage { skipFrames := true } {} (fun _ => Code.Framed) _ :=
    fun linkage owner method => (Body.guided_read linkage owner method).runOn
  have hdropped : ({} : DecodeOptions).skipDebug =
      (({ skipFrames := true } : DecodeOptions).skipDebug || false) := rfl
  rcases related_or_malformed hbody hdropped h with ⟨framed, hframed, hrelated⟩ | hmalformed
  · exact .inl ⟨framed, hframed, framed_of_related hrelated⟩
  · obtain ⟨cause, linkage, body, herror, hbody, hcause⟩ := hmalformed
    obtain ⟨⟨labels, attrs⟩, rest, houtline, content, hcontent, hcause⟩ := hcause
    refine .inr ⟨cause, linkage.pool, labels, content, herror, ?_, hcause⟩
    exact ⟨linkage, body, attrs, hbody, rfl, Result.map_eq_ok.mpr ⟨(_, rest), houtline, rfl⟩,
      hcontent⟩

/-- Frames that are read as they stand are differences. -/
theorem compressed_of_decode {bytes : Bytes} {record : ClassRecord}
    (h : decode bytes {} = .ok record) :
    ∀ method ∈ record.methods, ∀ code ∈ method.code, ∀ frames ∈ code.frames,
      ∃ deltas, frames = .compressed deltas := by
  have hplain : ∃ plain, decode bytes { skipFrames := true } = .ok plain := by
    rcases view_or_malformed h { skipFrames := true } with ⟨plain, hplain, -⟩ | ⟨⟨hspelled, -⟩, -⟩
    · exact ⟨plain, hplain⟩
    · cases hspelled
  obtain ⟨plain, hplain⟩ := hplain
  rcases framed_or_malformed hplain with ⟨framed, hframed, hother⟩ | ⟨cause, _, _, _, hcause, -⟩
  · cases h.symm.trans hframed
    exact hother.compressed
  · cases h.symm.trans hcause

end ClassFile

end JvmClass
