/-
  Reading classes with other options.

  * `MethodRecord.Related` and `ClassRecord.Related`: two records differ in the
    bodies of methods, and in debug information that only one of them has;
  * `outline` lists the attributes of the methods of a class file, by declared
    lengths alone, and `HasBody` says what the `Code` attributes among them are;
  * `related_or_malformed`: where bodies are read with other options as related
    ones, so are classes; otherwise it is one of the bodies that fails.
-/
import JvmClass.Proofs.Body.View
import JvmClass.Proofs.ClassFile.Walk

namespace JvmClass

/-! ## Related records -/

/-- The names of parameters are debug information of a method. -/
def Attribute.isDebug : Attribute → Bool
  | methodParameters _ => true
  | _ => false

/-- The attributes of a method, without debug information if it is to be
    `dropped`. -/
def Attribute.kept (dropped : Bool) (attributes : List Attribute) : List Attribute :=
  if dropped then attributes.filter fun attr => !attr.isDebug else attributes

/-- What was read of the attributes of a method, without debug information if it
    is to be `dropped`. -/
def Shared.kept (dropped : Bool) (shared : Shared) : Shared :=
  { shared with attributesRev := Attribute.kept dropped shared.attributesRev }

namespace Attribute

variable {dropped : Bool} {attr : Attribute} {attributes : List Attribute}

theorem kept_cons (h : attr.isDebug = false) :
    kept dropped (attr :: attributes) = attr :: kept dropped attributes := by
  cases dropped <;> simp [kept, h]

theorem kept_reverse : kept dropped attributes.reverse = (kept dropped attributes).reverse := by
  cases dropped <;> simp [kept]

/-- Dropping debug information makes no difference to the attributes that all
    places have in common. -/
theorem readShared?_kept (pool : Pool) (name : String) (shared : Shared) :
    readShared? pool name (shared.kept dropped) =
      (readShared? pool name shared).map fun reader => Shared.kept dropped <$> reader := by
  have hpush : ∀ attr : Attribute, attr.isDebug = false →
      (shared.kept dropped).push attr = (shared.push attr).kept dropped := by
    intro attr hattr
    simp only [Shared.push, Shared.kept, kept_cons hattr]
  have hsignature : ∀ text, (shared.kept dropped).push (signature text) =
      (shared.push (signature text)).kept dropped := fun text => hpush _ rfl
  unfold readShared?
  dsimp only
  split_ifs
  all_goals simp only [Option.map_some, Option.map_none, Option.some.injEq, map_bind, map_pure,
    hsignature, hpush .deprecated rfl, hpush .synthetic rfl]
  all_goals rfl

end Attribute

/-- How the bodies of methods are related; the locals on entry tell of what
    method they are. -/
abbrev BodyRelation : Type := Except Malformed (List VerificationType) → Code → Code → Prop

/-- `other` is `plain` with a related body, and without debug information if it
    is `dropped`. -/
def MethodRecord.Related (dropped : Bool) (R : BodyRelation) (owner : String)
    (plain other : MethodRecord) : Prop :=
  ∃ code, other = { plain with
      code := code
      attributes := Attribute.kept dropped plain.attributes } ∧
    Option.Rel (R (plain.initial owner)) plain.code code

/-- `other` is `plain` with related methods, and without debug information if
    it is `dropped`. -/
def ClassRecord.Related (dropped : Bool) (R : BodyRelation) (plain other : ClassRecord) : Prop :=
  ∃ methods, other = { plain with
      methods := methods
      sourceFile := if dropped then none else plain.sourceFile
      sourceDebugExtension := if dropped then none else plain.sourceDebugExtension } ∧
    List.Forall₂ (MethodRecord.Related dropped R plain.name) plain.methods methods

namespace ClassFile

open Reader AttributeTable

variable {linkage : Linkage} {options options' : DecodeOptions} {dropped : Bool}
  {R : BodyRelation} {E : Bytes → Malformed → Prop} {pool : Pool}

/-! ## Outlines -/

/-- List the attributes of a field or a method. -/
def readRawMember (pool : Pool) : Reader (List RawAttribute) := do
  let _access ← u2
  let _name ← u2
  let _descriptor ← u2
  readRawTable pool

/-- List the attributes of the methods of a class. -/
def readMethodTables (pool : Pool) : Reader (List (List RawAttribute)) := do
  let _access ← u2
  let _name ← u2
  let _superName ← u2
  let _interfaces ← times (← u2).toNat u2
  let _fields ← times (← u2).toNat (readRawMember pool)
  times (← u2).toNat (readRawMember pool)

/-- Read the tables of a class file, and list the attributes of its methods. -/
def readOutline : Reader (Linkage × List (List RawAttribute)) := do
  let header ← readHeader
  let start ← position
  let bootstraps ← findBootstraps header.pool
  seek start
  return (⟨header.pool, bootstraps⟩, ← readMethodTables header.pool)

/-- The tables of a class file, and the attributes of each of its methods. -/
def outline (bytes : Bytes) : Except Malformed (Linkage × List (List RawAttribute)) :=
  Prod.fst <$> readOutline.runOn bytes

/-- A class file has these tables, and a method with this `Code` attribute. -/
def HasBody (bytes : Bytes) (linkage : Linkage) (body : Bytes) : Prop :=
  ∃ methods attrs, outline bytes = .ok (linkage, methods) ∧ attrs ∈ methods ∧
    ⟨AttributeName.code, body⟩ ∈ attrs

theorem tracks_rawField : Tracks (readField linkage) (readRawMember linkage.pool)
    fun _ _ => True := by
  refine .after fun access => .after fun nameIndex => .still fun name => ?_
  refine .after fun descriptorIndex => .still fun descriptor => ?_
  exact tracks_rawTable.forget fun ⟨value, shared⟩ => ⟨_, rfl⟩

theorem tracks_rawMethod (owner : String) :
    Tracks (readMethod linkage options owner) (readRawMember linkage.pool) fun _ _ => True := by
  refine .after fun access => .after fun nameIndex => .still fun name => ?_
  refine .after fun descriptorIndex => .still fun descriptor => ?_
  exact tracks_rawTable.forget fun parts => ⟨_, rfl⟩

/-- Class names take a word each. -/
theorem tracks_names (n : Nat) :
    Tracks (times n (do linkage.pool.className (← u2))) (times n u2) fun _ _ => True := by
  have hname : Tracks (do linkage.pool.className (← u2)) u2 fun _ _ => True :=
    tracks_iff.mpr fun c name d h => by
      obtain ⟨index, _, hindex, hname⟩ := bind_eq_ok.mp h
      obtain ⟨-, rfl⟩ := liftM_eq_ok.mp hname
      exact ⟨index, hindex, trivial⟩
  exact (hname.times n).mono fun _ _ _ => trivial

/-! ## Methods -/

/-- What was read of a method, with a related body, and without debug
    information if it is `dropped`. -/
def MethodParts.Related (dropped : Bool) (R : BodyRelation) (owner : String)
    (plain other : MethodParts) : Prop :=
  ∃ code, other = ⟨{ plain.method with code := code }, plain.shared.kept dropped⟩ ∧
    Option.Rel (R (plain.method.initial owner)) plain.method.code code

/-- Bodies are read with other options as related ones, or they fail for a cause
    that goes with their bytes. -/
abbrev BodiesFollow (linkage : Linkage) (options options' : DecodeOptions) (R : BodyRelation)
    (E : Bytes → Malformed → Prop) : Prop :=
  ∀ owner method body, Result.Follows ((Body.read linkage options owner method).runOn body)
    ((Body.read linkage options' owner method).runOn body)
    (fun p q => R (method.initial owner) p.1 q.1 ∧ p.2 = q.2) (E body)

/-- Any attribute but the names of parameters is no debug information. -/
theorem produces_notDebug {pool : Pool} {name : String}
    (hname : name ≠ AttributeName.methodParameters) :
    Produces (Attribute.readMethod pool name) fun attr => attr.isDebug = false := by
  refine .ite (fun h => absurd h hname) fun _ => .ite (fun _ => .after fun _ => .pure rfl) fun _ => ?_
  refine .ite (fun _ => .after fun _ => .after fun _ => .pure rfl) fun _ => ?_
  exact .ite (fun _ => .after fun _ => .after fun _ => .pure rfl) fun _ => .after fun _ => .pure rfl

theorem produces_methodParameters (owner : String) (plain : MethodParts) :
    Produces (readMethodAttribute linkage options owner AttributeName.methodParameters plain)
      fun next => next.method = plain.method ∧ next.shared.kept true = plain.shared.kept true := by
  have hshared : Attribute.readShared? linkage.pool AttributeName.methodParameters plain.shared =
      none := Attribute.readShared?_of_notMem (by decide)
  have hcode : AttributeName.methodParameters ≠ AttributeName.code := by decide
  have hexceptions : AttributeName.methodParameters ≠ AttributeName.exceptions := by decide
  unfold readMethodAttribute
  simp only [hshared, hcode, hexceptions, if_false]
  refine .ite (fun _ => .after fun _ => .pure ⟨rfl, rfl⟩) fun _ => ?_
  have hattr : Produces (Attribute.readMethod linkage.pool AttributeName.methodParameters)
      fun attr => attr.isDebug = true :=
    .ite (fun _ => .after fun _ => .after fun _ => .pure rfl) fun h => absurd rfl h
  refine hattr.bind fun attr hattr => .pure ⟨rfl, ?_⟩
  simp [Shared.kept, Shared.push, Attribute.kept, hattr]

theorem readMethodAttribute_code (owner : String) {method : MethodRecord} (shared : Shared)
    (hcode : method.code = none) :
    readMethodAttribute linkage options owner AttributeName.code ⟨method, shared⟩ = (do
      return ⟨{ method with code := some (← Body.read linkage options owner method) },
        shared⟩) := by
  have hshared : Attribute.readShared? linkage.pool AttributeName.code shared = none :=
    Attribute.readShared?_of_notMem (by decide)
  simp [readMethodAttribute, hshared, hcode]

/-- A method that has a body does not get a second one. -/
theorem readMethodAttribute_second (owner : String) {method : MethodRecord} (shared : Shared)
    {code : Code} (hcode : method.code = some code) :
    readMethodAttribute linkage options owner AttributeName.code ⟨method, shared⟩ =
      throw (.secondCode method.name method.descriptor) := by
  have hshared : Attribute.readShared? linkage.pool AttributeName.code shared = none :=
    Attribute.readShared?_of_notMem (by decide)
  simp only [readMethodAttribute, hshared, hcode, Option.isSome_some, if_true]
  rfl

theorem follows_readCode (hbody : BodiesFollow linkage options options' R E) (owner : String)
    {plain other : MethodParts} (h : plain.Related dropped R owner other) (content : Bytes) :
    Follows
      (readAll AttributeName.code
        (readMethodAttribute linkage options owner AttributeName.code plain) content)
      (readAll AttributeName.code
        (readMethodAttribute linkage options' owner AttributeName.code other) content)
      (MethodParts.Related dropped R owner) (E content) := by
  obtain ⟨code, rfl, hcode⟩ := h
  obtain ⟨method, shared⟩ := plain
  dsimp only at hcode ⊢
  cases hplain : method.code with
  | none =>
    rw [hplain] at hcode
    cases hcode
    rw [readMethodAttribute_code owner shared hplain, readMethodAttribute_code owner _ rfl]
    refine follows_content _ (Reader.Follows.runOn_map (hbody owner method content) ?_)
    exact fun body other h => ⟨some other, rfl, .some h⟩
  | some before =>
    rw [readMethodAttribute_second owner shared hplain]
    refine follows_readAll (fun c a d hrun => ?_) _ content
    exact nomatch (show EStateM.Result.error _ c = .ok a d from hrun)

theorem follows_notCode (hdropped : options'.skipDebug = (options.skipDebug || dropped))
    (owner : String) {name : String} (hname : name ≠ AttributeName.code)
    {plain other : MethodParts} (h : plain.Related dropped R owner other) (content : Bytes)
    {F : Malformed → Prop} :
    Follows (readAll name (readMethodAttribute linkage options owner name plain) content)
      (readAll name (readMethodAttribute linkage options' owner name other) content)
      (MethodParts.Related dropped R owner) F := by
  obtain ⟨code, rfl, hcode⟩ := h
  by_cases hdebug : name = AttributeName.methodParameters ∧ dropped = true
  · obtain ⟨rfl, rfl⟩ := hdebug
    rw [Bool.or_true] at hdropped
    have hshared : Attribute.readShared? linkage.pool AttributeName.methodParameters
        (plain.shared.kept true) = none := Attribute.readShared?_of_notMem (by decide)
    have hexceptions : AttributeName.methodParameters ≠ AttributeName.exceptions := by decide
    have hskip : ∀ method, readMethodAttribute linkage options' owner
        AttributeName.methodParameters ⟨method, plain.shared.kept true⟩ =
          (do skipRest; return ⟨method, plain.shared.kept true⟩) := by
      intro method
      simp only [readMethodAttribute, hshared, hname, hexceptions, hdropped, if_false, and_true,
        if_true]
    rw [hskip]
    refine follows_skipped ((produces_methodParameters owner plain).mono ?_) _ content
    rintro next ⟨hmethod, hkept⟩
    exact ⟨code, by rw [hmethod, hkept], hmethod ▸ hcode⟩
  refine follows_readAll ?_ name content
  obtain ⟨method, shared⟩ := plain
  unfold readMethodAttribute
  dsimp only at hcode ⊢
  rw [Attribute.readShared?_kept]
  cases Attribute.readShared? linkage.pool name shared with
  | some reader =>
    simp only [Option.map_some, map_eq_pure_bind, bind_assoc, pure_bind]
    exact .after fun shared => .pure ⟨code, rfl, hcode⟩
  | none =>
    refine .ite (fun h => absurd h hname) fun _ => .ite (fun _ => ?_) fun _ => ?_
    · exact .after fun exceptions => .pure ⟨code, rfl, hcode⟩
    by_cases hparameters : name = AttributeName.methodParameters
    · obtain rfl : dropped = false :=
        Bool.eq_false_iff.mpr fun hdropped => hdebug ⟨hparameters, hdropped⟩
      rw [hdropped, Bool.or_false]
      refine .ite (fun _ => .after fun _ => .pure ⟨code, rfl, hcode⟩) fun _ => ?_
      exact .after fun attr => .pure ⟨code, rfl, hcode⟩
    · rw [if_neg fun h => hparameters h.2, if_neg fun h => hparameters h.2]
      refine (produces_notDebug hparameters).follows.bind ?_
      rintro attr _ ⟨rfl, hattr⟩
      refine .pure ⟨code, ?_, hcode⟩
      simp only [Shared.push, Shared.kept, Attribute.kept_cons hattr]

/-- A method that is read with other options fails for a cause that goes with a
    `Code` attribute. -/
theorem guided_readMethod (hbody : BodiesFollow linkage options options' R E)
    (hdropped : options'.skipDebug = (options.skipDebug || dropped)) (owner : String) :
    Guided (readMethod linkage options owner) (readMethod linkage options' owner)
      (readRawMember linkage.pool) (MethodRecord.Related dropped R owner) fun attrs cause =>
        ∃ body, ⟨AttributeName.code, body⟩ ∈ attrs ∧ E body cause := by
  refine .after fun access => .after fun nameIndex => .still fun name => ?_
  refine .after fun descriptorIndex => .still fun descriptor => ?_
  let method : MethodRecord := ⟨⟨access⟩, name, descriptor, [], none, .absent, []⟩
  have hstart : MethodParts.Related dropped R owner ⟨method, .empty⟩ ⟨method, .empty⟩ := by
    refine ⟨none, ?_, .none⟩
    cases dropped <;> rfl
  have hattr : ∀ (attr : RawAttribute) plain other, MethodParts.Related dropped R owner plain other →
      Follows
        (readAll attr.name (readMethodAttribute linkage options owner attr.name plain) attr.info)
        (readAll attr.name (readMethodAttribute linkage options' owner attr.name other) attr.info)
        (MethodParts.Related dropped R owner)
        fun cause => attr.name = AttributeName.code ∧ E attr.info cause := by
    intro ⟨name, content⟩ plain other h
    dsimp only
    by_cases hname : name = AttributeName.code
    · subst hname
      exact (follows_readCode hbody owner h content).causes fun cause hcause => ⟨rfl, hcause⟩
    · exact follows_notCode hdropped owner hname h content
  refine ((guided_table hattr hstart).causes ?_).behind ?_
  · rintro attrs cause ⟨⟨_, body⟩, hmem, rfl, hcause⟩
    exact ⟨body, hmem, hcause⟩
  · rintro plain _ ⟨code, rfl, hcode⟩
    refine .pure ⟨code, ?_, hcode⟩
    simp only [Shared.attributes, Shared.kept, Attribute.kept_reverse]

/-! ## Classes -/

/-- What was read of a class, without debug information if it is `dropped`. -/
def ClassParts.kept (dropped : Bool) (parts : ClassParts) : ClassParts :=
  { parts with
    sourceFile := if dropped then none else parts.sourceFile
    sourceDebugExtension := if dropped then none else parts.sourceDebugExtension }

theorem produces_droppedInClass {name : String}
    (hname : name = AttributeName.sourceFile ∨ name = AttributeName.sourceDebugExtension)
    {parts : ClassParts}
    (hshared : Attribute.readShared? linkage.pool name parts.shared = none) :
    Produces (readClassAttribute linkage options name parts) fun next =>
      next.kept true = parts.kept true := by
  unfold readClassAttribute
  rw [hshared]
  refine .ite (fun _ => .after fun _ => .pure rfl) fun _ => ?_
  refine .ite (fun _ => .after fun _ => .after fun _ => .pure rfl) fun h₁ => ?_
  refine .ite (fun _ => .after fun _ => .pure rfl) fun h₂ => ?_
  exact absurd hname (not_or.mpr ⟨h₁, h₂⟩)

theorem follows_readClassAttribute
    (hdropped : options'.skipDebug = (options.skipDebug || dropped)) (name : String)
    (parts : ClassParts) (content : Bytes) {F : Malformed → Prop} :
    Follows (readAll name (readClassAttribute linkage options name parts) content)
      (readAll name (readClassAttribute linkage options' name (parts.kept dropped)) content)
      (fun next other => other = next.kept dropped) F := by
  cases hshared : Attribute.readShared? linkage.pool name parts.shared with
  | some reader =>
    have hread : ∀ (o : DecodeOptions) (other : ClassParts), other.shared = parts.shared →
        readClassAttribute linkage o name other =
          (do return { other with shared := ← reader }) := by
      intro o other hother
      simp only [readClassAttribute, hother, hshared]
    rw [hread options parts rfl, hread options' (parts.kept dropped) rfl]
    refine follows_readAll ?_ name content
    exact .after fun shared => .pure rfl
  | none =>
    by_cases hdebug : dropped = true ∧
        (name = AttributeName.sourceFile ∨ name = AttributeName.sourceDebugExtension)
    · obtain ⟨rfl, hname⟩ := hdebug
      have hskip : readClassAttribute linkage options' name (parts.kept true) =
          (do skipRest; return parts.kept true) := by
        unfold readClassAttribute
        rw [show (parts.kept true).shared = parts.shared from rfl, hshared]
        simp [hdropped, hname]
      rw [hskip]
      exact follows_skipped ((produces_droppedInClass hname hshared).mono fun _ h => h.symm) name
        content
    · refine follows_readAll ?_ name content
      unfold readClassAttribute
      rw [show (parts.kept dropped).shared = parts.shared from rfl, hshared]
      have hsame : (options'.skipDebug = true ∧ (name = AttributeName.sourceFile ∨
          name = AttributeName.sourceDebugExtension)) ↔ (options.skipDebug = true ∧
            (name = AttributeName.sourceFile ∨ name = AttributeName.sourceDebugExtension)) := by
        rw [hdropped, Bool.or_eq_true, and_congr_left_iff]
        exact fun hname => or_iff_left fun hskip => hdebug ⟨hskip, hname⟩
      simp only [hsame]
      refine .ite (fun _ => .after fun _ => .pure rfl) fun _ => ?_
      have hkept : ∀ {file}, name = file → (file = AttributeName.sourceFile ∨
          file = AttributeName.sourceDebugExtension) → dropped = false := by
        rintro _ rfl hname
        exact Bool.eq_false_iff.mpr fun hskip => hdebug ⟨hskip, hname⟩
      refine .ite (fun hname => ?_) fun _ => .ite (fun hname => ?_) fun _ => ?_
      · obtain rfl := hkept hname (.inl rfl)
        exact .after fun index => .after fun file => .pure rfl
      · obtain rfl := hkept hname (.inr rfl)
        exact .after fun extension => .pure rfl
      refine .ite (fun _ => .after fun _ => .pure rfl) fun _ => .after fun attr => .pure rfl

theorem tracks_readClassParts (hdropped : options'.skipDebug = (options.skipDebug || dropped)) :
    Tracks (readClassParts linkage options) (readClassParts linkage options')
      fun parts other => other = parts.kept dropped := by
  have hread : ∀ name (parts other : ClassParts), other = parts.kept dropped → ∀ content,
      Tracks (readAll name (readClassAttribute linkage options name parts) content)
        (readAll name (readClassAttribute linkage options' name other) content)
        fun parts other => other = parts.kept dropped := by
    rintro name parts _ rfl content
    exact follows_readClassAttribute hdropped name parts content
  refine follows_table hread ?_
  cases dropped <;> rfl

/-- A class that is read with other options fails for a cause that goes with a
    `Code` attribute of a method. -/
theorem guided_readClass (hbody : BodiesFollow linkage options options' R E)
    (hdropped : options'.skipDebug = (options.skipDebug || dropped))
    (minorVersion majorVersion : UInt16) :
    Guided (readClass linkage options minorVersion majorVersion)
      (readClass linkage options' minorVersion majorVersion) (readMethodTables linkage.pool)
      (ClassRecord.Related dropped R) fun methods cause =>
        ∃ attrs ∈ methods, ∃ body, ⟨AttributeName.code, body⟩ ∈ attrs ∧ E body cause := by
  unfold readClass Attribute.readClassNames
  simp only [bind_assoc]
  refine .after fun access => .after fun nameIndex => .still fun name => ?_
  refine .after fun superIndex => .still fun superName => .after fun interfaceCount => ?_
  refine .front (tracks_names _) fun interfaces _ => .after fun fieldCount => ?_
  refine .front ((tracks_rawField.times _).mono fun _ _ _ => trivial) fun fields _ => ?_
  refine .after fun methodCount => ?_
  refine (Guided.times (tracks_rawMethod name) (guided_readMethod hbody hdropped name) _).behind ?_
  intro plain other hmethods
  refine (tracks_readClassParts hdropped).bind ?_
  rintro parts _ rfl
  exact .pure ⟨other, rfl, hmethods⟩

/-- A class file that is read with other options fails for a cause that goes with
    a `Code` attribute of a method. -/
theorem guided_read {E : Linkage → Bytes → Malformed → Prop}
    (hbody : ∀ linkage, BodiesFollow linkage options options' R (E linkage))
    (hdropped : options'.skipDebug = (options.skipDebug || dropped)) :
    Guided (read options) (read options') readOutline (ClassRecord.Related dropped R)
      fun (linkage, methods) cause => ∃ attrs ∈ methods, ∃ body,
        ⟨AttributeName.code, body⟩ ∈ attrs ∧ E linkage body cause := by
  refine .after fun header => .after fun start => .after fun bootstraps => .after fun _ => ?_
  refine .returning ?_
  refine (guided_readClass (hbody ⟨header.pool, bootstraps⟩) hdropped header.minorVersion
    header.majorVersion).behind fun plain other h => .after fun left => ?_
  exact .require fun _ => .pure h

/-- **A class that is read with some options** is read with other ones as a
    related one, or fails for a cause that goes with the body of one of its
    methods. -/
theorem related_or_malformed {E : Linkage → Bytes → Malformed → Prop}
    (hbody : ∀ linkage, BodiesFollow linkage options options' R (E linkage))
    (hdropped : options'.skipDebug = (options.skipDebug || dropped)) {bytes : Bytes}
    {plain : ClassRecord} (h : decode bytes options = .ok plain) :
    (∃ other, decode bytes options' = .ok other ∧ plain.Related dropped R other) ∨
      ∃ cause linkage body, decode bytes options' = .error cause ∧
        HasBody bytes linkage body ∧ E linkage body cause := by
  obtain ⟨p, hrun, rfl⟩ := Result.map_eq_ok.mp h
  rcases (guided_read hbody hdropped).runOn bytes p hrun with ⟨q, hother, hrelated, -⟩ | hmalformed
  · exact .inl ⟨q.1, Result.map_eq_ok.mpr ⟨q, hother, rfl⟩, hrelated⟩
  · obtain ⟨cause, herror, ⟨linkage, methods⟩, rest, houtline, attrs, hattrs, body, hmem, hE⟩ :=
      hmalformed
    refine .inr ⟨cause, linkage, body, ?_, ⟨methods, attrs, ?_, hattrs, hmem⟩, hE⟩
    · rw [decode, herror]
      rfl
    · exact Result.map_eq_ok.mpr ⟨(_, rest), houtline, rfl⟩

end ClassFile

end JvmClass
