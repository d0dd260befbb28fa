/-
  What is known of classes that were read.

  * `FieldRecord.Sound`, `MethodRecord.Sound` and `ClassRecord.Sound`: a record
    can be read again, and what it holds can be counted and refers to
    instructions that there are;
  * `produces_readClass`: this is known of every class that is read behind its
    header, whatever is left out of it.
-/
import JvmClass.Proofs.Body.Decoded
import JvmClass.Proofs.ClassFile.RoundTrip

namespace JvmClass

/-- The number of attributes that are written for a field. -/
def FieldRecord.number (field : FieldRecord) : Nat :=
  field.value.toList.length + field.annotations.number + field.attributes.length

/-- What is known of a field that was read. -/
structure FieldRecord.Sound (linked : Prop) (field : FieldRecord) : Prop where
  readable : field.Readable
  value : ∀ value ∈ field.value, value.Linkable linked
  annotations : field.annotations.Countable
  attributes : ∀ attr ∈ field.attributes, attr.Countable
  number : field.number ≤ 0xFFFF

/-- The number of attributes that are written for a method. -/
def MethodRecord.number (method : MethodRecord) : Nat :=
  method.code.toList.length + (if method.exceptions.isEmpty then 0 else 1) +
    method.annotations.number + method.attributes.length

/-- What is known of a method that was read. -/
structure MethodRecord.Sound (linked : Prop) (method : MethodRecord) : Prop where
  readable : method.Readable
  code : ∀ code ∈ method.code, code.Sound linked
  exceptions : method.exceptions.length ≤ 0xFFFF
  annotations : method.annotations.Countable
  attributes : ∀ attr ∈ method.attributes, attr.Countable
  number : method.number ≤ 0xFFFF

/-- The number of attributes that are written for a class, the bootstrap
    method table apart. -/
def ClassRecord.number (record : ClassRecord) : Nat :=
  record.sourceFile.toList.length + record.sourceDebugExtension.toList.length +
    record.annotations.number + record.attributes.length

/-- What is known of a class that was read. -/
structure ClassRecord.Sound (linked : Prop) (record : ClassRecord) : Prop where
  readable : record.Readable
  interfaces : record.interfaces.length ≤ 0xFFFF
  fieldCount : record.fields.length ≤ 0xFFFF
  fields : ∀ field ∈ record.fields, field.Sound linked
  methodCount : record.methods.length ≤ 0xFFFF
  methods : ∀ method ∈ record.methods, method.Sound linked
  annotations : record.annotations.Countable
  attributes : ∀ attr ∈ record.attributes, attr.Countable
  number : record.number ≤ 0xFFFF

namespace ClassFile

open Reader Attribute

variable {linkage : Linkage} {options : DecodeOptions}

/-! ## The bootstrap method table -/

theorem produces_readBootstraps :
    Produces readBootstraps fun rows => ∀ row ∈ rows, row.arguments.length ≤ 0xFFFF := by
  have hrow : Produces readBootstrapRow fun row => row.arguments.length ≤ 0xFFFF := by
    refine .after fun _ => .after fun count => (Produces.any.times _).bind fun arguments h => ?_
    exact .pure (h.1 ▸ word_le count)
  exact hrow.counted.mono fun _ h => h.2

theorem produces_findBootstraps (pool : Pool) :
    Produces (findBootstraps pool) fun rows => ∀ row ∈ rows, row.arguments.length ≤ 0xFFFF := by
  have htable : Produces (readBootstrapAttribute pool) fun rows =>
      ∀ row ∈ rows, row.arguments.length ≤ 0xFFFF := by
    refine .after fun _ => .after fun _ => .after fun content => .after fun _ => ?_
    refine .ite (fun _ => .pure nofun) fun _ => .lift fun ⟨rows, rest⟩ hrows => ?_
    exact .require fun _ => .pure (produces_readBootstraps.of_runOn hrows)
  refine .after fun _ => .after fun _ => (htable.times _).bind fun tables h => .pure ?_
  intro row hrow
  obtain ⟨rows, hrows, hmem⟩ := List.mem_flatten.mp (List.mem_toArray.mp hrow)
  exact h.2 rows hrows row hmem

/-! ## Members -/

theorem produces_raw {Stands : Attribute → Prop} (name : String)
    (h : ∀ attr : RawAttribute, attr.name = name → Stands (.raw attr)) :
    Produces (readRaw name) fun attr =>
      Stands (.raw attr) ∧ Attribute.Nests (.raw attr) ∧ Attribute.Countable (.raw attr) :=
  .after fun _ => .pure ⟨h _ rfl, trivial, trivial⟩

/-- What is known of a field after `n` of its attributes. -/
structure FieldSoFar (linked : Prop) (n : Nat) (state : Option Constant × Shared) : Prop where
  value : ∀ value ∈ state.1, value.Linkable linked ∧ value.depth ≤ Linkage.maxDepth + 1
  shared : state.2.Sound OnField
  number : state.1.toList.length + state.2.number ≤ n

theorem produces_readFieldAttribute (hcount : linkage.Countable) {n : Nat} (name : String)
    {state : Option Constant × Shared} (h : FieldSoFar (linkage.bootstraps ≠ #[]) n state) :
    Produces (readFieldAttribute linkage name state)
      (FieldSoFar (linkage.bootstraps ≠ #[]) (n + 1)) := by
  obtain ⟨value, shared⟩ := state
  have ⟨hvalue, hshared, hnumber⟩ := h
  dsimp only at hnumber
  unfold readFieldAttribute
  dsimp only
  split
  next reader hreader =>
    refine (produces_shared hshared (fun _ => trivial) trivial trivial hreader).bind ?_
    intro next hnext
    have hle : next.number ≤ shared.number + 1 := hnext.2
    exact .pure ⟨hvalue, hnext.1, by dsimp only; omega⟩
  next hreader =>
    refine .ite (fun _ => .after fun _ => .lift fun value hconstant => .pure ?_) fun hname => ?_
    · refine ⟨?_, hshared, by simp only [Option.toList_some, List.length_singleton]; omega⟩
      rintro _ ⟨⟩
      exact Linkage.of_constant hcount hconstant
    · refine (@produces_raw OnField name ?_).bind fun attr hattr =>
        .pure ⟨hvalue, hshared.push hattr, ?_⟩
      · rintro attr rfl
        exact fun hmem => (List.mem_cons.mp hmem).elim hname (notMem_of_readShared? hreader)
      · simp only [Shared.number, Shared.push, List.length_cons] at hnumber ⊢
        omega

theorem produces_readField (hcount : linkage.Countable) :
    Produces (readField linkage) fun field => field.Sound (linkage.bootstraps ≠ #[]) := by
  refine .after fun access => .after fun _ => .after fun name => .after fun _ => ?_
  refine .after fun descriptor => ?_
  have hstart : FieldSoFar (linkage.bootstraps ≠ #[]) 0 (none, .empty) :=
    ⟨nofun, Shared.sound_empty _, Nat.le_refl 0⟩
  refine (AttributeTable.produces_table
    (fun _ name _ h => produces_readFieldAttribute hcount name h) hstart).bind ?_
  rintro ⟨value, shared⟩ ⟨n, hn, hvalue, hshared, hnumber⟩
  have hattributes : ∀ attr ∈ shared.attributes, attr.OnField ∧ attr.Nests ∧ attr.Countable :=
    fun attr hattr => hshared.attributes attr (List.mem_reverse.mp hattr)
  refine .pure ⟨⟨fun value h => (hvalue value h).2, hshared.readable,
    fun attr h => (hattributes attr h).1, fun attr h => (hattributes attr h).2.1⟩,
    fun value h => (hvalue value h).1, hshared.countable,
    fun attr h => (hattributes attr h).2.2, ?_⟩
  simp only [FieldRecord.number, Shared.number, Shared.attributes, List.length_reverse]
    at hnumber ⊢
  omega

theorem produces_readMethod {pool : Pool} {name : String} (hshared : name ∉ AttributeName.shared)
    (hcode : name ≠ AttributeName.code) (hexceptions : name ≠ AttributeName.exceptions) :
    Produces (Attribute.readMethod pool name) fun attr =>
      attr.OnMethod ∧ attr.Nests ∧ attr.Countable := by
  have hlists : Produces (do times (← u1).toNat (Annotations.readList pool)) fun lists =>
      (∀ list ∈ lists, ∀ a ∈ list, a.Nests) ∧ lists.length ≤ 0xFF ∧
        ∀ list ∈ lists, list.length ≤ 0xFFFF ∧ ∀ a ∈ list, a.Countable :=
    Annotations.produces_readList.byteCounted.mono fun lists h =>
      ⟨fun list hlist a ha => ((h.2 list hlist).2 a ha).2, h.1, fun list hlist =>
        ⟨(h.2 list hlist).1, fun a ha => ((h.2 list hlist).2 a ha).1⟩⟩
  refine .ite (fun _ => .after fun count => ?_) fun h₁ => .ite (fun _ => ?_) fun h₂ => ?_
  · refine (Produces.any.times _).bind fun parameters h => .pure ⟨trivial, trivial, ?_⟩
    exact Nat.le_trans (Nat.le_of_eq h.1) (byte_le count)
  · exact Annotations.produces_readValue.bind fun value h => .pure ⟨trivial, h.2, h.1⟩
  refine .ite (fun _ => ?_) fun h₃ => .ite (fun _ => ?_) fun h₄ => ?_
  · have := hlists.bind (f := fun lists => pure (Attribute.parameterAnnotations true lists))
      (Q := fun attr => attr.OnMethod ∧ attr.Nests ∧ attr.Countable) fun lists h =>
      .pure ⟨trivial, h⟩
    rwa [bind_assoc] at this
  · have := hlists.bind (f := fun lists => pure (Attribute.parameterAnnotations false lists))
      (Q := fun attr => attr.OnMethod ∧ attr.Nests ∧ attr.Countable) fun lists h =>
      .pure ⟨trivial, h⟩
    rwa [bind_assoc] at this
  · refine (@produces_raw OnMethod name ?_).bind fun attr hattr => .pure hattr
    rintro attr rfl
    simp only [OnMethod, AttributeName.inMethod, List.mem_append, List.mem_cons,
      List.not_mem_nil, or_false, not_or]
    exact ⟨⟨hcode, hexceptions, h₁, h₂, h₃, h₄⟩, hshared⟩

/-- What is known of a method after `n` of its attributes. -/
structure MethodSoFar (linked : Prop) (n : Nat) (parts : MethodParts) : Prop where
  code : ∀ code ∈ parts.method.code, code.Sound linked
  exceptions : parts.method.exceptions.length ≤ 0xFFFF
  shared : parts.shared.Sound OnMethod
  number : parts.method.code.toList.length + (if parts.method.exceptions.isEmpty then 0 else 1) +
    parts.shared.number ≤ n

theorem produces_readMethodAttribute (hcount : linkage.Countable) (owner : String) {n : Nat}
    (name : String) {parts : MethodParts} (h : MethodSoFar (linkage.bootstraps ≠ #[]) n parts) :
    Produces (readMethodAttribute linkage options owner name parts)
      (MethodSoFar (linkage.bootstraps ≠ #[]) (n + 1)) := by
  obtain ⟨method, shared⟩ := parts
  have ⟨hcode, hexceptions, hshared, hnumber⟩ := h
  dsimp only at hcode hexceptions hshared hnumber
  unfold readMethodAttribute
  dsimp only
  split
  next reader hreader =>
    refine (produces_shared hshared (fun _ => trivial) trivial trivial hreader).bind ?_
    intro next hnext
    have hle : next.number ≤ shared.number + 1 := hnext.2
    exact .pure ⟨hcode, hexceptions, hnext.1, by dsimp only; omega⟩
  next hreader =>
    refine .ite (fun _ => ?_) fun h₁ => .ite (fun _ => ?_) fun h₂ => ?_
    · refine .guard fun hnone => (Body.produces_read hcount).bind fun code hcode => .pure ?_
      refine ⟨?_, hexceptions, hshared, ?_⟩
      · rintro _ ⟨⟩
        exact hcode
      · simp only [Option.toList_some, List.length_singleton]
        omega
    · have hnames : Produces (readClassNames linkage.pool) fun names => names.length ≤ 0xFFFF :=
        Produces.any.counted.mono fun _ h => h.1
      refine hnames.bind fun names hlength => .pure ⟨hcode, hlength, hshared, ?_⟩
      dsimp only
      split <;> omega
    refine .ite (fun _ => .after fun _ => .pure ?_) fun _ => ?_
    · exact ⟨hcode, hexceptions, hshared, Nat.le_succ_of_le hnumber⟩
    · refine (produces_readMethod (notMem_of_readShared? hreader) h₁ h₂).bind fun attr hattr =>
        .pure ⟨hcode, hexceptions, hshared.push hattr, ?_⟩
      simp only [Shared.number, Shared.push, List.length_cons] at hnumber ⊢
      omega

theorem produces_readMethodRecord (hcount : linkage.Countable) (owner : String) :
    Produces (readMethod linkage options owner) fun method =>
      method.Sound (linkage.bootstraps ≠ #[]) := by
  refine .after fun access => .after fun _ => .after fun name => .after fun _ => ?_
  refine .after fun descriptor => ?_
  have hstart : MethodSoFar (linkage.bootstraps ≠ #[]) 0
      ⟨⟨⟨access⟩, name, descriptor, [], none, .absent, []⟩, .empty⟩ :=
    ⟨nofun, Nat.zero_le _, Shared.sound_empty _, Nat.le_refl 0⟩
  refine (AttributeTable.produces_table
    (fun _ name _ h => produces_readMethodAttribute hcount owner name h) hstart).bind ?_
  rintro ⟨method, shared⟩ ⟨n, hn, hcode, hexceptions, hshared, hnumber⟩
  have hattributes : ∀ attr ∈ shared.attributes, attr.OnMethod ∧ attr.Nests ∧ attr.Countable :=
    fun attr hattr => hshared.attributes attr (List.mem_reverse.mp hattr)
  refine .pure ⟨⟨hshared.readable, fun attr h => (hattributes attr h).1,
    fun attr h => (hattributes attr h).2.1⟩, hcode, hexceptions, hshared.countable,
    fun attr h => (hattributes attr h).2.2, ?_⟩
  simp only [MethodRecord.number, Shared.number, Shared.attributes, List.length_reverse]
    at hnumber ⊢
  omega

/-! ## Classes -/

theorem produces_readClassOwn {pool : Pool} {name : String} (hshared : name ∉ AttributeName.shared)
    (hfile : name ≠ AttributeName.sourceFile)
    (hextension : name ≠ AttributeName.sourceDebugExtension)
    (hbootstraps : name ≠ AttributeName.bootstrapMethods) :
    Produces (Attribute.readClass pool name) fun attr =>
      attr.OnClass ∧ attr.Nests ∧ attr.Countable := by
  have hnames : Produces (readClassNames pool) fun names => names.length ≤ 0xFFFF :=
    Produces.any.counted.mono fun _ h => h.1
  refine .ite (fun _ => .after fun count => ?_) fun h₁ => .ite (fun _ => ?_) fun h₂ => ?_
  · exact (Produces.any.times _).bind fun classes h =>
      .pure ⟨trivial, trivial, Nat.le_trans (Nat.le_of_eq h.1) (word_le count)⟩
  · exact .after fun _ => .pure ⟨trivial, trivial, trivial⟩
  refine .ite (fun _ => ?_) fun h₃ => .ite (fun _ => ?_) fun h₄ => .ite (fun _ => ?_) fun h₅ => ?_
  · exact .after fun _ => .after fun _ => .pure ⟨trivial, trivial, trivial⟩
  · exact hnames.bind fun names h => .pure ⟨trivial, trivial, h⟩
  · exact hnames.bind fun names h => .pure ⟨trivial, trivial, h⟩
  · refine (@produces_raw OnClass name ?_).bind fun attr hattr => .pure hattr
    rintro attr rfl
    simp only [OnClass, AttributeName.inClass, List.mem_append, List.mem_cons,
      List.not_mem_nil, or_false, not_or]
    exact ⟨⟨hfile, hextension, hbootstraps, h₁, h₂, h₃, h₄, h₅⟩, hshared⟩

/-- What is known of a class after `n` of its attributes. -/
structure ClassSoFar (n : Nat) (parts : ClassParts) : Prop where
  shared : parts.shared.Sound OnClass
  number : parts.sourceFile.toList.length + parts.sourceDebugExtension.toList.length +
    parts.shared.number ≤ n

theorem produces_readClassAttribute {n : Nat} (name : String) {parts : ClassParts}
    (h : ClassSoFar n parts) :
    Produces (readClassAttribute linkage options name parts) (ClassSoFar (n + 1)) := by
  obtain ⟨file, extension, shared⟩ := parts
  have ⟨hshared, hnumber⟩ := h
  dsimp only at hshared hnumber
  have hskip : ClassSoFar (n + 1) ⟨file, extension, shared⟩ := ⟨hshared, Nat.le_succ_of_le hnumber⟩
  unfold readClassAttribute
  dsimp only
  split
  next reader hreader =>
    refine (produces_shared hshared (fun _ => trivial) trivial trivial hreader).bind ?_
    intro next hnext
    have hle : next.number ≤ shared.number + 1 := hnext.2
    exact .pure ⟨hnext.1, by dsimp only; omega⟩
  next hreader =>
    refine .ite (fun _ => .after fun _ => .pure hskip) fun _ => .ite (fun _ => ?_) fun h₁ =>
      .ite (fun _ => ?_) fun h₂ => .ite (fun _ => .after fun _ => .pure hskip) fun h₃ => ?_
    · refine .after fun _ => .after fun _ => .pure ⟨hshared, ?_⟩
      simp only [Option.toList_some, List.length_singleton]
      omega
    · refine .after fun _ => .pure ⟨hshared, ?_⟩
      simp only [Option.toList_some, List.length_singleton]
      omega
    · refine (produces_readClassOwn (notMem_of_readShared? hreader) h₁ h₂ h₃).bind
        fun attr hattr => .pure ⟨hshared.push hattr, ?_⟩
      simp only [Shared.number, Shared.push, List.length_cons] at hnumber ⊢
      omega

theorem produces_readClass (hcount : linkage.Countable) (minorVersion majorVersion : UInt16) :
    Produces (readClass linkage options minorVersion majorVersion) fun record =>
      record.Sound (linkage.bootstraps ≠ #[]) := by
  refine .after fun access => .after fun _ => .after fun name => .after fun _ => ?_
  refine .after fun superName => ?_
  have hnames : Produces (readClassNames linkage.pool) fun names => names.length ≤ 0xFFFF :=
    Produces.any.counted.mono fun _ h => h.1
  refine hnames.bind fun interfaces hinterfaces => .after fun fieldCount => ?_
  refine ((produces_readField hcount).times _).bind fun fields hfields => ?_
  refine .after fun methodCount => ?_
  refine ((produces_readMethodRecord hcount name).times _).bind fun methods hmethods => ?_
  have hstart : ClassSoFar 0 ⟨none, none, .empty⟩ := ⟨Shared.sound_empty _, Nat.le_refl 0⟩
  refine (AttributeTable.produces_table
    (fun _ name _ h => produces_readClassAttribute name h) hstart).bind ?_
  rintro ⟨file, extension, shared⟩ ⟨n, hn, hshared, hnumber⟩
  have hattributes : ∀ attr ∈ shared.attributes, attr.OnClass ∧ attr.Nests ∧ attr.Countable :=
    fun attr hattr => hshared.attributes attr (List.mem_reverse.mp hattr)
  refine .pure
    { readable :=
        { fields := fun field h => (hfields.2 field h).readable
          methods := fun method h => (hmethods.2 method h).readable
          annotations := hshared.readable
          stands := fun attr h => (hattributes attr h).1
          nests := fun attr h => (hattributes attr h).2.1
          bodies := fun method h code hcode => ((hmethods.2 method h).code code hcode).readable }
      interfaces := hinterfaces
      fieldCount := hfields.1 ▸ word_le fieldCount
      fields := hfields.2
      methodCount := hmethods.1 ▸ word_le methodCount
      methods := hmethods.2
      annotations := hshared.countable
      attributes := fun attr h => (hattributes attr h).2.2
      number := ?_ }
  simp only [ClassRecord.number, Shared.number, Shared.attributes, List.length_reverse]
    at hnumber ⊢
  omega

/-- Read a class file behind its header. -/
def readBehind (options : DecodeOptions) (header : Header) : Reader ClassRecord := do
  let start ← position
  let bootstraps ← findBootstraps header.pool
  seek start
  let record ← readClass ⟨header.pool, bootstraps⟩ options header.minorVersion
    header.majorVersion
  let left ← remaining
  unless left = 0 do throw (.trailingBytes left)
  return record

theorem read_eq (options : DecodeOptions) : read options = readHeader >>= readBehind options := rfl

theorem decode_eq_ok {bytes : Bytes} {record : ClassRecord} :
    decode bytes options = .ok record ↔ ∃ header c d,
      readHeader.runOn bytes = .ok (header, c) ∧ readBehind options header c = .ok record d := by
  rw [decode, Result.map_eq_ok, read_eq]
  constructor
  · rintro ⟨⟨_, d⟩, hrun, rfl⟩
    obtain ⟨header, c, hheader, hbehind⟩ := bind_eq_ok.mp (runOn_eq_ok.mp hrun)
    exact ⟨header, c, d, runOn_eq_ok.mpr hheader, hbehind⟩
  · rintro ⟨header, c, d, hheader, hbehind⟩
    refine ⟨(record, d), runOn_eq_ok.mpr (bind_eq_ok.mpr ⟨header, c, ?_, hbehind⟩), rfl⟩
    exact runOn_eq_ok.mp hheader

end ClassFile

end JvmClass
