/-
  Classes survive writing.

  * `Ends` is what a step yields in the state that it leads to, also where
    later steps would undo it;
  * `ends_writeBootstraps`: the bootstrap method table is written once nothing
    is added to it any more;
  * `ends_writeClass`: what is written for a class is read as its normal form,
    and its bootstrap methods are found in it.
-/
import JvmClass.Proofs.ClassFile.Members

namespace JvmClass

/-- A class that can be read again, the bodies of its methods apart. -/
structure ClassRecord.PartsReadable (record : ClassRecord) : Prop where
  fields : ∀ field ∈ record.fields, field.Readable
  methods : ∀ method ∈ record.methods, method.Readable
  annotations : record.annotations.Readable
  stands : ∀ attr ∈ record.attributes, attr.OnClass
  nests : ∀ attr ∈ record.attributes, attr.Nests

/-- The class with its constants in normal form and with `f` on the bodies of
    its methods. -/
def ClassRecord.mapCode (f : MethodRecord → Code → Code) (record : ClassRecord) : ClassRecord :=
  { record with
    fields := record.fields.map FieldRecord.normalize
    methods := record.methods.map (MethodRecord.mapCode f) }

/-- From a valid state `step` leads to a valid state that extends it and in
    which `post` holds. -/
def Ends {σ α : Type} [Growing σ] (step : EStateM Invalid σ α) (post : σ → α → Prop) : Prop :=
  ∀ s a t, Growing.Valid s → step s = .ok a t →
    Growing.Valid t ∧ Growing.Extends s t ∧ post t a

namespace Ends

variable {σ α β : Type} [Growing σ] {x : EStateM Invalid σ α} {f : α → EStateM Invalid σ β}
  {P : σ → α → Prop} {R : σ → β → Prop}

theorem bind (hx : Yields x P) (hf : ∀ a, Ends (f a) fun s b => P s a → R s b) :
    Ends (x >>= f) R := by
  intro s b u hs hrun
  simp only [Bind.bind, EStateM.bind] at hrun
  split at hrun
  next a t ht =>
    obtain ⟨htv, hst, hP⟩ := hx s a t hs ht
    obtain ⟨huv, htu, hR⟩ := hf a t b u htv hrun
    exact ⟨huv, Growing.trans hst htu, hR (hP u huv htu)⟩
  next => simp at hrun

theorem bindStill (hx : Ends x P) (hf : ∀ a s b t, f a s = .ok b t → t = s ∧ (P s a → R s b)) :
    Ends (x >>= f) R := by
  intro s b u hs hrun
  simp only [Bind.bind, EStateM.bind] at hrun
  split at hrun
  next a t ht =>
    obtain ⟨htv, hst, hP⟩ := hx s a t hs ht
    obtain ⟨rfl, hR⟩ := hf a t b u hrun
    exact ⟨htv, hst, hR hP⟩
  next => simp at hrun

end Ends

namespace ClassFile

open Reader AttributeTable Attribute

/-! ## Attributes -/

theorem readsAt_readClass {pool : Pool} {attr : Attribute} {content : Bytes} {shared : Shared}
    (hstands : attr.OnClass) (hnone : readShared? pool attr.name shared = none)
    (hcontent : attr.ReadsAs pool content) :
    ReadsAt [] [] (Attribute.readClass pool attr.name) content attr := by
  cases attr with
  | raw attr =>
    obtain rfl : content = attr.info := hcontent
    have hnames := hstands
    simp only [OnClass, AttributeName.inClass, List.mem_append, List.mem_cons,
      List.not_mem_nil, or_false, not_or] at hnames
    obtain ⟨⟨-, -, -, h₁, h₂, h₃, h₄, h₅⟩, -⟩ := hnames
    unfold Attribute.readClass
    rw [Attribute.name, if_neg h₁, if_neg h₂, if_neg h₃, if_neg h₄, if_neg h₅]
    exact ReadsAt.map (readsAt_raw attr)
  | signature | deprecated | synthetic => cases hnone
  | innerClasses classes =>
    have := ReadsAt.map (g := innerClasses) (hcontent [] [])
    rwa [bind_assoc] at this
  | nestHost host =>
    obtain ⟨index, rfl, hindex⟩ := hcontent
    exact (reads_u2 index).thenMap hindex [] []
  | enclosingMethod | nestMembers | permittedSubclasses => exact ReadsAt.map (hcontent [] [])
  | _ => exact absurd hstands id

theorem name_of_onClass {attr : Attribute} (hstands : attr.OnClass) :
    attr.name ≠ AttributeName.sourceFile ∧ attr.name ≠ AttributeName.sourceDebugExtension ∧
      attr.name ≠ AttributeName.bootstrapMethods := by
  cases attr with
  | raw attr =>
    simp only [OnClass, AttributeName.inClass, List.mem_append, List.mem_cons,
      List.not_mem_nil, or_false, not_or] at hstands
    exact ⟨hstands.1.1, hstands.1.2.1, hstands.1.2.2.1⟩
  | _ => first | exact absurd hstands id | simp only [Attribute.name]; decide

theorem readClassAttribute_of_onClass {linkage : Linkage} {spelled : Bool} {attr : Attribute}
    {parts : ClassParts} (hstands : attr.OnClass) (hnone : readShared? linkage.pool attr.name parts.shared = none) :
    readClassAttribute linkage { expandFrames := spelled } attr.name parts =
      (do return { parts with
        shared := parts.shared.push (← Attribute.readClass linkage.pool attr.name) }) := by
  obtain ⟨h₁, h₂, h₃⟩ := name_of_onClass hstands
  simp only [readClassAttribute, hnone, if_neg h₁, if_neg h₂, if_neg h₃, Bool.false_eq_true,
    false_and, if_false]

theorem classLevel (linkage : Linkage) (spelled : Bool) (file : Option String)
    (extension : Option Bytes) :
    Level linkage.pool (readClassAttribute linkage { expandFrames := spelled })
      (ClassParts.mk file extension) (fun name => name ≠ AttributeName.bootstrapMethods)
      OnClass where
  shared name state reader hreader := by simp only [readClassAttribute, hreader]
  own attr content state hstands hnone hcontent := by
    rw [readClassAttribute_of_onClass hstands hnone]
    exact ReadsAt.map (readsAt_readClass hstands hnone hcontent)
  raw attr hstands hmem := hstands (List.mem_append_right _ hmem)
  allowedShared name hname := by
    rintro rfl
    exact absurd hname (by decide)
  allowedOwn attr hstands := (name_of_onClass hstands).2.2

/-! ## The bootstrap method table -/

theorem reads_bootstrapRow {row : BootstrapRow} {w : Bytes} (h : writeBootstrapRow row = .ok w) :
    Reads readBootstrapRow w row := by
  obtain ⟨count, hcount, h⟩ := Result.bind_eq_ok.mp h
  cases h
  rw [List.append_assoc]
  refine (reads_u2 row.handle).bind ((reads_u2 count).bind (Reads.map ?_))
  rw [List.flatMap_def]
  refine reads_times ?_ (Linking.toNat_of_count hcount)
  rw [List.forall₂_map_left_iff, List.forall₂_same]
  exact fun argument _ => reads_u2 argument

/-- The rows of a linker are written as an attribute, if there are any. -/
def IsBootstraps (linker : Linker) (ws : List Bytes) : Prop :=
  (ws = [] ∧ linker.rows.toList = []) ∨ ∃ w content, ws = [w] ∧
    IsAttr linker.toLinkage.pool w AttributeName.bootstrapMethods content ∧
      Reads readBootstraps content linker.rows.toList

theorem rows_attr {name : String} {content w : Bytes} {s t : Linker}
    (h : attr name content s = .ok w t) : t.rows = s.rows := by
  unfold attr at h
  dsimp only at h
  split at h
  next => exact nomatch (show EStateM.Result.error _ s = .ok w t from h)
  next =>
    obtain ⟨index, u, hindex, h⟩ := Linking.bind_eq_ok.mp h
    cases h
    exact (Linking.lift_eq_ok.mp hindex).2.1

/-- **The bootstrap method table holds the rows there are** when it is
    written. -/
theorem ends_writeBootstraps : Ends writeBootstraps IsBootstraps := by
  intro s ws t hs hrun
  obtain ⟨_, _, hget, hrun⟩ := Linking.bind_eq_ok.mp hrun
  cases hget
  split at hrun
  next hempty =>
    cases hrun
    exact ⟨hs, Growing.refl s, .inl ⟨rfl, List.isEmpty_iff.mp hempty⟩⟩
  next =>
    obtain ⟨count, _, hcount, hmapped⟩ := Linking.bind_eq_ok.mp hrun
    obtain ⟨hcount, rfl⟩ := Linking.liftM_eq_ok.mp hcount
    obtain ⟨rows, _, hrows, hwritten⟩ := Linking.bind_eq_ok.mp hmapped
    obtain ⟨hrows, rfl⟩ := Linking.liftM_eq_ok.mp hrows
    obtain ⟨w, u, hattr, hdone⟩ := Linking.bind_eq_ok.mp hwritten
    cases hdone
    obtain ⟨hvalid, hle, hpost⟩ := yields_attr _ _ _ _ _ hs hattr
    refine ⟨hvalid, hle, .inr ⟨w, _, rfl, hpost t hvalid (Growing.refl t), ?_⟩⟩
    rw [rows_attr hattr]
    refine (reads_u2 count).bind (reads_times ?_ (Linking.toNat_of_count hcount))
    exact (Result.mapM_eq_ok.mp hrows).flip.imp fun w row h => reads_bootstrapRow h

/-! ## The whole class -/

section
variable {pool : Pool} {w content : Bytes} {name : String}

theorem reads_otherAttribute (hattr : IsAttr pool w name content)
    (hname : name ≠ AttributeName.bootstrapMethods) :
    Reads (readBootstrapAttribute pool) w [] := by
  obtain ⟨index, rfl, hindex, hlength⟩ := hattr
  refine (reads_u2 index).bind ((reads_u4 _).bind ?_)
  refine (reads_take_of_length hlength.symm).bindDone (Reads.lift hindex ?_)
  rw [if_pos hname]
  exact Reads.pure

theorem reads_bootstrapAttribute {rows : List BootstrapRow}
    (hattr : IsAttr pool w AttributeName.bootstrapMethods content)
    (hread : Reads readBootstraps content rows) :
    Reads (readBootstrapAttribute pool) w rows := by
  obtain ⟨index, rfl, hindex, hlength⟩ := hattr
  refine (reads_u2 index).bind ((reads_u4 _).bind ?_)
  refine (reads_take_of_length hlength.symm).bindDone (Reads.lift hindex ?_)
  rw [if_neg (by simp)]
  refine Reads.lift (runOn_of_reads (hread [] [])) ?_
  simpa using Reads.pure

theorem reads_otherAttributes {σ : Type} {step : String → σ → Reader σ} {s t : σ}
    {ws : List Bytes}
    (h : Attributes pool step (fun name => name ≠ AttributeName.bootstrapMethods) s ws t) :
    List.Forall₂ (Reads (readBootstrapAttribute pool)) ws (ws.map fun _ => []) := by
  rw [List.forall₂_map_right_iff]
  induction h with
  | nil => exact .nil
  | cons hattr hallowed _ _ ih => exact .cons (reads_otherAttribute hattr hallowed) ih

/-- The bootstrap methods of a table whose other attributes have other
    names. -/
theorem reads_bootstrapTables {linker : Linker} {σ : Type} {step : String → σ → Reader σ}
    {s t : σ} {vs ws : List Bytes} {table : Bytes}
    (hothers : Attributes linker.toLinkage.pool step
      (fun name => name ≠ AttributeName.bootstrapMethods) s vs t)
    (hrows : IsBootstraps linker ws) (htable : AttributeTable.write (vs ++ ws) = .ok table) :
    Reads (do
      let tables ← times (← u2).toNat (readBootstrapAttribute linker.toLinkage.pool)
      return tables.flatten.toArray) table linker.rows := by
  obtain ⟨count, hcount, htable⟩ := Result.bind_eq_ok.mp htable
  cases htable
  have hcount := Linking.toNat_of_count hcount
  have hnone : (vs.map fun _ => ([] : List BootstrapRow)).flatten = [] := by simp
  obtain ⟨tables, htables, hflatten⟩ : ∃ tables,
      List.Forall₂ (Reads (readBootstrapAttribute linker.toLinkage.pool)) (vs ++ ws) tables ∧
        tables.flatten.toArray = linker.rows := by
    rcases hrows with ⟨rfl, hrows⟩ | ⟨w, content, rfl, hattr, hread⟩
    · refine ⟨_, by rw [List.append_nil]; exact reads_otherAttributes hothers, ?_⟩
      rw [hnone, ← hrows, Array.toArray_toList]
    · refine ⟨_, List.rel_append (reads_otherAttributes hothers)
        (.cons (reads_bootstrapAttribute hattr hread) .nil), ?_⟩
      rw [List.flatten_append, hnone]
      simp
  have hlength := htables.length_eq
  rw [← hflatten]
  exact (reads_u2 count).bind (Reads.map (reads_times htables (hcount.trans hlength)))

end

theorem attributes_of_class {record : ClassRecord} {linkage : Linkage} {spelled : Bool}
    {ws₁ ws₂ ws₃ : List Bytes}
    (hfile : IsOptional linkage.pool AttributeName.sourceFile
      (fun content file => ∃ index, content = Bytes.u2 index ∧ linkage.pool.utf8 index = .ok file)
      ws₁ record.sourceFile)
    (hextension : IsOptional linkage.pool AttributeName.sourceDebugExtension
      (fun content extension => content = extension) ws₂ record.sourceDebugExtension)
    (hshared : Attributes linkage.pool (readClassAttribute linkage { expandFrames := spelled })
      (fun name => name ≠ AttributeName.bootstrapMethods)
      ⟨record.sourceFile, record.sourceDebugExtension, .empty⟩ ws₃
      ⟨record.sourceFile, record.sourceDebugExtension,
        ⟨record.annotations, record.attributes.reverse⟩⟩) :
    Attributes linkage.pool (readClassAttribute linkage { expandFrames := spelled })
      (fun name => name ≠ AttributeName.bootstrapMethods) ⟨none, none, .empty⟩ (ws₁ ++ ws₂ ++ ws₃)
      ⟨record.sourceFile, record.sourceDebugExtension,
        ⟨record.annotations, record.attributes.reverse⟩⟩ := by
  have hfirst : Attributes linkage.pool (readClassAttribute linkage { expandFrames := spelled })
      (fun name => name ≠ AttributeName.bootstrapMethods) ⟨none, none, .empty⟩ ws₁
      ⟨record.sourceFile, none, .empty⟩ := by
    refine hfile.attributes (by decide) (fun file => ClassParts.mk file none .empty) ?_
    rintro file - content ⟨index, rfl, hindex⟩
    exact (reads_u2 index).thenMap hindex [] []
  have hsecond : Attributes linkage.pool (readClassAttribute linkage { expandFrames := spelled })
      (fun name => name ≠ AttributeName.bootstrapMethods) ⟨record.sourceFile, none, .empty⟩ ws₂
      ⟨record.sourceFile, record.sourceDebugExtension, .empty⟩ := by
    refine hextension.attributes (by decide)
      (fun extension => ClassParts.mk record.sourceFile extension .empty) ?_
    rintro extension - content rfl
    exact ReadsAt.map (reads_takeRest [] content)
  exact (hfirst.append hsecond).append hshared

theorem attributes_of_bootstraps {linker : Linker} {spelled : Bool} {parts : ClassParts}
    {ws : List Bytes} (h : IsBootstraps linker ws) :
    Attributes linker.toLinkage.pool
      (readClassAttribute linker.toLinkage { expandFrames := spelled }) (fun _ => True)
      parts ws parts := by
  rcases h with ⟨rfl, -⟩ | ⟨w, content, rfl, hattr, -⟩
  · exact .nil _
  · exact .single hattr trivial (ReadsAt.map (reads_skipRest [] content))

theorem length_flatten_of_index {α : Type} {P : UInt16 → α → Prop} {ws : List Bytes}
    {as : List α} (h : List.Forall₂ (fun w a => ∃ index, w = Bytes.u2 index ∧ P index a) ws as) :
    ws.flatten.length = 2 * ws.length := by
  induction h with
  | nil => rfl
  | cons hw _ ih =>
    obtain ⟨index, rfl, -⟩ := hw
    simp only [List.flatten_cons, List.length_append, List.length_cons, ih, Bytes.u2,
      Bytes.length_ofNat]
    omega

theorem reads_skipMembers {α : Type} {P : Bytes → α → Prop} {ws : List Bytes} {members : List α}
    {n : Nat} (h : List.Forall₂ (fun w member => P w member ∧ Reads skipMember w ()) ws members)
    (hn : n = members.length) :
    Reads (times n skipMember) ws.flatten (members.map fun _ => ()) := by
  refine reads_times (List.forall₂_map_right_iff.mpr (h.imp fun _ _ h => h.2)) ?_
  rw [hn, List.length_map]

theorem reads_skipToAttributes {interfaces fields methods : List Bytes} {us vs : List Unit}
    {interfaceCount fieldCount methodCount : UInt16} (access name superName : UInt16)
    (hinterfaces : interfaces.flatten.length = 2 * interfaceCount.toNat)
    (hfields : Reads (times fieldCount.toNat skipMember) fields.flatten us)
    (hmethods : Reads (times methodCount.toNat skipMember) methods.flatten vs) :
    Reads skipToAttributes (Bytes.u2 access ++ Bytes.u2 name ++ Bytes.u2 superName ++
      Bytes.u2 interfaceCount ++ interfaces.flatten ++ Bytes.u2 fieldCount ++ fields.flatten ++
        Bytes.u2 methodCount ++ methods.flatten) () := by
  have hsix : (Bytes.u2 access ++ Bytes.u2 name ++ Bytes.u2 superName).length = 6 := by
    simp [Bytes.u2]
  simp only [List.append_assoc] at hsix ⊢
  rw [← List.append_assoc (Bytes.u2 name), ← List.append_assoc (Bytes.u2 access)]
  refine (reads_skip hsix).bind ((reads_u2 interfaceCount).bind ?_)
  refine (reads_skip hinterfaces).bind ((reads_u2 fieldCount).bind (hfields.bind ?_))
  exact (reads_u2 methodCount).bind hmethods.map

/-- **A class that was written is read as it was**, the bodies of its methods as
    the normal forms that they are read as, and so are its bootstrap
    methods. -/
theorem ends_writeClass {writeBody : MethodRecord → Code → Linking Bytes} (spelled : Bool)
    {normal : MethodRecord → Code → Code} {record : ClassRecord}
    (hreadable : record.PartsReadable)
    (hbody : ∀ method ∈ record.methods, ∀ code ∈ method.code,
      Yields (writeBody method code) fun linker w => ∀ reading,
        reading.initial record.name = method.initial record.name → ReadsAt [] []
          (Body.read linker.toLinkage { expandFrames := spelled } record.name reading) w
          (normal method code)) :
    Ends (writeClass writeBody record) fun linker w =>
      Reads (readClass linker.toLinkage { expandFrames := spelled } record.minorVersion
          record.majorVersion) w (record.mapCode normal) ∧
        Reads (findBootstraps linker.toLinkage.pool) w linker.rows := by
  refine Ends.bind (Pool.yields_classRef record.name).lift fun name => ?_
  refine Ends.bind (Pool.yields_classRef? record.superName).lift fun superName => ?_
  refine Ends.bind (Yields.count _ _) fun interfaceCount => ?_
  have hinterface : ∀ interface ∈ record.interfaces,
      Yields (Bytes.u2 <$> (liftM (Pool.Intern.classRef interface) : Linking Pool.Index))
        fun linker w => ∃ index, w = Bytes.u2 index ∧
          linker.toLinkage.pool.className index = .ok interface := fun interface _ =>
    (Pool.yields_classRef interface).lift.bind fun index => .pure fun _ _ h => ⟨index, rfl, h⟩
  refine Ends.bind (Yields.each hinterface) fun interfaces => ?_
  refine Ends.bind (Yields.count _ _) fun fieldCount => ?_
  refine Ends.bind (Yields.each fun field hfield =>
    yields_writeField record.name (hreadable.fields field hfield)) fun fields => ?_
  refine Ends.bind (Yields.count _ _) fun methodCount => ?_
  refine Ends.bind (Yields.each fun method hmethod =>
    yields_writeMethod spelled record.name (hreadable.methods method hmethod)
      (hbody method hmethod))
      fun methods => ?_
  have hfile : ∀ file ∈ record.sourceFile,
      Yields (Bytes.u2 <$> (liftM (Pool.Intern.utf8 file) : Linking Pool.Index))
        fun linker w => ∃ index, w = Bytes.u2 index ∧
          linker.toLinkage.pool.utf8 index = .ok file := fun file _ =>
    (Pool.yields_utf8 file).lift.bind fun index => .pure fun _ _ h => ⟨index, rfl, h⟩
  have hextension : ∀ extension ∈ record.sourceDebugExtension,
      Yields (pure extension : Linking Bytes) fun _ w => w = extension :=
    fun _ _ => .pure fun _ _ => rfl
  refine Ends.bind (yields_optional _ hfile) fun ws₁ => ?_
  refine Ends.bind (yields_optional _ hextension) fun ws₂ => ?_
  refine Ends.bind (yields_writeShared hreadable.annotations hreadable.nests) fun ws₃ => ?_
  refine Ends.bindStill ends_writeBootstraps fun ws₄ linker w t hrun => ?_
  obtain ⟨table, _, hlifted, hdone⟩ := Linking.bind_eq_ok.mp hrun
  obtain ⟨htable, rfl⟩ := Linking.liftM_eq_ok.mp hlifted
  cases hdone
  refine ⟨rfl, fun hbootstraps hshared hextension hfile hmethods hmethodCount hfields hfieldCount
    hinterfaces hinterfaceCount hsuper hname => ?_⟩
  have hattributes := attributes_of_class hfile hextension
    (hshared (classLevel t.toLinkage spelled _ _) hreadable.stands)
  constructor
  · have htables := (hattributes.mono fun _ _ => trivial).append
      (attributes_of_bootstraps hbootstraps)
    have hinterfacesRead : Reads (readClassNames t.toLinkage.pool)
        (Bytes.u2 interfaceCount ++ interfaces.flatten) record.interfaces := by
      refine (reads_u2 interfaceCount).bind (reads_times (hinterfaces.imp ?_) hinterfaceCount)
      rintro w interface ⟨index, rfl, hindex⟩
      exact (reads_u2 index).thenOk hindex
    have hparts := (reads_table htables htable).map (g := fun (parts : ClassParts) =>
      ClassRecord.mk record.minorVersion record.majorVersion record.access record.name
        record.superName record.interfaces (record.fields.map FieldRecord.normalize)
        (record.methods.map (MethodRecord.mapCode normal)) parts.sourceFile
        parts.sourceDebugExtension parts.shared.annotations parts.shared.attributes)
    simp only [Shared.attributes, List.reverse_reverse, List.append_assoc] at hparts ⊢
    refine (reads_u2 _).bind (Reads.consIndex hname (Reads.consIndex hsuper ?_))
    rw [← List.append_assoc (Bytes.u2 interfaceCount)]
    refine hinterfacesRead.bind ((reads_u2 fieldCount).bind ?_)
    refine (reads_times (List.forall₂_map_right_iff.mpr (hfields.imp fun _ _ h => h.1))
      (by rw [List.length_map, hfieldCount])).bind ((reads_u2 methodCount).bind ?_)
    refine (reads_times (List.forall₂_map_right_iff.mpr (hmethods.imp fun _ _ h => h.1))
      (by rw [List.length_map, hmethodCount])).bind hparts
  · have hlength : interfaces.flatten.length = 2 * interfaceCount.toNat := by
      rw [hinterfaceCount, ← hinterfaces.length_eq]
      exact length_flatten_of_index hinterfaces
    exact (reads_skipToAttributes record.access.bits name superName hlength
      (reads_skipMembers hfields hfieldCount) (reads_skipMembers hmethods hmethodCount)).bind
        (reads_bootstrapTables hattributes hbootstraps htable)

end ClassFile

end JvmClass
