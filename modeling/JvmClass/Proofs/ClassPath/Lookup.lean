/-
  The source that decides.

  * `Source.answers` says whether a source says anything but that it does not
    have a class; `ClassPath.read_eq` and `load_eq`: the first source that answers
    decides, as if there were no other;
  * `ClassPath.load_eq_none`, `load_eq_some` and `load_eq_error`: when a class is not
    there, is found, or fails to load;
  * `ClassPath.load_append`: one class path behind another;
  * `Source.FailsFor`: failures that are about the class that was asked for, as
    those of all places that a class path can be opened at
    (`Place.failsFor_source`);
  * `ClassPath.load_decided` puts this together.
-/
import JvmClass.ClassPath.Entries
import JvmClass.Proofs.Result

namespace JvmClass

namespace Source

variable {source : Source} {id : Identifier}

/-- Whether a source says anything but that it does not have a class. -/
def answers (source : Source) (id : Identifier) : Bool :=
  match source.read id with
  | .error (.notFound _) => false
  | _ => true

theorem answers_eq_false :
    source.answers id = false ↔ ∃ missing, source.read id = .error (.notFound missing) := by
  unfold answers
  split
  next missing h => exact ⟨fun _ => ⟨missing, h⟩, fun _ => rfl⟩
  next h => exact ⟨nofun, fun ⟨missing, hmissing⟩ => absurd hmissing (h missing)⟩

theorem answers_of_read {bytes : Bytes} (h : source.read id = .ok bytes) :
    source.answers id = true := by
  rw [answers, h]

/-- A failure of a source is about the class that was asked for. -/
def FailsFor (source : Source) (id : Identifier) : Prop :=
  ∀ failed cause, source.read id = .error (.failed failed cause) → failed = id

theorem failsFor_directory (root : Node) : (directory root).FailsFor id := by
  intro failed cause h
  unfold directory at h
  dsimp only at h
  split at h
  next => cases h; rfl
  next => split at h <;> cases h; rfl

theorem failsFor_below (workspace : Workspace) (path : String) :
    (below workspace path).FailsFor id := by
  intro failed cause h
  unfold below at h
  dsimp only at h
  split at h <;> cases h
  rfl

theorem failsFor_jar (archive : Jar) (bytes : Bytes) : (jar archive bytes).FailsFor id := by
  intro failed cause h
  unfold jar at h
  dsimp only at h
  split at h <;> cases h
  rfl

end Source

/-- **Places fail for what they are asked.** -/
theorem Place.failsFor_source (workspace : Workspace) (id : Identifier) :
    (place : Place) → (place.source workspace).FailsFor id
  | directory path => Source.failsFor_below workspace path
  | archive path jar => Source.failsFor_jar jar ((workspace.read path).toOption.getD [])

namespace ClassPath

variable {path : ClassPath} {id : Identifier}

/-- **The first source that answers decides** what is read. -/
theorem read_eq (path : ClassPath) (id : Identifier) :
    path.read id = match path.find? (·.answers id) with
      | some source => source.read id
      | none => .error (.notFound id) := by
  induction path with
  | nil => rfl
  | cons source path ih =>
    rw [List.find?_cons, read]
    split
    next missing hmissing =>
      rw [Source.answers_eq_false.mpr ⟨missing, hmissing⟩]
      exact ih
    next hother =>
      have hanswers : source.answers id = true := by
        rw [← Bool.not_eq_false, Source.answers_eq_false]
        exact fun ⟨missing, hmissing⟩ => hother missing hmissing
      rw [hanswers]

/-- Only what is read matters. -/
theorem load_congr {other : ClassPath} (h : path.read id = other.read id) :
    path.load id = other.load id := by
  rw [load, load, h]

theorem answers_of_find? {source : Source} (h : path.find? (·.answers id) = some source) :
    source.answers id = true :=
  List.find?_some (p := fun source : Source => source.answers id) h

/-- A source that decides does so as if there were no other. -/
theorem load_of_find? {source : Source} (h : path.find? (·.answers id) = some source) :
    path.load id = load [source] id := by
  have halone : List.find? (·.answers id) [source] = some source := by
    rw [List.find?_singleton, if_pos (answers_of_find? h)]
  refine load_congr ?_
  rw [read_eq, read_eq, h, halone]

theorem load_of_find?_eq_none (h : path.find? (·.answers id) = none) : path.load id = .ok none := by
  rw [load, read_eq, h]

theorem decodeAs_eq_ok {bytes : Bytes} {record : ClassRecord} :
    decodeAs id bytes = .ok record ↔
      ClassFile.decode bytes {} = .ok record ∧ record.name = id.internalName := by
  unfold decodeAs
  cases ClassFile.decode bytes {} with
  | error cause => simp
  | ok declared =>
    dsimp only
    split
    next hname =>
      constructor
      · rintro ⟨⟩
        exact ⟨rfl, hname⟩
      · rintro ⟨⟨⟩, -⟩
        rfl
    next hname =>
      refine ⟨nofun, ?_⟩
      rintro ⟨⟨⟩, h⟩
      exact absurd h hname

/-- Bytes that are not the class file of a class are a failure for that
    class. -/
theorem failed_of_decodeAs {bytes : Bytes} {e : LoadError} (h : decodeAs id bytes = .error e) :
    ∃ cause, e = .failed id cause := by
  unfold decodeAs at h
  split at h
  next cause => cases h; exact ⟨_, rfl⟩
  next record =>
    split at h
    next => cases h
    next => cases h; exact ⟨_, rfl⟩

theorem load_singleton {source : Source} (h : source.answers id = true) :
    load [source] id = source.read id >>= fun bytes => some <$> decodeAs id bytes := by
  rw [load, read_eq, List.find?_singleton, if_pos h]
  dsimp only
  cases hread : source.read id with
  | ok bytes => rfl
  | error e =>
    cases e with
    | notFound missing =>
      rw [Source.answers_eq_false.mpr ⟨missing, hread⟩] at h
      exact nomatch h
    | failed failed cause => rfl

/-- Either no source answers, or the first one that does decides. -/
theorem load_cases (path : ClassPath) (id : Identifier) :
    (path.find? (·.answers id) = none ∧ path.load id = .ok none) ∨
      ∃ source, path.find? (·.answers id) = some source ∧
        path.load id = source.read id >>= fun bytes => some <$> decodeAs id bytes := by
  cases hfind : path.find? (·.answers id) with
  | none => exact .inl ⟨rfl, load_of_find?_eq_none hfind⟩
  | some source =>
    exact .inr ⟨source, rfl, (load_of_find? hfind).trans (load_singleton (answers_of_find? hfind))⟩

theorem load_eq_none_iff_find? : path.load id = .ok none ↔ path.find? (·.answers id) = none := by
  rcases load_cases path id with ⟨hfind, hload⟩ | ⟨source, hfind, hload⟩
  · exact iff_of_true hload hfind
  · refine iff_of_false (fun hnone => ?_) fun hnone => nomatch hfind.symm.trans hnone
    rw [hload, Result.bind_eq_ok] at hnone
    obtain ⟨bytes, -, hdecode⟩ := hnone
    obtain ⟨record, -, hrecord⟩ := Result.map_eq_ok.mp hdecode
    exact nomatch hrecord

/-- **A class is not there** exactly if every source says so. -/
theorem load_eq_none : path.load id = .ok none ↔
    ∀ source ∈ path, ∃ missing, source.read id = .error (.notFound missing) := by
  rw [load_eq_none_iff_find?, List.find?_eq_none]
  simp only [Bool.not_eq_true, Source.answers_eq_false]

theorem read_eq_ok {bytes : Bytes} : path.read id = .ok bytes ↔
    ∃ source, path.find? (·.answers id) = some source ∧ source.read id = .ok bytes := by
  rw [read_eq]
  cases path.find? (·.answers id) <;> simp

theorem load_eq_some {record : ClassRecord} :
    path.load id = .ok (some record) ↔ ∃ bytes, path.read id = .ok bytes ∧
      ClassFile.decode bytes {} = .ok record ∧ record.name = id.internalName := by
  unfold load
  cases path.read id with
  | error e => cases e <;> simp
  | ok bytes => simp [Result.map_eq_ok, decodeAs_eq_ok]

/-- **Loading fails** exactly if the first source that answers fails, or does
    not have a class file of the class. -/
theorem load_eq_error {e : LoadError} : path.load id = .error e ↔
    ∃ source, path.find? (·.answers id) = some source ∧
      (source.read id = .error e ∨ ∃ bytes, source.read id = .ok bytes ∧
        decodeAs id bytes = .error e) := by
  rcases load_cases path id with ⟨hfind, hload⟩ | ⟨source, hfind, hload⟩
  · rw [hfind, hload]
    simp
  · rw [hfind, hload, Result.bind_eq_error]
    simp only [Result.map_eq_error]
    simp

/-- **What loading fails with**: for the class, if the source that decides has no
    class file of it; or else with what that source fails with. -/
theorem load_eq_error_iff {e : LoadError} : path.load id = .error e ↔
    ∃ source, path.find? (·.answers id) = some source ∧
      ((∃ bytes cause, source.read id = .ok bytes ∧ decodeAs id bytes = .error e ∧
          e = .failed id cause) ∨
        ∃ failed cause, source.read id = .error e ∧ e = .failed failed cause) := by
  rw [load_eq_error]
  constructor
  · rintro ⟨source, hfind, hread | ⟨bytes, hread, hdecode⟩⟩
    · refine ⟨source, hfind, .inr ?_⟩
      cases e with
      | notFound missing =>
        have hsilent : source.answers id = false := Source.answers_eq_false.mpr ⟨missing, hread⟩
        exact nomatch (answers_of_find? hfind).symm.trans hsilent
      | failed failed cause => exact ⟨failed, cause, hread, rfl⟩
    · obtain ⟨cause, rfl⟩ := failed_of_decodeAs hdecode
      exact ⟨source, hfind, .inl ⟨bytes, cause, hread, hdecode, rfl⟩⟩
  · rintro ⟨source, hfind, ⟨bytes, _, hread, hdecode, -⟩ | ⟨_, _, hread, -⟩⟩
    · exact ⟨source, hfind, .inr ⟨bytes, hread, hdecode⟩⟩
    · exact ⟨source, hfind, .inl hread⟩

/-- Where the source that decides fails for what it is asked, loading fails for
    the class. -/
theorem failed_of_load
    (hpath : ∀ source, path.find? (·.answers id) = some source → source.FailsFor id) {e : LoadError}
    (h : path.load id = .error e) : ∃ cause, e = .failed id cause := by
  obtain ⟨source, hfind, ⟨_, cause, -, -, rfl⟩ | ⟨failed, cause, hread, rfl⟩⟩ :=
    load_eq_error_iff.mp h
  · exact ⟨cause, rfl⟩
  · obtain rfl := hpath source hfind failed cause hread
    exact ⟨cause, rfl⟩

/-- **One class path behind another** is asked where the first one has nothing
    to say. -/
theorem load_append (path other : ClassPath) (id : Identifier) :
    (path.load id = .ok none → load (path ++ other) id = other.load id) ∧
      (path.load id ≠ .ok none → load (path ++ other) id = path.load id) := by
  have hfind : (path ++ other).find? (·.answers id) =
      (path.find? (·.answers id)).or (other.find? (·.answers id)) := List.find?_append
  rw [Ne, load_eq_none_iff_find?]
  constructor
  · intro hnone
    rw [hnone, Option.none_or] at hfind
    refine load_congr ?_
    rw [read_eq, read_eq, hfind]
  · intro hsome
    obtain ⟨source, hsource⟩ := Option.ne_none_iff_exists'.mp hsome
    rw [hsource, Option.some_or] at hfind
    rw [load_of_find? hfind, load_of_find? hsource]

/-- **The first source that answers decides.**  A class is not there if every
    source says so; it is found if the first source that answers has a class file
    which declares it; all else is a failure: one for that class if the source has
    another class file in its place, and otherwise the failure of the source.  The
    places of an opened class path fail for the class that they are asked for.
    Sources behind the one that decides do not matter, and a class path behind
    another is asked where that one has no such class. -/
theorem load_decided (path : ClassPath) (id : Identifier) :
    (path.load id = .ok none ↔
      ∀ source ∈ path, ∃ missing, source.read id = .error (.notFound missing)) ∧
    (∀ record, path.load id = .ok (some record) ↔
      ∃ source bytes, path.find? (·.answers id) = some source ∧ source.read id = .ok bytes ∧
        ClassFile.decode bytes {} = .ok record ∧ record.name = id.internalName) ∧
    (∀ e, path.load id = .error e ↔ ∃ source, path.find? (·.answers id) = some source ∧
      ((∃ bytes cause, source.read id = .ok bytes ∧ decodeAs id bytes = .error e ∧
          e = .failed id cause) ∨
        ∃ failed cause, source.read id = .error e ∧ e = .failed failed cause)) ∧
    ((∀ source, path.find? (·.answers id) = some source → source.FailsFor id) →
      ∀ e, path.load id = .error e → ∃ cause, e = .failed id cause) ∧
    (∀ workspace places, path = .ofPlaces workspace places →
      ∀ e, path.load id = .error e → ∃ cause, e = .failed id cause) ∧
    (∀ source, path.find? (·.answers id) = some source → path.load id = load [source] id) ∧
    ∀ other : ClassPath,
      (path.load id = .ok none → load (path ++ other) id = other.load id) ∧
      (path.load id ≠ .ok none → load (path ++ other) id = path.load id) := by
  refine ⟨load_eq_none, fun record => ?_, fun e => load_eq_error_iff, fun hpath e => failed_of_load hpath,
    ?_, fun source => load_of_find?, fun other => load_append path other id⟩
  · rw [load_eq_some]
    simp only [read_eq_ok]
    constructor
    · rintro ⟨bytes, ⟨source, hfind, hread⟩, hrecord⟩
      exact ⟨source, bytes, hfind, hread, hrecord⟩
    · rintro ⟨source, bytes, hfind, hread, hrecord⟩
      exact ⟨bytes, ⟨source, hfind, hread⟩, hrecord⟩
  · rintro workspace places rfl e
    refine failed_of_load fun source hfind => ?_
    obtain ⟨place, -, rfl⟩ := List.mem_map.mp (List.mem_of_find?_eq_some hfind)
    exact place.failsFor_source workspace id

/-- A source that fails for another class than the one that it is asked for. -/
def evasive : Source where
  read _ := .error (.failed ⟨"", "B"⟩ .refused)
  capacity := 0

/-- A class path may fail for another class than the one that is loaded. -/
theorem load_evasive :
    ¬ (∀ source ∈ [evasive], ∃ missing, source.read ⟨"", "A"⟩ = .error (.notFound missing)) ∧
      (∀ bytes, evasive.read ⟨"", "A"⟩ ≠ .ok bytes) ∧
      ¬ ∃ cause, load [evasive] ⟨"", "A"⟩ = .error (.failed ⟨"", "A"⟩ cause) := by
  have hload : load [evasive] ⟨"", "A"⟩ = .error (.failed ⟨"", "B"⟩ .refused) := rfl
  refine ⟨fun h => ?_, nofun, ?_⟩
  · obtain ⟨missing, hmissing⟩ := h evasive (.head _)
    exact nomatch hmissing
  · rintro ⟨cause, hcause⟩
    exact absurd (hload.symm.trans hcause) (by simp)

/-- A class file that says no more than the names of the class and of its super
    class, which have fewer than 256 letters. -/
def plainFile (name superName : String) : Bytes :=
  let named (text : String) : Bytes :=
    [1, 0, UInt8.ofNat text.length] ++ text.toList.map fun c => UInt8.ofNat c.toNat
  [0xCA, 0xFE, 0xBA, 0xBE, 0, 0, 0, 52, 0, 5] ++ named name ++ [7, 0, 1] ++ named superName ++
    [7, 0, 3, 0, 0x21, 0, 2, 0, 4, 0, 0, 0, 0, 0, 0, 0, 0]

/-- An empty jar; a directory with a class, whose class file is also in the
    place of another one; and both classes in memory, where the first cannot be
    read. -/
def shadowing : ClassPath :=
  [.jar ⟨⟨[], fun _ _ => .error .noEntry, nofun⟩, ""⟩ [],
    .directory (.directory
      [("B.class", .file (plainFile "B" "P")), ("C.class", .file (plainFile "B" "P"))]),
    .memory [("B.class", none), ("C.class", some (plainFile "C" "P"))]]

/-- A class is found in front of a source that fails for it; a class file of
    another class hides one that is right; and of a class that is nowhere, a class
    path behind is asked. -/
theorem load_decided_shadowing :
    (∃ record, shadowing.load ⟨"", "B"⟩ = .ok (some record) ∧ record.superName = some "P") ∧
      (∃ cause, shadowing.load ⟨"", "C"⟩ = .error (.failed ⟨"", "C"⟩ cause)) ∧
      shadowing.load ⟨"", "D"⟩ = .ok none ∧
      (∃ cause, load (shadowing ++ [.memory [("D.class", none)]]) ⟨"", "D"⟩ =
        .error (.failed ⟨"", "D"⟩ cause)) := by
  obtain ⟨-, hfound, -, -, -, -, -⟩ := load_decided shadowing ⟨"", "B"⟩
  obtain ⟨-, -, -, hfails, -, -, -⟩ := load_decided shadowing ⟨"", "C"⟩
  obtain ⟨hmissing, -, -, -, -, -, happend⟩ := load_decided shadowing ⟨"", "D"⟩
  have hnone : shadowing.load ⟨"", "D"⟩ = .ok none := by
    refine hmissing.mpr fun source hmem => ?_
    simp only [shadowing, List.mem_cons, List.not_mem_nil, or_false] at hmem
    rcases hmem with rfl | rfl | rfl <;> exact ⟨_, rfl⟩
  refine ⟨?_, ?_, hnone, ⟨.refused, ((happend _).1 hnone).trans rfl⟩⟩
  · obtain ⟨record, hdecode, hname, hsuper⟩ := Result.exists_ok
      (x := ClassFile.decode (plainFile "B" "P") {})
      (p := fun record => record.name = "B" ∧ record.superName = some "P") (by decide +kernel)
    exact ⟨record, (hfound record).mpr ⟨_, _, rfl, rfl, hdecode, hname⟩, hsuper⟩
  · have hfailed : (shadowing.load ⟨"", "C"⟩).toOption.isNone = true := by decide +kernel
    cases hload : shadowing.load ⟨"", "C"⟩ with
    | ok record => rw [hload] at hfailed; exact nomatch hfailed
    | error e =>
      have hdecides (source : Source) (hfind : shadowing.find? (·.answers ⟨"", "C"⟩) = some source) :
          source.FailsFor ⟨"", "C"⟩ := by
        obtain rfl : Source.directory _ = source := Option.some.inj hfind
        exact Source.failsFor_directory _
      obtain ⟨cause, rfl⟩ := hfails hdecides e hload
      exact ⟨cause, rfl⟩

end ClassPath

end JvmClass
