/-
  What is left behind by a command that writes classes.

  * `Command.output?`: where a command writes classes, if it does;
  * `Leaves`: the class files that a command makes, and the files that there are
    after the last of them;
  * `files_of_run`: the files after a command that writes classes, and what it
    takes for all of its classes to be there and to be below the directory
    asked for.
-/
import JvmClass.Archive.Zip
import JvmClass.Proofs.Tool.Inputs
import JvmClass.Proofs.Tool.Sessions

namespace JvmClass.Tool

variable {unzip : Unzip} {workspace : Workspace} {environment : Environment} {arguments : Arguments}

/-! ## Commands that write classes -/

/-- Where a command writes classes, if it does. -/
def Command.output? : Command → Option String
  | .strip _ output => some output
  | .roundtrip _ _ _ output => output
  | _ => none

/-- The class files that a command makes of its inputs, and the workspace that it
    leaves behind.  Super classes are looked up in the workspace that there is by
    then, unless they were before. -/
inductive Leaves (unzip : Unzip) (workspace : Workspace) (environment : Environment) :
    Arguments → List (Input × Bytes) → Workspace → Prop
  | strip {classPath inputs output classes last}
    (h : Makes output (fun _ input bytes => ClassFile.stripDebug input.bytes = .ok bytes)
      (fun session _ => session.known) ⟨workspace, []⟩ classes last) :
    Leaves unzip workspace environment ⟨classPath, .strip inputs output⟩ classes last
  | roundtrip {classPath inputs decode encode output opened classes last}
    (hplaces : places unzip workspace environment classPath inputs = .ok opened)
    (h : Makes output
      (fun session input bytes =>
        reencode decode encode (session.hierarchy opened) input = .ok bytes)
      (fun session input => session.learn opened
        (reencodeQuestions decode encode (session.hierarchy opened) input))
      ⟨workspace, []⟩ classes last) :
    Leaves unzip workspace environment ⟨classPath, .roundtrip inputs decode encode (some output)⟩
      classes last

theorem stageMakes_strip (output : String) :
    StageMakes output (fun _ input bytes => ClassFile.stripDebug input.bytes = .ok bytes)
      (fun session _ => session.known) fun input => .always (strip output input) := by
  intro input session
  dsimp only [Stage.always, strip]
  cases ClassFile.stripDebug input.bytes with
  | error cause => exact .inl ⟨_, _, rfl⟩
  | ok bytes => exact .inr ⟨[], bytes, rfl, rfl⟩

theorem stageMakes_roundtrip (decode : DecodeOptions) (encode : EncodeOptions)
    (places : List Place) (output : String) :
    StageMakes output
      (fun session input bytes =>
        reencode decode encode (session.hierarchy places) input = .ok bytes)
      (fun session input => session.learn places
        (reencodeQuestions decode encode (session.hierarchy places) input))
      (roundtrip decode encode places (some output)) := by
  intro input session
  rw [roundtrip]
  dsimp only
  cases reencode decode encode (session.hierarchy places) input with
  | error failure => exact .inl ⟨failure, _, rfl⟩
  | ok bytes =>
    let line := s!"{input.name}: {input.bytes.length} -> {bytes.length} bytes"
    exact .inr ⟨[line], bytes, rfl, rfl⟩

/-- Stages for all inputs are carried out to the end if the inputs are found, and
    a class file of each of them is made. -/
theorem makes_of_forEach {output : String} {make : Session → Input → Bytes → Prop}
    {learn : Session → Input → Known} {stage : Input → Stage}
    (hstage : StageMakes output make learn stage) {inputs : Except Failure (List Input)}
    {session : Session} {printed : String} {last : Workspace}
    (h : ((performAll .kept session (forEach inputs stage)).run printed).1 = (last, none)) :
    ∃ classes : List (Input × Bytes), inputs = .ok (classes.map Prod.fst) ∧
      Makes output make learn session classes last := by
  cases inputs with
  | error failure => exact nomatch (Prod.mk.inj h).2
  | ok inputs =>
    obtain ⟨classes, rfl, hclasses⟩ := makes_of_performAll hstage h
    exact ⟨classes, rfl, hclasses⟩

/-- **A command that writes classes makes one of each of its inputs**, unless it
    fails. -/
theorem leaves_of_run {output : String} (houtput : arguments.command.output? = some output)
    (hrun : (run unzip workspace environment arguments).failure = none) :
    ∃ classes : List (Input × Bytes),
      Input.collect unzip workspace arguments.command.inputs = .ok (classes.map Prod.fst) ∧
      Leaves unzip workspace environment arguments classes
        (run unzip workspace environment arguments).workspace := by
  have hperform : ((performAll .kept ⟨workspace, []⟩
      (script unzip workspace environment arguments)).run "").1 =
        ((run unzip workspace environment arguments).workspace, none) := by
    rw [← hrun]
    rfl
  obtain ⟨classPath, command⟩ := arguments
  cases command with
  | strip inputs directory =>
    obtain rfl := Option.some.inj houtput
    obtain ⟨classes, hcollect, hmakes⟩ := makes_of_forEach (stageMakes_strip directory) hperform
    exact ⟨classes, hcollect, .strip hmakes⟩
  | roundtrip inputs decode encode directory =>
    obtain rfl : directory = some output := houtput
    dsimp only [script] at hperform
    split at hperform
    next => exact nomatch (Prod.mk.inj hperform).2
    next opened hplaces =>
      obtain ⟨classes, hcollect, hmakes⟩ :=
        makes_of_forEach (stageMakes_roundtrip decode encode opened output) hperform
      exact ⟨classes, hcollect, .roundtrip hplaces hmakes⟩
  | _ => exact nomatch houtput

theorem Leaves.writes {output : String} (houtput : arguments.command.output? = some output)
    {classes : List (Input × Bytes)} {last : Workspace}
    (h : Leaves unzip workspace environment arguments classes last) :
    Workspace.Writes (classes.map fun c => (placeOf workspace output c.1, c.2)) workspace last := by
  cases h with
  | strip h | roundtrip _ h =>
    obtain rfl := Option.some.inj houtput
    exact h.writes

theorem Leaves.unique {classes : List (Input × Bytes)} {last : Workspace}
    (h : Leaves unzip workspace environment arguments classes last) :
    ∀ c ∈ classes, ∀ d ∈ classes, c.1.bytes = d.1.bytes → c.2 = d.2 := by
  cases h with
  | strip h => exact h.unique settled_strip
  | roundtrip _ h => exact h.unique (settled_reencode _ _ _)

/-! ## The files afterwards -/

/-- **What a command that writes classes leaves behind**, if it does not fail.

    It makes a class file of each of its inputs, in order, and writes these and
    nothing else.  Equal inputs give equal class files, and all of them are there
    afterwards exactly if no two that differ are written to one place.  A class
    whose name only goes down is below the directory asked for, at a place of its
    own among such names; only an archive can hold a class with another name. -/
theorem files_of_run {output : String} (houtput : arguments.command.output? = some output)
    (hrun : (run unzip workspace environment arguments).failure = none) :
    ∃ classes : List (Input × Bytes),
      Input.collect unzip workspace arguments.command.inputs = .ok (classes.map Prod.fst) ∧
      Leaves unzip workspace environment arguments classes
        (run unzip workspace environment arguments).workspace ∧
      Workspace.Writes (classes.map fun c => (placeOf workspace output c.1, c.2)) workspace
        (run unzip workspace environment arguments).workspace ∧
      (∀ c ∈ classes, ∀ d ∈ classes, c.1.bytes = d.1.bytes → c.2 = d.2) ∧
      ((∀ c ∈ classes, (run unzip workspace environment arguments).workspace.root.fileAt
          (placeOf workspace output c.1) = some c.2) ↔
        ∀ c ∈ classes, ∀ d ∈ classes,
          placeOf workspace output c.1 = placeOf workspace output d.1 → c.2 = d.2) ∧
      (∀ c ∈ classes, Path.GoesDown c.1.name →
        placeOf workspace output c.1 =
          Path.names workspace.here output ++ Path.steps c.1.name ∧
        ∀ d ∈ classes, Path.GoesDown d.1.name →
          placeOf workspace output c.1 = placeOf workspace output d.1 → c.1.name = d.1.name) ∧
      (workspace.root.Named → ∀ c ∈ classes, Path.GoesDown c.1.name ∨
        Input.Archived unzip workspace arguments.command.inputs c.1) := by
  obtain ⟨classes, hcollect, hleaves⟩ := leaves_of_run houtput hrun
  have hwrites := hleaves.writes houtput
  refine ⟨classes, hcollect, hleaves, hwrites, hleaves.unique, ?_, ?_, ?_⟩
  case refine_1 => simpa only [List.forall_mem_map] using hwrites.forall_fileAt_iff
  case refine_2 =>
    refine fun c _ hc => ⟨Path.names_join hc, fun d _ hd hplace => ?_⟩
    rw [placeOf, placeOf, Path.names_join hc, Path.names_join hd] at hplace
    exact Path.steps_injective (List.append_cancel_left hplace)
  case refine_3 =>
    intro hnamed c hc
    exact Input.goesDown_or_archived hnamed hcollect c.1 (List.mem_map_of_mem hc)

/-- An archive with one class, which is stored as `../x.class`. -/
def straying : Bytes :=
  [0x50, 0x4B, 0x03, 0x04, 0x14, 0x00, 0x00, 0x08, 0x00, 0x00, 0x00, 0x00, 0x00, 0x00,
    0x8D, 0xEF, 0x02, 0xD2, 0x01, 0x00, 0x00, 0x00, 0x01, 0x00, 0x00, 0x00, 0x0A, 0x00, 0x00, 0x00,
    0x2E, 0x2E, 0x2F, 0x78, 0x2E, 0x63, 0x6C, 0x61, 0x73, 0x73, 0x00,
    0x50, 0x4B, 0x01, 0x02, 0x14, 0x00, 0x14, 0x00, 0x00, 0x08, 0x00, 0x00, 0x00, 0x00, 0x00, 0x00,
    0x8D, 0xEF, 0x02, 0xD2, 0x01, 0x00, 0x00, 0x00, 0x01, 0x00, 0x00, 0x00, 0x0A, 0x00,
    0x00, 0x00, 0x00, 0x00, 0x00, 0x00, 0x00, 0x00, 0x00, 0x00, 0x00, 0x00, 0x00, 0x00, 0x00, 0x00,
    0x2E, 0x2E, 0x2F, 0x78, 0x2E, 0x63, 0x6C, 0x61, 0x73, 0x73,
    0x50, 0x4B, 0x05, 0x06, 0x00, 0x00, 0x00, 0x00, 0x01, 0x00, 0x01, 0x00,
    0x38, 0x00, 0x00, 0x00, 0x29, 0x00, 0x00, 0x00, 0x00, 0x00]

/-- Two directories with a class of the same name, and an archive. -/
def crowded : Workspace where
  root := .directory [("a", .directory [("A.class", .file [0])]),
    ("b", .directory [("A.class", .file [1])]), ("lib.jar", .file straying)]
  here := []

/-- Strip the classes of both directories and of the archive. -/
def strippingAll : Arguments := ⟨[], .strip ["a", "b", "lib.jar"] "out"⟩

/-- What comes of that, where archives are opened by `Archive.Zip.unzip`. -/
def crowding : Outcome := run Archive.Zip.unzip crowded default strippingAll

/-- One class is written over another, and one is written next to the
    directory asked for. -/
theorem files_of_run_crowded :
    crowding.failure = none ∧ crowded.root.Named ∧ ∃ first second third : Input × Bytes,
      Input.collect Archive.Zip.unzip crowded ["a", "b", "lib.jar"] =
        .ok [first.1, second.1, third.1] ∧
      first.2 = [0] ∧ second.2 = [1] ∧
      crowding.workspace.root.fileAt ["out", "A.class"] = some second.2 ∧
      crowding.workspace.root.fileAt ["x.class"] = some third.2 ∧
      Input.Archived Archive.Zip.unzip crowded ["a", "b", "lib.jar"] third.1 := by
  have hrun : crowding.failure = none := by decide +kernel
  have hnamed : crowded.root.Named := by decide +kernel
  obtain ⟨classes, hcollect, hleaves, hwrites, -, -, -, hnames⟩ := files_of_run rfl hrun
  obtain ⟨inputs, hinputs, hlist⟩ : ∃ inputs,
      Input.collect Archive.Zip.unzip crowded ["a", "b", "lib.jar"] = .ok inputs ∧
        inputs.map (fun input => (input.name, input.bytes)) =
          [("A.class", [0]), ("A.class", [1]), ("../x.class", [0])] :=
    Result.exists_ok (by decide +kernel)
  obtain rfl := Except.ok.inj (hinputs.symm.trans hcollect)
  rw [List.map_map] at hlist
  obtain ⟨first, rest, rfl, hfirst, hrest⟩ := List.map_eq_cons_iff.mp hlist
  obtain ⟨second, rest, rfl, hsecond, hrest⟩ := List.map_eq_cons_iff.mp hrest
  obtain ⟨third, rest, rfl, hthird, hrest⟩ := List.map_eq_cons_iff.mp hrest
  obtain rfl := List.map_eq_nil_iff.mp hrest
  obtain ⟨hname, hbytes⟩ := Prod.mk.inj hfirst
  obtain ⟨hname', hbytes'⟩ := Prod.mk.inj hsecond
  obtain ⟨hstray, -⟩ := Prod.mk.inj hthird
  have hplace {input : Input} (h : input.name = "A.class") :
      placeOf crowded "out" input = ["out", "A.class"] := by
    rw [placeOf, h]
    decide +kernel
  have hnext : placeOf crowded "out" third.1 = ["x.class"] := by
    rw [placeOf, hstray]
    decide +kernel
  have hnot : ¬ Path.GoesDown third.1.name := by
    rw [hstray]
    exact fun h => (h ".." (by decide +kernel)).2.2 rfl
  have hstrip (byte : UInt8) (h : (ClassFile.stripDebug [byte]).toOption = some [byte])
      (c : Input × Bytes) (hc : c ∈ [first, second, third]) (hbyte : c.1.bytes = [byte]) :
      c.2 = [byte] := by
    cases hleaves with
    | strip hmakes =>
      obtain ⟨-, hmake⟩ := hmakes.exists_make c hc
      rw [hbyte] at hmake
      rw [hmake, Except.toOption] at h
      exact Option.some.inj h
  refine ⟨hrun, hnamed, first, second, third, hcollect, ?_, ?_, ?_, ?_, ?_⟩
  · exact hstrip 0 (by decide +kernel) first (by simp) hbytes
  · exact hstrip 1 (by decide +kernel) second (by simp) hbytes'
  · refine (hwrites.fileAt _).trans ?_
    simp [hplace hname, hplace hname', hnext, List.lookup_cons]
  · refine (hwrites.fileAt _).trans ?_
    simp [hnext]
  · exact (hnames hnamed third (by simp)).resolve_left hnot

end JvmClass.Tool
