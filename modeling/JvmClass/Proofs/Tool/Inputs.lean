/-
  The names of the classes that a command works on.

  * `Node.Named`: the names of the files of a tree are such as files have;
  * `Input.goesDown_or_archived`: all classes have names that are paths which only
    go down, except for those in archives, whose names are whatever the library
    lists.
-/
import JvmClass.Proofs.Files.Path
import JvmClass.Proofs.Files.Tree
import JvmClass.Tool.Inputs

namespace JvmClass

namespace Node

/-- The names that lead to the files of a tree are such as files have. -/
def Named (node : Node) : Prop := ∀ file ∈ node.files, ∀ name ∈ file.1, Path.IsName name

instance (node : Node) : Decidable node.Named :=
  inferInstanceAs (Decidable (∀ file ∈ node.files, ∀ name ∈ file.1, Path.IsName name))

theorem Named.of_find {node found : Node} {names : List String} (hnode : node.Named)
    (h : node.find names = .ok found) : found.Named := fun _ hfile name hname =>
  hnode _ (mem_files_of_has (find_eq_ok.mp h).1 hfile) name (List.mem_append_right names hname)

end Node

namespace Tool.Input

variable {unzip : Unzip} {workspace : Workspace} {paths : List String} {inputs : List Input}

/-- A class file from one of the archives at the given paths, under the name that
    the library lists it with. -/
def Archived (unzip : Unzip) (workspace : Workspace) (paths : List String) (input : Input) : Prop :=
  ∃ path ∈ paths, ∃ jar bytes, ClassPath.openJar? unzip workspace path = some (jar, bytes) ∧
    input.name ∈ jar.classFiles ∧ jar.content bytes input.name = .ok input.bytes

/-- The class files below a directory are named by paths that only go down. -/
theorem goesDown_of_ofDirectory {node : Node} (hnode : node.Named) {input : Input}
    (h : input ∈ ofDirectory node) : Path.GoesDown input.name := by
  obtain ⟨⟨names, content⟩, hfile, rfl⟩ := List.mem_map.mp h
  obtain ⟨hfile, hclass⟩ := List.mem_filter.mp hfile
  refine Path.goesDown_intercalate ?_ (hnode _ hfile)
  rintro rfl
  have hnot : isClassFile "" = false := by decide +kernel
  exact absurd (hnot.symm.trans hclass) Bool.false_ne_true

theorem goesDown_of_isClassFile {path : String} (h : isClassFile path = true) :
    Path.GoesDown ((Path.fileName? path).getD path) := by
  obtain ⟨name, hname⟩ := Path.exists_fileName? (beq_iff_eq.mp h)
  rw [hname]
  exact Path.goesDown_of_isName (Path.isName_of_fileName? hname)

theorem mem_ofJar {path : String} {jar : Jar} {bytes : Bytes}
    (h : ofJar path jar bytes = .ok inputs) :
    ∀ input ∈ inputs, input.name ∈ jar.classFiles ∧
      jar.content bytes input.name = .ok input.bytes := by
  refine Result.forall_of_mapM h fun name hname input hinput => ?_
  split at hinput
  next content hcontent =>
    obtain rfl := Except.ok.inj hinput
    exact ⟨hname, hcontent⟩
  next => exact nomatch hinput

theorem goesDown_or_archived_of_ofPath (hnamed : workspace.root.Named) {path : String}
    (hpath : path ∈ paths) (h : ofPath unzip workspace path = .ok inputs) :
    ∀ input ∈ inputs, Path.GoesDown input.name ∨ Archived unzip workspace paths input := by
  intro input hinput
  rw [ofPath] at h
  split at h
  next node hnode =>
    obtain rfl := Except.ok.inj h
    rw [Workspace.directory?] at hnode
    split at hnode
    next entries hfind =>
      obtain rfl := Option.some.inj hnode
      obtain ⟨names, -, hfound⟩ := Result.bind_eq_ok.mp hfind
      exact .inl (goesDown_of_ofDirectory (hnamed.of_find hfound) hinput)
    next => exact nomatch hnode
  next =>
    split at h
    next hclass =>
      split at h
      next =>
        obtain rfl := Except.ok.inj h
        obtain rfl := List.mem_singleton.mp hinput
        exact .inl (goesDown_of_isClassFile hclass)
      next => exact nomatch h
    next =>
      split at h
      next jar bytes hjar =>
        exact .inr ⟨path, hpath, jar, bytes, hjar, mem_ofJar h input hinput⟩
      next => exact nomatch h

/-- **Only an archive can name a class so that its path does not just go down.** -/
theorem goesDown_or_archived (hnamed : workspace.root.Named)
    (h : collect unzip workspace paths = .ok inputs) :
    ∀ input ∈ inputs, Path.GoesDown input.name ∨ Archived unzip workspace paths input := by
  obtain ⟨found, hfound, hinputs⟩ := Result.bind_eq_ok.mp h
  obtain rfl := Except.ok.inj hinputs
  have hall : ∀ group ∈ found, ∀ input ∈ group,
      Path.GoesDown input.name ∨ Archived unzip workspace paths input :=
    Result.forall_of_mapM hfound fun path hpath _ => goesDown_or_archived_of_ofPath hnamed hpath
  intro input hinput
  obtain ⟨group, hgroup, hmem⟩ := List.mem_flatten.mp hinput
  exact hall group hgroup input hmem

end Tool.Input

end JvmClass
