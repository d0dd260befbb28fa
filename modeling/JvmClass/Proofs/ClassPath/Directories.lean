/-
  Class paths of directories.

  * `Node.Obstructs`: a class cannot even be looked for in a tree, because its path
    cannot be followed to where its class file would be;
  * `Source.read_directory_of_has` and its relatives: what a directory answers;
    `Source.read_below`: that is what reading the joined path gives;
  * `ClassPath.read_ofDirectories`: directories that do not have a class neither
    hide nor fail it, unless they obstruct it.
-/
import JvmClass.Proofs.ClassPath.Lookup
import JvmClass.Proofs.Identifier.Spellings

namespace JvmClass

/-- A class cannot be looked for in a tree: the path of its class file cannot be
    followed anywhere, or it is blocked. -/
def Node.Obstructs (root : Node) (id : Identifier) : Prop :=
  Path.canLead id.path = false ∨ root.Blocks (Path.steps id.path)

/-- A tree has nothing where the class file of a class would be. -/
def Node.HasNothing (root : Node) (id : Identifier) : Prop :=
  ∀ found, ¬ root.Has (Path.steps id.path) found

variable {root : Node} {id : Identifier}

theorem Node.not_obstructs_iff : ¬ root.Obstructs id ↔
    Path.canLead id.path = true ∧ ¬ root.Blocks (Path.steps id.path) := by
  rw [Node.Obstructs, not_or, Bool.not_eq_false]

namespace Source

theorem read_directory (hpath : Path.canLead id.path = true) :
    (directory root).read id =
      match root.find (Path.steps id.path) >>= Node.content with
      | .ok bytes => .ok bytes
      | .error .notFound => .error (.notFound id)
      | .error e => .error (.failed id (.unreadableFile e)) :=
  if_neg (by simp [hpath])

theorem read_directory_of_has {bytes : Bytes}
    (h : root.Has (Path.steps id.path) (.file bytes)) (hway : ¬ root.Obstructs id) :
    (directory root).read id = .ok bytes := by
  obtain ⟨hpath, hway⟩ := Node.not_obstructs_iff.mp hway
  rw [read_directory hpath, Node.find_of_has h hway]
  rfl

theorem read_directory_of_hasNothing (h : root.HasNothing id) (hway : ¬ root.Obstructs id) :
    (directory root).read id = .error (.notFound id) := by
  obtain ⟨hpath, hway⟩ := Node.not_obstructs_iff.mp hway
  rw [read_directory hpath, Node.find_of_not_has h hway]
  rfl

theorem read_directory_of_obstructs (h : root.Obstructs id) :
    ∃ cause, (directory root).read id = .error (.failed id cause) := by
  cases hpath : Path.canLead id.path with
  | false =>
    refine ⟨.unreadableFile .notAName, ?_⟩
    unfold directory
    dsimp only
    rw [hpath, if_pos (by decide)]
  | true =>
    rw [read_directory hpath]
    obtain hblocks := h.resolve_left (by simp [hpath])
    rcases Node.find_of_blocks hblocks with hfind | hfind
    all_goals exact ⟨.unreadableFile _, by rw [hfind]; rfl⟩

/-- **What is read below a path is what the directory there answers**, as long
    as the joined path can be followed. -/
theorem read_below {workspace : Workspace} {path text : String}
    (hroot : workspace.find path = .ok root) (hid : Identifier.parse text = .ok id)
    (hpath : Path.canLead (Path.join path id.path) = true) :
    (below workspace path).read id = (directory root).read id := by
  have hdown := Identifier.goesDown_path hid
  have hlead : Path.canLead id.path = true := by
    have hne := (Workspace.find_eq_ok.mp hroot).1
    rcases Path.join_cases hdown.not_isAbsolute hne with hjoin | ⟨-, -, hjoin⟩
    all_goals exact Path.canLead_of_append (hjoin ▸ hpath)
  have hread : workspace.read (Path.join path id.path) =
      root.find (Path.steps id.path) >>= Node.content := by
    rw [Workspace.read, Workspace.find_join hroot hdown, if_pos hpath]
  rw [read_directory hlead, ← hread]
  rfl

end Source

namespace ClassPath

/-- The directories that are searched. -/
def ofDirectories (roots : List Node) : ClassPath := roots.map Source.directory

theorem read_congr {path other : ClassPath}
    (h : List.Forall₂ (fun source source' => source.read id = source'.read id) path other) :
    path.read id = other.read id := by
  induction h with
  | nil => rfl
  | cons hread _ ih => rw [read, read, hread, ih]

theorem read_below_eq_ofDirectories {workspace : Workspace} {paths : List String}
    {roots : List Node} {text : String} (hid : Identifier.parse text = .ok id)
    (h : List.Forall₂ (fun path root => workspace.find path = .ok root ∧
      Path.canLead (Path.join path id.path) = true) paths roots) :
    read (paths.map (Source.below workspace)) id = (ofDirectories roots).read id := by
  refine read_congr ?_
  rw [ofDirectories, List.forall₂_map_left_iff, List.forall₂_map_right_iff]
  exact h.imp fun _ _ ⟨hroot, hpath⟩ => Source.read_below hroot hid hpath

variable {before : List Node}

theorem answers_of_hasNothing
    (h : ∀ root ∈ before, root.HasNothing id ∧ ¬ root.Obstructs id) :
    (ofDirectories before).find? (·.answers id) = none := by
  rw [List.find?_eq_none]
  intro source hsource
  obtain ⟨root, hroot, rfl⟩ := List.mem_map.mp hsource
  obtain ⟨hnothing, hway⟩ := h root hroot
  rw [Bool.not_eq_true, Source.answers_eq_false]
  exact ⟨id, Source.read_directory_of_hasNothing hnothing hway⟩

theorem find?_ofDirectories (after : List Node)
    (h : ∀ root ∈ before, root.HasNothing id ∧ ¬ root.Obstructs id)
    (hanswers : (Source.directory root).answers id = true) :
    (ofDirectories (before ++ root :: after)).find? (·.answers id) =
      some (Source.directory root) := by
  have hfront := answers_of_hasNothing h
  rw [ofDirectories] at hfront
  rw [ofDirectories, List.map_append, List.map_cons, List.find?_append, hfront, Option.none_or,
    List.find?_cons, hanswers]

/-- **Directories that do not have a class do not hide it and do not fail it**,
    as long as none of those that are searched obstructs it: the class file is read
    from the first directory that has something in its place, and a class that is
    in none is not found.  A directory that obstructs the class fails, whatever is
    in those behind it.  Reading below the paths of directories comes to this. -/
theorem read_ofDirectories (roots : List Node) (id : Identifier) :
    (∀ before root after bytes, roots = before ++ root :: after →
      (∀ earlier ∈ before, earlier.HasNothing id) →
      root.Has (Path.steps id.path) (.file bytes) →
      (∀ searched ∈ before ++ [root], ¬ searched.Obstructs id) →
      (ofDirectories roots).read id = .ok bytes) ∧
    ((∀ root ∈ roots, root.HasNothing id) → (∀ root ∈ roots, ¬ root.Obstructs id) →
      (ofDirectories roots).read id = .error (.notFound id) ∧
        (ofDirectories roots).load id = .ok none) ∧
    (∀ before root after, roots = before ++ root :: after →
      (∀ earlier ∈ before, earlier.HasNothing id ∧ ¬ earlier.Obstructs id) →
      root.Obstructs id →
      ∃ cause, (ofDirectories roots).read id = .error (.failed id cause) ∧
        (ofDirectories roots).load id = .error (.failed id cause)) ∧
    ∀ workspace paths text, Identifier.parse text = .ok id →
      List.Forall₂ (fun path root => Workspace.find workspace path = .ok root ∧
        Path.canLead (Path.join path id.path) = true) paths roots →
      read (paths.map (Source.below workspace)) id = (ofDirectories roots).read id := by
  refine ⟨?_, fun hnothing hway => ?_, ?_, fun _ _ _ hid => read_below_eq_ofDirectories hid⟩
  · rintro before root after bytes rfl hnothing hfile hway
    rw [List.forall_mem_append, List.forall_mem_singleton] at hway
    have hread := Source.read_directory_of_has hfile hway.2
    refine read_eq_ok.mpr ⟨_, find?_ofDirectories after (fun earlier hmem => ?_) ?_, hread⟩
    · exact ⟨hnothing earlier hmem, hway.1 earlier hmem⟩
    · exact Source.answers_of_read hread
  · have hnone : (ofDirectories roots).find? (·.answers id) = none :=
      answers_of_hasNothing fun root hroot => ⟨hnothing root hroot, hway root hroot⟩
    refine ⟨?_, load_eq_none_iff_find?.mpr hnone⟩
    rw [read_eq, hnone]
  · rintro before root after rfl hbefore hway
    obtain ⟨cause, hfails⟩ := Source.read_directory_of_obstructs hway
    have hanswers : (Source.directory root).answers id = true := by
      rw [Source.answers, hfails]
    have hfind := find?_ofDirectories after hbefore hanswers
    refine ⟨cause, ?_, load_eq_error.mpr ⟨_, hfind, .inl hfails⟩⟩
    rw [read_eq, hfind]
    exact hfails

/-- A directory with the class file of `a.B`. -/
def packaged : Node := .directory [("a", .directory [("B.class", .file [1])])]

/-- A directory with a file in the place of the package `a`. -/
def unpackaged : Node := .directory [("a", .file [0])]

/-- A class is read from behind an empty directory, and is not found in that
    directory alone.  Behind a directory with a file in the place of its package, it
    is not read: that directory fails, although the class is not in it. -/
theorem read_ofDirectories_unpackaged :
    (ofDirectories [.empty, packaged]).read ⟨"a", "B"⟩ = .ok [1] ∧
      (ofDirectories [.empty]).load ⟨"a", "B"⟩ = .ok none ∧
      unpackaged.HasNothing ⟨"a", "B"⟩ ∧
      ∃ cause, (ofDirectories [unpackaged, packaged]).read ⟨"a", "B"⟩ =
        .error (.failed ⟨"a", "B"⟩ cause) := by
  have hsteps : Path.steps (Identifier.path ⟨"a", "B"⟩) = ["a", "B.class"] := by decide +kernel
  have hpath : Path.canLead (Identifier.path ⟨"a", "B"⟩) = true := by decide +kernel
  have hempty : Node.empty.HasNothing ⟨"a", "B"⟩ ∧ ¬ Node.empty.Obstructs ⟨"a", "B"⟩ := by
    rw [Node.not_obstructs_iff, Node.HasNothing, hsteps]
    have hfind : Node.empty.find ["a", "B.class"] = .error .notFound := rfl
    obtain ⟨hnothing, hway⟩ := Node.find_eq_notFound.mp hfind
    exact ⟨hnothing, hpath, hway⟩
  have hpackaged : packaged.Has (Path.steps (Identifier.path ⟨"a", "B"⟩)) (.file [1]) ∧
      ¬ packaged.Obstructs ⟨"a", "B"⟩ := by
    rw [Node.not_obstructs_iff, hsteps]
    have hfind : packaged.find ["a", "B.class"] = .ok (.file [1]) := rfl
    obtain ⟨hhas, hway⟩ := Node.find_eq_ok.mp hfind
    exact ⟨hhas, hpath, hway⟩
  have hunpackaged : unpackaged.HasNothing ⟨"a", "B"⟩ := by
    rw [Node.HasNothing, hsteps]
    rintro found (_ | ⟨hchild, hrest⟩)
    cases hchild
    cases hrest
  have hobstructs : unpackaged.Obstructs ⟨"a", "B"⟩ :=
    .inr (hsteps ▸ .inside (by decide +kernel) rfl .file)
  obtain ⟨hread, -, -, -⟩ := read_ofDirectories [.empty, packaged] ⟨"a", "B"⟩
  obtain ⟨-, hmissing, -, -⟩ := read_ofDirectories [.empty] ⟨"a", "B"⟩
  obtain ⟨-, -, hfails, -⟩ := read_ofDirectories [unpackaged, packaged] ⟨"a", "B"⟩
  refine ⟨?_, ?_, hunpackaged, ?_⟩
  · refine hread [.empty] packaged [] [1] rfl ?_ hpackaged.1 ?_
    · simpa using hempty.1
    · simpa using ⟨hempty.2, hpackaged.2⟩
  · exact (hmissing (by simpa using hempty.1) (by simpa using hempty.2)).2
  · obtain ⟨cause, hcause, -⟩ := hfails [] unpackaged [packaged] rfl nofun hobstructs
    exact ⟨cause, hcause⟩

end ClassPath

end JvmClass
