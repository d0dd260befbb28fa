/-
  Going on from a directory.

  * `Workspace.step_directory`: what a step from a directory can come to;
    `eq_foldl_follow`: steps that can be taken lead along `Path.names`;
  * `Workspace.find_join`: a path that only goes down, joined to that of a
    directory, leads to what the directory has under its steps, and nowhere else.
-/
import JvmClass.Files.Workspace
import JvmClass.Proofs.Files.Path
import JvmClass.Proofs.Files.Tree

namespace JvmClass

namespace Workspace

variable {workspace : Workspace}

/-- A step from a directory stays, goes up or is a look into it. -/
theorem step_directory {names : List String} {step : String} {entries : List (String × Node)}
    (hnode : workspace.root.find names = .ok (.directory entries)) :
    workspace.step names step =
      if Path.isIdle step then .ok names
      else if step = ".." then .ok names.dropLast
      else (fun _ => names ++ [step]) <$> (Node.directory entries).child step := by
  unfold Workspace.step
  rw [hnode]
  change (if Path.isIdle step = true then .ok names
    else if step = ".." then .ok names.dropLast
    else (Node.directory entries).child step >>= fun _ => pure (names ++ [step])) = _
  cases (Node.directory entries).child step <;> rfl

theorem exists_directory_of_step {names next : List String} {step : String}
    (h : workspace.step names step = .ok next) :
    ∃ entries, workspace.root.find names = .ok (.directory entries) := by
  unfold Workspace.step at h
  obtain ⟨node, hnode, h⟩ := Result.bind_eq_ok.mp h
  cases node with
  | file content => exact absurd h Result.throw_ne_ok
  | directory entries => exact ⟨entries, hnode⟩

theorem step_eq {names : List String} {step : String} {node : Node}
    (hnode : workspace.root.find names = .ok node)
    (hstep : step ≠ "" ∧ step ≠ "." ∧ step ≠ "..") :
    workspace.step names step = (fun _ => names ++ [step]) <$> node.child step := by
  obtain ⟨hempty, hdot, hup⟩ := hstep
  cases node with
  | file content =>
    unfold Workspace.step
    rw [hnode]
    rfl
  | directory entries =>
    rw [step_directory hnode, Path.isIdle_eq_false hempty hdot, if_neg Bool.false_ne_true,
      if_neg hup]

theorem eq_follow {names next : List String} {step : String}
    (h : workspace.step names step = .ok next) : next = Path.follow names step := by
  obtain ⟨entries, hnode⟩ := exists_directory_of_step h
  rw [step_directory hnode] at h
  rw [Path.follow]
  split at h
  next hidle =>
    rw [if_pos hidle]
    exact (Except.ok.inj h).symm
  next hidle =>
    rw [if_neg hidle]
    split at h
    next hup =>
      rw [if_pos hup]
      exact (Except.ok.inj h).symm
    next hup =>
      rw [if_neg hup]
      obtain ⟨child, -, h⟩ := Result.map_eq_ok.mp h
      exact h.symm

theorem eq_foldl_follow {names next steps : List String}
    (h : steps.foldlM workspace.step names = .ok next) :
    next = steps.foldl Path.follow names := by
  induction steps generalizing names with
  | nil => exact (Except.ok.inj h).symm
  | cons step steps ih =>
    rw [List.foldlM_cons] at h
    obtain ⟨on, hon, h⟩ := Result.bind_eq_ok.mp h
    rw [List.foldl_cons, ← eq_follow hon]
    exact ih h

/-- A step that finds nothing in a directory does so for want of an entry. -/
theorem child_of_step_notFound {names : List String} {step : String}
    {entries : List (String × Node)}
    (hnode : workspace.root.find names = .ok (.directory entries))
    (h : workspace.step names step = .error .notFound) :
    (Node.directory entries).child step = .error .notFound := by
  rw [step_directory hnode] at h
  split at h
  next => cases h
  next =>
    split at h
    next => cases h
    next => exact Result.map_eq_error.mp h

/-- Steps that lead down lead to what a directory has under them. -/
theorem foldlM_step {names steps : List String} {node : Node}
    (hnode : workspace.root.find names = .ok node)
    (hsteps : ∀ step ∈ steps, step ≠ "" ∧ step ≠ "." ∧ step ≠ "..") :
    steps.foldlM workspace.step names = (fun _ => names ++ steps) <$> node.find steps := by
  induction steps generalizing names node with
  | nil => rw [List.append_nil]; rfl
  | cons step steps ih =>
    rw [List.forall_mem_cons] at hsteps
    rw [List.foldlM_cons, step_eq hnode hsteps.1, Node.find_cons]
    cases hchild : node.child step with
    | error e => rfl
    | ok child =>
      have hbelow : workspace.root.find (names ++ [step]) = .ok child := by
        rw [Node.find_append, hnode]
        change node.find [step] = _
        rw [Node.find_cons, hchild]
        rfl
      have hrest := ih hbelow hsteps.2
      rw [List.append_assoc, List.singleton_append] at hrest
      exact hrest

theorem find_eq_ok {path : String} {node : Node} :
    workspace.find path = .ok node ↔ path.isEmpty = false ∧ Path.canLead path = true ∧
      ∃ names, (Path.steps path).foldlM workspace.step (workspace.start path) = .ok names ∧
        workspace.root.find names = .ok node := by
  rw [Workspace.find, Result.bind_eq_ok, resolve]
  cases path.isEmpty <;> cases Path.canLead path <;> simp

/-- The steps of a joined path go on where those of the directory lead to. -/
theorem foldlM_join {directory path : String} (hpath : Path.isAbsolute path = false)
    (hne : directory.isEmpty = false) {names : List String}
    (hnames :
      (Path.steps directory).foldlM workspace.step (workspace.start directory) = .ok names) :
    (Path.steps (Path.join directory path)).foldlM workspace.step
        (workspace.start (Path.join directory path)) =
      (Path.steps path).foldlM workspace.step names := by
  rw [start] at hnames ⊢
  rcases Path.join_cases hpath hne with hjoin | ⟨front, rfl, hjoin⟩
  · rw [hjoin, Path.steps_append, String.append_assoc, Path.isAbsolute_append hne,
      List.foldlM_append, hnames]
    rfl
  · rw [Path.steps_append_slash, List.foldlM_append] at hnames
    obtain ⟨before, hbefore, hempty⟩ := Result.bind_eq_ok.mp hnames
    rw [List.foldlM_cons] at hempty
    obtain ⟨next, hnext, hdone⟩ := Result.bind_eq_ok.mp hempty
    obtain rfl : next = before := eq_follow hnext
    obtain rfl := Except.ok.inj hdone
    rw [hjoin, Path.isAbsolute_append hne, Path.steps_append, List.foldlM_append, hbefore]
    rfl

/-- **A path that only goes down leads nowhere else**: joined to the path of a
    directory, it leads to what the directory has under its steps. -/
theorem find_join {directory path : String} {node : Node}
    (hdirectory : workspace.find directory = .ok node) (hpath : Path.GoesDown path) :
    workspace.find (Path.join directory path) =
      if Path.canLead (Path.join directory path) then node.find (Path.steps path)
      else .error .notAName := by
  obtain ⟨hne, -, names, hnames, hnode⟩ := find_eq_ok.mp hdirectory
  have hsteps := foldlM_join hpath.not_isAbsolute hne hnames
  rw [foldlM_step hnode hpath] at hsteps
  have hjoin : (Path.join directory path).isEmpty = false := by
    rcases Path.join_cases hpath.not_isAbsolute hne with hjoin | ⟨front, rfl, hjoin⟩
    all_goals simp [hjoin]
  rw [Workspace.find, resolve, hjoin]
  cases Path.canLead (Path.join directory path) with
  | false => rfl
  | true =>
    change ((Path.steps (Path.join directory path)).foldlM workspace.step _ >>= _) = node.find _
    rw [hsteps]
    have hfound : workspace.root.find (names ++ Path.steps path) = node.find (Path.steps path) := by
      rw [Node.find_append, hnode]
      rfl
    cases hend : node.find (Path.steps path) with
    | error e => rfl
    | ok found => exact hfound.trans hend

end Workspace

end JvmClass
