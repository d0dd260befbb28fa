/-
  What becomes of the files when some are written.

  * `Workspace.Writes`: one workspace comes of another by writing files, one
    after the other;
  * `writes_createDirectories`: making directories writes nothing;
  * `writes_write`: a file is written where its path leads, `Path.names`.
-/
import JvmClass.Proofs.Files.Content
import JvmClass.Proofs.Files.Workspace

namespace JvmClass.Workspace

variable {workspace after : Workspace} {names next : List String} {step path : String}
  {content : Bytes}

/-- One workspace comes of another by writing files, one after the other: under
    the names of some of them is the last that was written there, and under any
    other names what was there before. -/
structure Writes (files : List (List String × Bytes)) (before after : Workspace) : Prop where
  here : after.here = before.here
  fileAt : ∀ names,
    after.root.fileAt names = (files.reverse.lookup names).or (before.root.fileAt names)

theorem Writes.nil : Writes [] workspace workspace := ⟨rfl, fun _ => rfl⟩

theorem Writes.append {first second third : Workspace} {files more : List (List String × Bytes)}
    (h : Writes files first second) (hmore : Writes more second third) :
    Writes (files ++ more) first third := by
  refine ⟨hmore.here.trans h.here, fun names => ?_⟩
  rw [hmore.fileAt, h.fileAt, List.reverse_append, List.lookup_append, Option.or_assoc]

/-- **All files that were written are there** exactly if none was written over
    with another content. -/
theorem Writes.forall_fileAt_iff {before : Workspace} {files : List (List String × Bytes)}
    (h : Writes files before after) :
    (∀ f ∈ files, after.root.fileAt f.1 = some f.2) ↔
      ∀ f ∈ files, ∀ g ∈ files, f.1 = g.1 → f.2 = g.2 := by
  constructor
  · intro hall f hf g hg hnames
    exact Option.some.inj ((hall f hf).symm.trans (hnames ▸ hall g hg))
  · intro hall f hf
    rw [h.fileAt]
    cases hlookup : files.reverse.lookup f.1 with
    | none =>
      have hne := List.lookup_eq_none_iff.mp hlookup f (List.mem_reverse.mpr hf)
      exact absurd rfl (bne_iff_ne.mp hne)
    | some content =>
      obtain ⟨front, back, hfiles, -⟩ := List.lookup_eq_some_iff.mp hlookup
      have hmem : (f.1, content) ∈ files := by
        rw [← List.mem_reverse, hfiles]
        exact List.mem_append_right front (.head back)
      rw [hall f hf _ hmem rfl]
      rfl

/-- Going into a directory, and making it first, writes nothing. -/
theorem writes_enter (h : enter (workspace, names) step = .ok (after, next)) :
    Writes [] workspace after := by
  unfold enter at h
  split at h
  next workspace' names' heq =>
    obtain ⟨rfl, rfl⟩ := Prod.mk.inj heq
    split at h
    next =>
      obtain ⟨rfl, -⟩ := Prod.mk.inj (Except.ok.inj h)
      exact .nil
    next hstep =>
      obtain ⟨rfl, -⟩ := Prod.mk.inj (Except.ok.inj h)
      refine ⟨rfl, Node.fileAt_modify_of_keeps fun found hfound rest => ?_⟩
      cases found with
      | file content => rfl
      | directory entries => exact Node.fileAt_put_empty (child_of_step_notFound hfound hstep) rest
    next => exact nomatch h

theorem writes_foldlM_enter {steps : List String}
    (h : steps.foldlM enter (workspace, names) = .ok (after, next)) :
    Writes [] workspace after := by
  induction steps generalizing workspace names with
  | nil =>
    obtain ⟨rfl, -⟩ := Prod.mk.inj (Except.ok.inj h)
    exact .nil
  | cons step steps ih =>
    rw [List.foldlM_cons] at h
    obtain ⟨⟨between, on⟩, hon, h⟩ := Result.bind_eq_ok.mp h
    exact (writes_enter hon).append (ih h)

/-- **Making directories** writes nothing. -/
theorem writes_createDirectories (h : workspace.createDirectories path = .ok after) :
    Writes [] workspace after := by
  unfold createDirectories at h
  split at h
  next =>
    obtain rfl := Except.ok.inj h
    exact .nil
  next =>
    obtain ⟨-, h⟩ := Result.guard_eq_ok.mp h
    obtain ⟨⟨made, names⟩, hmade, h⟩ := Result.bind_eq_ok.mp h
    obtain ⟨node, -, h⟩ := Result.bind_eq_ok.mp h
    split at h
    next =>
      obtain rfl := Except.ok.inj h
      exact writes_foldlM_enter hmade
    next => exact nomatch h

theorem writes_put {entries : List (String × Node)} {name : String}
    (hdirectory : workspace.root.find names = .ok (.directory entries))
    (hplace : (Node.directory entries).child name = .error .notFound ∨
      ∃ old, (Node.directory entries).child name = .ok (.file old)) :
    Writes [(names ++ [name], content)] workspace { workspace with
      root := workspace.root.modify (fun _ => .directory (Node.put name (.file content) entries))
        names } := by
  refine ⟨rfl, fun other => ?_⟩
  rw [List.reverse_singleton, lookup_cons_eq_ite]
  refine (Node.fileAt_modify_put hdirectory hplace content other).trans ?_
  split <;> rfl

/-- **A file is written** where its path leads, and no other. -/
theorem writes_write (h : workspace.write path content = .ok after) :
    Writes [(Path.names workspace.here path, content)] workspace after := by
  unfold write at h
  obtain ⟨-, h⟩ := Result.guard_eq_ok.mp h
  obtain ⟨names, hnames, h⟩ := Result.bind_eq_ok.mp h
  obtain ⟨node, hnode, h⟩ := Result.bind_eq_ok.mp h
  obtain ⟨hname, h⟩ := Result.guard_eq_ok.mp h
  rw [Path.names_eq_append hname, ← start, ← eq_foldl_follow hnames]
  split at h
  next => exact absurd h Result.throw_ne_ok
  next hold =>
    obtain rfl := Except.ok.inj h
    exact writes_put hnode (.inr ⟨_, hold⟩)
  next hold =>
    obtain rfl := Except.ok.inj h
    exact writes_put hnode (.inl hold)
  next => exact absurd h Result.throw_ne_ok
  next => exact absurd h Result.throw_ne_ok

end JvmClass.Workspace
