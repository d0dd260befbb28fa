/-
  What trees of files have.

  * `Node.Has`: a tree has something under names that lead down to it;
  * `Node.Blocks`: on the way down is a file in the place of a directory, or a name
    that no entry can have;
  * `Node.find_eq_ok`, `find_eq_notFound` and `find_of_blocks`: what following
    names gives;
  * `Node.mem_files_of_has`: the files below a place are files of the tree.
-/
import JvmClass.Files.Tree
import JvmClass.Proofs.Result

namespace JvmClass.Node

/-- A tree has something under names, one directory below the other. -/
inductive Has : Node → List String → Node → Prop
  | here {node} : Has node [] node
  | inside {entries name child names found} (hchild : entries.lookup name = some child)
      (hrest : Has child names found) : Has (.directory entries) (name :: names) found

/-- The way down ends at a file in the place of a directory, or at a name that
    is too long. -/
inductive Blocks : Node → List String → Prop
  | file {content name names} : Blocks (.file content) (name :: names)
  | longName {entries name names} (hname : maxNameLength < name.utf8ByteSize) :
    Blocks (.directory entries) (name :: names)
  | inside {entries name child names} (hname : name.utf8ByteSize ≤ maxNameLength)
      (hchild : entries.lookup name = some child) (hrest : Blocks child names) :
    Blocks (.directory entries) (name :: names)

theorem find_cons (node : Node) (name : String) (names : List String) :
    node.find (name :: names) = node.child name >>= fun child => child.find names := rfl

theorem find_append (node : Node) (front back : List String) :
    node.find (front ++ back) = node.find front >>= fun found => found.find back := by
  induction front generalizing node with
  | nil => rfl
  | cons name front ih =>
    rw [List.cons_append, find_cons, find_cons]
    cases node.child name with
    | error e => rfl
    | ok child => exact ih child

theorem child_directory {entries : List (String × Node)} {name : String}
    (hname : name.utf8ByteSize ≤ maxNameLength) :
    (directory entries).child name = match entries.lookup name with
      | some child => .ok child
      | none => .error .notFound :=
  if_neg (Nat.not_lt.mpr hname)

theorem find_of_blocks {node : Node} {names : List String} (h : node.Blocks names) :
    node.find names = .error .notADirectory ∨ node.find names = .error .notAName := by
  induction h with
  | file => exact .inl rfl
  | longName hname =>
    refine .inr ?_
    rw [find_cons, child, if_pos hname]
    rfl
  | inside hname hchild _ ih =>
    rw [find_cons, child_directory hname, hchild]
    exact ih

theorem find_of_has {node found : Node} {names : List String} (h : node.Has names found)
    (hway : ¬ node.Blocks names) : node.find names = .ok found := by
  induction h with
  | here => rfl
  | @inside entries name child names found hchild _ ih =>
    have hname : name.utf8ByteSize ≤ maxNameLength :=
      Nat.not_lt.mp fun hlong => hway (.longName hlong)
    rw [find_cons, child_directory hname, hchild]
    exact ih fun hblocks => hway (.inside hname hchild hblocks)

theorem find_of_not_has {node : Node} {names : List String} (h : ∀ found, ¬ node.Has names found)
    (hway : ¬ node.Blocks names) : node.find names = .error .notFound := by
  induction names generalizing node with
  | nil => exact absurd .here (h node)
  | cons name names ih =>
    cases node with
    | file content => exact absurd .file hway
    | directory entries =>
      have hname : name.utf8ByteSize ≤ maxNameLength :=
        Nat.not_lt.mp fun hlong => hway (.longName hlong)
      rw [find_cons, child_directory hname]
      cases hchild : entries.lookup name with
      | none => rfl
      | some child =>
        exact ih (fun found hfound => h found (.inside hchild hfound))
          fun hblocks => hway (.inside hname hchild hblocks)

theorem not_blocks_of_find {node : Node} {names : List String}
    (hfile : node.find names ≠ .error .notADirectory) (hname : node.find names ≠ .error .notAName) :
    ¬ node.Blocks names :=
  fun hblocks => (find_of_blocks hblocks).elim hfile hname

/-- **Names lead to what a tree has** under them, if the way is not blocked. -/
theorem find_eq_ok {node found : Node} {names : List String} :
    node.find names = .ok found ↔ node.Has names found ∧ ¬ node.Blocks names := by
  refine ⟨fun h => ?_, fun h => find_of_has h.1 h.2⟩
  have hway : ¬ node.Blocks names := not_blocks_of_find (h ▸ nofun) (h ▸ nofun)
  refine ⟨?_, hway⟩
  by_contra hnot
  have hnothing : ∀ other, ¬ node.Has names other := by
    intro other hother
    obtain rfl := Except.ok.inj (h.symm.trans (find_of_has hother hway))
    exact hnot hother
  exact nomatch h.symm.trans (find_of_not_has hnothing hway)

/-- **A name is missing** exactly if the tree has nothing and the way is not
    blocked. -/
theorem find_eq_notFound {node : Node} {names : List String} :
    node.find names = .error .notFound ↔
      (∀ found, ¬ node.Has names found) ∧ ¬ node.Blocks names := by
  refine ⟨fun h => ?_, fun h => find_of_not_has h.1 h.2⟩
  have hway : ¬ node.Blocks names := not_blocks_of_find (h ▸ nofun) (h ▸ nofun)
  refine ⟨fun found hfound => ?_, hway⟩
  exact nomatch h.symm.trans (find_of_has hfound hway)

theorem mem_filesOf {entries : List (String × Node)} {name : String} {child : Node}
    (hchild : (name, child) ∈ entries) {file : List String × Bytes} (hfile : file ∈ child.files) :
    (name :: file.1, file.2) ∈ filesOf entries := by
  induction entries with
  | nil => exact nomatch hchild
  | cons entry rest ih =>
    obtain ⟨first, node⟩ := entry
    rw [filesOf, List.mem_append]
    rcases List.mem_cons.mp hchild with h | h
    · obtain ⟨rfl, rfl⟩ := Prod.mk.inj h
      exact .inl (List.mem_map_of_mem hfile)
    · exact .inr (ih h)

theorem mem_files_of_has {node found : Node} {names : List String} (h : node.Has names found)
    {file : List String × Bytes} (hfile : file ∈ found.files) :
    (names ++ file.1, file.2) ∈ node.files := by
  induction h with
  | here => exact hfile
  | inside hchild _ ih =>
    obtain ⟨front, back, rfl, -⟩ := List.lookup_eq_some_iff.mp hchild
    rw [files]
    exact mem_filesOf (List.mem_append_right front (.head back)) (ih hfile)

end JvmClass.Node
