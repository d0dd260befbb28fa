/-
  Changes to trees of files.

  * `Node.fileAt` is the content of the file that names lead to, if they lead to
    a file;
  * `Node.find_modify`: where something is changed, the changed thing is found;
  * `Node.fileAt_modify_of_keeps`: a change that keeps the files below a place
    keeps all files;
  * `Node.fileAt_modify_put`: a file that is put into a directory is all that
    changes.
-/
import JvmClass.Proofs.Files.Tree

namespace JvmClass

theorem lookup_cons_eq_ite {α β : Type} [BEq α] [LawfulBEq α] [DecidableEq α] (first : α)
    (value : β) (rest : List (α × β)) (key : α) :
    ((first, value) :: rest).lookup key = if key = first then some value else rest.lookup key := by
  by_cases h : key = first
  · rw [if_pos h, h, List.lookup_cons_self]
  · rw [if_neg h, List.lookup_cons, beq_eq_false_iff_ne.mpr h]

namespace Node

/-- The content of the file that names lead to. -/
def fileAt (node : Node) (names : List String) : Option Bytes :=
  (node.find names >>= content).toOption

theorem fileAt_append (node : Node) (names rest : List String) :
    node.fileAt (names ++ rest) =
      (node.find names).toOption.bind fun found => found.fileAt rest := by
  rw [fileAt, find_append]
  cases node.find names <;> rfl

theorem fileAt_cons (node : Node) (name : String) (names : List String) :
    node.fileAt (name :: names) =
      (node.child name).toOption.bind fun child => child.fileAt names := by
  rw [fileAt, find_cons]
  cases node.child name <;> rfl

/-! ## Entries -/

/-- An entry that is added is the one of its name; those of other names stay. -/
theorem lookup_put (name : String) (node : Node) (entries : List (String × Node))
    (other : String) :
    (put name node entries).lookup other =
      if other = name then some node else entries.lookup other := by
  induction entries with
  | nil => exact lookup_cons_eq_ite name node [] other
  | cons entry rest ih =>
    obtain ⟨first, old⟩ := entry
    rw [put]
    split
    next => exact lookup_cons_eq_ite name node _ other
    next =>
      split
      next hfirst =>
        subst hfirst
        rw [lookup_cons_eq_ite, lookup_cons_eq_ite]
        split <;> rfl
      next hfirst =>
        rw [lookup_cons_eq_ite, lookup_cons_eq_ite, ih]
        split
        next hother => rw [if_neg (hother ▸ Ne.symm hfirst)]
        next => rfl

theorem lookup_map (f : String → Node → Node) (entries : List (String × Node)) (name : String) :
    (entries.map fun (other, child) => (other, f other child)).lookup name =
      (entries.lookup name).map (f name) := by
  induction entries with
  | nil => rfl
  | cons entry rest ih =>
    rw [List.map_cons, lookup_cons_eq_ite, lookup_cons_eq_ite, ih]
    split
    next hname => rw [hname]; rfl
    next => rfl

theorem length_le_of_child {entries : List (String × Node)} {name : String}
    (h : (directory entries).child name ≠ .error .notAName) :
    name.utf8ByteSize ≤ maxNameLength := by
  by_contra hlong
  exact h (if_pos (Nat.not_le.mp hlong))

theorem child_put {name : String} (hname : name.utf8ByteSize ≤ maxNameLength) (node : Node)
    (entries : List (String × Node)) (other : String) :
    (directory (put name node entries)).child other =
      if other = name then .ok node else (directory entries).child other := by
  by_cases hlong : maxNameLength < other.utf8ByteSize
  · have hne : other ≠ name := by rintro rfl; omega
    rw [if_neg hne, child, child, if_pos hlong, if_pos hlong]
  · rw [child_directory (Nat.not_lt.mp hlong), child_directory (Nat.not_lt.mp hlong), lookup_put]
    by_cases hother : other = name
    · rw [if_pos hother, if_pos hother]
    · rw [if_neg hother, if_neg hother]

theorem child_modify (change : Node → Node) (name : String) (names : List String)
    (entries : List (String × Node)) (other : String) :
    (modify change (name :: names) (directory entries)).child other =
      (fun child => if other = name then modify change names child else child) <$>
        (directory entries).child other := by
  rw [modify]
  by_cases hlong : maxNameLength < other.utf8ByteSize
  · rw [child, child, if_pos hlong, if_pos hlong]
    rfl
  · rw [child_directory (Nat.not_lt.mp hlong), child_directory (Nat.not_lt.mp hlong),
      lookup_map fun other child => if other = name then modify change names child else child]
    cases entries.lookup other <;> rfl

/-! ## A change at a place -/

theorem find_modify (change : Node → Node) (names : List String) (node : Node) :
    (modify change names node).find names = change <$> node.find names := by
  induction names generalizing node with
  | nil => rfl
  | cons name names ih =>
    cases node with
    | file content => rfl
    | directory entries =>
      rw [find_cons, find_cons, child_modify]
      cases (directory entries).child name with
      | error e => rfl
      | ok child =>
        change (if name = name then modify change names child else child).find names = _
        rw [if_pos rfl, ih]
        rfl

theorem fileAt_modify_append (change : Node → Node) (node : Node) (names rest : List String) :
    (modify change names node).fileAt (names ++ rest) =
      (node.find names).toOption.bind fun found => (change found).fileAt rest := by
  rw [fileAt_append, find_modify]
  cases node.find names <;> rfl

theorem fileAt_modify_of_not_prefix (change : Node → Node) {names other : List String}
    (h : ¬ names <+: other) (node : Node) :
    (modify change names node).fileAt other = node.fileAt other := by
  induction names generalizing node other with
  | nil => exact absurd List.nil_prefix h
  | cons name names ih =>
    cases node with
    | file content => rfl
    | directory entries =>
      cases other with
      | nil => rfl
      | cons first rest =>
        rw [fileAt_cons, fileAt_cons, child_modify]
        cases (directory entries).child first with
        | error e => rfl
        | ok child =>
          change (if first = name then modify change names child else child).fileAt rest =
            child.fileAt rest
          split
          next hfirst =>
            subst hfirst
            exact ih (fun hrest => h (List.cons_prefix_cons.mpr ⟨rfl, hrest⟩)) child
          next => rfl

/-- **A change that keeps the files below a place** keeps all files. -/
theorem fileAt_modify_of_keeps {change : Node → Node} {names : List String} {node : Node}
    (h : ∀ found, node.find names = .ok found →
      ∀ rest, (change found).fileAt rest = found.fileAt rest) (other : List String) :
    (modify change names node).fileAt other = node.fileAt other := by
  by_cases hbelow : names <+: other
  · obtain ⟨rest, rfl⟩ := hbelow
    rw [fileAt_modify_append, fileAt_append]
    cases hfound : node.find names with
    | error e => rfl
    | ok found => exact h found hfound rest
  · exact fileAt_modify_of_not_prefix change hbelow node

/-- **A file that is put into a directory** is all that changes, if it takes the
    place of nothing but a file. -/
theorem fileAt_modify_put {node : Node} {names : List String} {entries : List (String × Node)}
    {name : String} (hdirectory : node.find names = .ok (.directory entries))
    (hplace : (directory entries).child name = .error .notFound ∨
      ∃ old, (directory entries).child name = .ok (.file old))
    (content : Bytes) (other : List String) :
    (modify (fun _ => .directory (put name (.file content) entries)) names node).fileAt other =
      if other = names ++ [name] then some content else node.fileAt other := by
  have hname : name.utf8ByteSize ≤ maxNameLength := by
    refine @length_le_of_child entries name ?_
    rcases hplace with h | ⟨old, h⟩ <;> rw [h] <;> nofun
  by_cases hbelow : names <+: other
  · obtain ⟨rest, rfl⟩ := hbelow
    rw [fileAt_modify_append, fileAt_append, hdirectory]
    change (directory (put name (.file content) entries)).fileAt rest =
      if names ++ rest = names ++ [name] then some content else (directory entries).fileAt rest
    cases rest with
    | nil => rw [if_neg (by simp)]; rfl
    | cons first rest =>
      rw [fileAt_cons, fileAt_cons, child_put hname]
      by_cases hfirst : first = name
      · subst hfirst
        rw [if_pos rfl]
        cases rest with
        | nil => rw [if_pos rfl]; rfl
        | cons next rest =>
          -- Below the name there was no file, and there is none.
          rw [if_neg (by simp)]
          rcases hplace with h | ⟨old, h⟩ <;> rw [h] <;> rfl
      · rw [if_neg hfirst, if_neg (by simp [hfirst])]
  · have hne : other ≠ names ++ [name] := by
      rintro rfl
      exact hbelow (List.prefix_append names [name])
    rw [if_neg hne, fileAt_modify_of_not_prefix _ hbelow]

theorem fileAt_empty (names : List String) : empty.fileAt names = none := by
  cases names with
  | nil => rfl
  | cons first rest =>
    rw [fileAt_cons, empty, child]
    split <;> rfl

theorem fileAt_put_empty {entries : List (String × Node)} {name : String}
    (hname : (directory entries).child name = .error .notFound) (other : List String) :
    (directory (put name empty entries)).fileAt other = (directory entries).fileAt other := by
  cases other with
  | nil => rfl
  | cons first rest =>
    have hlength : name.utf8ByteSize ≤ maxNameLength :=
      @length_le_of_child entries name (by rw [hname]; nofun)
    rw [fileAt_cons, fileAt_cons, child_put hlength]
    split
    next hfirst =>
      subst hfirst
      rw [hname]
      exact fileAt_empty rest
    next => rfl

end Node

end JvmClass
