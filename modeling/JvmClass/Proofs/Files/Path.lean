/-
  Steps of paths.

  * `Path.steps_append`: the steps of a path that goes on behind a slash;
  * `Path.GoesDown`: a path each of whose steps leads from a directory into
    something in it; such a path starts where it is told to
    (`GoesDown.not_isAbsolute`);
  * `Path.IsName`: a name that a file can have; such names, with slashes between
    them, go down (`goesDown_intercalate`);
  * `Path.names_join`: a path that only goes down leads below the directory that
    it is joined to.
-/
import JvmClass.Files.Path
import JvmClass.Proofs.Text.Split

namespace JvmClass.Path

/-! ## Steps -/

theorem steps_append (front back : String) :
    steps (front ++ "/" ++ back) = steps front ++ steps back := by
  have hletters : (front ++ "/" ++ back).toList = front.toList ++ '/' :: back.toList := by simp
  rw [steps, Text.splitText, Text.split_eq_splitOn, hletters, List.splitOn_append_cons_self,
    List.map_append, ← Text.split_eq_splitOn, ← Text.split_eq_splitOn]
  rfl

theorem steps_append_slash (front : String) : steps (front ++ "/") = steps front ++ [""] := by
  rw [← String.append_empty (s := front ++ "/"), steps_append]
  rfl

theorem steps_injective {path other : String} (h : steps path = steps other) : path = other := by
  have hsplit : Text.split '/' path.toList = Text.split '/' other.toList :=
    (List.map_inj_right fun _ _ => String.ofList_inj.mp).mp h
  rw [← String.toList_inj, ← Text.intercalate_split '/' path.toList, hsplit,
    Text.intercalate_split]

/-- Every step of a path leads from a directory into something in it: none
    stays where it is or goes up. -/
def GoesDown (path : String) : Prop :=
  ∀ step ∈ steps path, step ≠ "" ∧ step ≠ "." ∧ step ≠ ".."

theorem leadsDown_of_mem {cs : List Char} {c : Char} (hmem : c ∈ cs) (hc : c ≠ '.') :
    String.ofList cs ≠ "" ∧ String.ofList cs ≠ "." ∧ String.ofList cs ≠ ".." := by
  have hletters {text : String} (htext : c ∉ text.toList) : String.ofList cs ≠ text := by
    rintro rfl
    exact htext (by simpa using hmem)
  exact ⟨hletters (by simp), hletters (by simpa using hc), hletters (by simpa using hc)⟩

theorem GoesDown.not_isAbsolute {path : String} (h : GoesDown path) : isAbsolute path = false := by
  rw [isAbsolute, beq_eq_false_iff_ne]
  intro hhead
  obtain ⟨cs, hcs⟩ := List.head?_eq_some_iff.mp hhead
  refine (h "" ?_).1 rfl
  rw [steps, Text.splitText, hcs, Text.split, if_pos rfl]
  exact .head _

/-- A path that can be followed can be followed from any place on it. -/
theorem canLead_of_append {front back : String} (h : canLead (front ++ back) = true) :
    canLead back = true := by
  simp [canLead] at h ⊢
  exact ⟨by omega, h.2.2⟩

/-! ## Names -/

section
variable {path name : String} {names : List String}

/-- A name that a file can have in a directory. -/
def IsName (name : String) : Prop :=
  name ≠ "" ∧ name ≠ "." ∧ name ≠ ".." ∧ '/' ∉ name.toList

instance (name : String) : Decidable (IsName name) :=
  inferInstanceAs (Decidable (_ ∧ _ ∧ _ ∧ _))

theorem steps_intercalate (hne : names ≠ []) (hnames : ∀ name ∈ names, '/' ∉ name.toList) :
    steps ("/".intercalate names) = names := by
  have hsplit : (['/'].intercalate (names.map String.toList)).splitOn '/' =
      names.map String.toList :=
    List.splitOn_intercalate '/' (by simpa using hnames) (by simpa using hne)
  rw [steps, Text.splitText, Text.split_eq_splitOn, String.toList_intercalate]
  change ((['/'].intercalate (names.map String.toList)).splitOn '/').map String.ofList = names
  rw [hsplit, List.map_map]
  simp [Function.comp_def]

theorem goesDown_intercalate (hne : names ≠ []) (hnames : ∀ name ∈ names, IsName name) :
    GoesDown ("/".intercalate names) := by
  intro step hstep
  rw [steps_intercalate hne fun name hname => (hnames name hname).2.2.2] at hstep
  obtain ⟨hempty, hdot, hup, -⟩ := hnames step hstep
  exact ⟨hempty, hdot, hup⟩

theorem goesDown_of_isName (h : IsName name) : GoesDown name := by
  have hname := goesDown_intercalate (List.cons_ne_nil name []) (by simpa using h)
  rwa [String.intercalate_singleton] at hname

theorem not_mem_of_mem_steps {step : String} (h : step ∈ steps path) : '/' ∉ step.toList := by
  rw [steps, Text.splitText, Text.split_eq_splitOn] at h
  obtain ⟨piece, hpiece, rfl⟩ := List.mem_map.mp h
  rw [List.splitOn] at hpiece
  intro hmem
  rw [String.toList_ofList] at hmem
  simpa using Text.eq_false_of_mem_splitOnP hpiece '/' hmem

theorem isName_of_fileName? (h : fileName? path = some name) : IsName name := by
  have hlast : ((steps path).filter (!isIdle ·)).getLast? = some name ∧ name ≠ ".." := by
    rw [fileName?] at h
    split at h
    next => exact nomatch h
    next hup => exact ⟨h, fun hname => hup (h.trans (congrArg some hname))⟩
  obtain ⟨hmem, hidle⟩ := List.mem_filter.mp (List.mem_of_getLast? hlast.1)
  simp only [isIdle, Bool.not_eq_true', Bool.or_eq_false_iff, beq_eq_false_iff_ne] at hidle
  exact ⟨hidle.1, hidle.2, hlast.2, not_mem_of_mem_steps hmem⟩

theorem exists_fileName? {extension : String} (h : extension? path = some extension) :
    ∃ name, fileName? path = some name := by
  obtain ⟨name, hname, -⟩ := Option.bind_eq_some_iff.mp h
  exact ⟨name, hname⟩

end

/-! ## Joined paths -/

theorem isAbsolute_append {front : String} (hne : front.isEmpty = false) (back : String) :
    isAbsolute (front ++ back) = isAbsolute front := by
  have hletters : front.toList ≠ [] := by simpa using hne
  obtain ⟨c, cs, hcs⟩ := List.exists_cons_of_ne_nil hletters
  rw [isAbsolute, isAbsolute, String.toList_append, hcs]
  rfl

/-- A path that does not start anew goes on behind a slash, which may be there
    already. -/
theorem join_cases {directory path : String} (hpath : isAbsolute path = false)
    (hne : directory.isEmpty = false) :
    join directory path = directory ++ "/" ++ path ∨
      ∃ front, directory = front ++ "/" ∧ join directory path = directory ++ path := by
  rw [join, if_neg (by simp [hpath]), hne, Bool.false_or]
  split
  next hlast =>
    obtain ⟨front, hfront⟩ := List.getLast?_eq_some_iff.mp (of_decide_eq_true hlast)
    refine .inr ⟨String.ofList front, ?_, rfl⟩
    rw [← String.toList_inj, hfront]
    simp
  next => exact .inl rfl

/-! ## Where steps lead -/

section
variable {here : List String} {path : String}

theorem isIdle_eq_false {step : String} (hempty : step ≠ "") (hdot : step ≠ ".") :
    isIdle step = false := by
  simp [isIdle, hempty, hdot]

theorem foldl_follow {before down : List String}
    (hdown : ∀ step ∈ down, step ≠ "" ∧ step ≠ "." ∧ step ≠ "..") :
    down.foldl follow before = before ++ down := by
  induction down generalizing before with
  | nil => exact (List.append_nil before).symm
  | cons step down ih =>
    obtain ⟨⟨hempty, hdot, hup⟩, hdown⟩ := List.forall_mem_cons.mp hdown
    rw [List.foldl_cons, follow, isIdle_eq_false hempty hdot, if_neg Bool.false_ne_true,
      if_neg hup, ih hdown, List.append_assoc]
    rfl

theorem names_join_of_not_isAbsolute {directory : String} (hpath : isAbsolute path = false) :
    names here (join directory path) = (steps path).foldl follow (names here directory) := by
  cases hempty : directory.isEmpty with
  | true =>
    obtain rfl := String.isEmpty_iff.mp hempty
    have hjoin : join "" path = path := by
      rw [join, hpath]
      exact String.empty_append
    rw [hjoin, names, hpath]
    rfl
  | false =>
    rcases join_cases hpath hempty with hjoin | ⟨front, rfl, hjoin⟩
    · rw [hjoin, names, steps_append, String.append_assoc, isAbsolute_append hempty,
        List.foldl_append]
      rfl
    · rw [hjoin, names, names, steps_append, isAbsolute_append hempty, steps_append_slash,
        List.foldl_append, List.foldl_append]
      rfl

/-- **A path that only goes down leads below the directory** that it is joined
    to. -/
theorem names_join {directory : String} (hpath : GoesDown path) :
    names here (join directory path) = names here directory ++ steps path := by
  rw [names_join_of_not_isAbsolute hpath.not_isAbsolute, foldl_follow hpath]

/-- A path that ends by naming something leads into the directory before. -/
theorem names_eq_append
    (hname : ¬ (isIdle ((steps path).getLastD "") ||
      decide ((steps path).getLastD "" = "..")) = true) :
    names here path =
      (steps path).dropLast.foldl follow (if isAbsolute path then [] else here) ++
        [(steps path).getLastD ""] := by
  have hne : steps path ≠ [] := by
    rw [steps, Text.splitText, ne_eq, List.map_eq_nil_iff]
    exact Text.split_ne_nil _ _
  have hlast : (steps path).getLastD "" = (steps path).getLast hne := by
    rw [List.getLastD_eq_getLast?, List.getLast?_eq_some_getLast hne, Option.getD_some]
  rw [hlast] at hname ⊢
  rw [Bool.or_eq_true, decide_eq_true_eq, not_or] at hname
  conv => lhs; rw [names, ← List.dropLast_concat_getLast hne, List.foldl_append]
  rw [List.foldl_cons, List.foldl_nil, follow, if_neg hname.1, if_neg hname.2]

end

end JvmClass.Path
