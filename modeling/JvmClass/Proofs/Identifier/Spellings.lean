/-
  The ways to write a class name.

  * `Identifier.AreSegments`: what the segments of a class are like; every class
    that is named by a text has such segments (`exists_areSegments`);
  * `Identifier.internalName_ofSegments`, `binaryName_ofSegments` and
    `steps_path`: what is written has the segments of the class, so that the path
    of its class file only goes down (`goesDown_path`);
  * `Identifier.parse_of_isCore`: a spelling is read back if its core has the
    segments;
  * `Identifier.parse_binaryName_iff`: the name in programs is read back, unless
    it looks like the name of a class file.
-/
import JvmClass.Proofs.Files.Workspace
import JvmClass.Proofs.Identifier.Parsing

namespace JvmClass.Identifier

/-! ## The segments of a class -/

/-- Segments of a class: there is one, none is empty, and none has a separator
    in it. -/
structure AreSegments (segments : List (List Char)) : Prop where
  ne_nil : segments ≠ []
  filled : ∀ segment ∈ segments, segment ≠ []
  plain : ∀ segment ∈ segments, ∀ c ∈ segment, isSeparator c = false

theorem AreSegments.segments_intercalate {segs : List (List Char)} (h : AreSegments segs)
    {separator : Char} (hseparator : isSeparator separator = true) :
    segments ([separator].intercalate segs) = segs :=
  Text.splitOnP_intercalate hseparator h.ne_nil h.plain

theorem AreSegments.exists_concat {segs : List (List Char)} (h : AreSegments segs) :
    ∃ front last, segs = front ++ [last] :=
  ⟨_, _, (List.dropLast_concat_getLast h.ne_nil).symm⟩

theorem AreSegments.of_concat {front : List (List Char)} {last : List Char}
    (h : AreSegments (front ++ [last])) (hne : front ≠ []) : AreSegments front where
  ne_nil := hne
  filled segment hmem := h.filled segment (List.mem_append_left _ hmem)
  plain segment hmem := h.plain segment (List.mem_append_left _ hmem)

theorem areSegments_segments {cs : List Char} (h : ∀ segment ∈ segments cs, segment ≠ []) :
    AreSegments (segments cs) where
  ne_nil := List.splitOnP_ne_nil _ _
  filled := h
  plain _ hmem := Text.eq_false_of_mem_splitOnP hmem

/-- **Every class that is named by a text has segments.** -/
theorem exists_areSegments {text : String} {id : Identifier} (h : parse text = .ok id) :
    ∃ segs, AreSegments segs ∧ id = ofSegments segs := by
  obtain ⟨-, -, hfilled | ⟨name, hname, hsegments⟩, rfl⟩ := parse_eq_ok.mp h
  · exact ⟨_, areSegments_segments hfilled, rfl⟩
  · -- The empty segment in front is an empty package.
    have hmem : name ∈ (core text).splitOnP isSeparator := by
      rw [segments] at hsegments
      simp [hsegments]
    have hplain := Text.eq_false_of_mem_splitOnP hmem
    refine ⟨[name], ⟨List.cons_ne_nil _ _, by simpa using hname, by simpa using hplain⟩, ?_⟩
    rw [hsegments]
    rfl

/-! ## What is written -/

theorem intercalate_ne_nil {separator : List Char} {segs : List (List Char)}
    (h : AreSegments segs) : separator.intercalate segs ≠ [] := by
  obtain ⟨first, rest, rfl⟩ := List.exists_cons_of_ne_nil h.ne_nil
  obtain ⟨c, cs, rfl⟩ := List.exists_cons_of_ne_nil (h.filled first (.head _))
  rw [List.intercalate_cons_cons_left]
  exact List.cons_ne_nil _ _

/-- Letters that are no separators stay as they are when separators are
    replaced. -/
theorem map_intercalate {segs : List (List Char)} {f : Char → Char}
    (hplain : ∀ segment ∈ segs, ∀ c ∈ segment, isSeparator c = false)
    (hf : ∀ c, isSeparator c = false → f c = c) (separator : Char) :
    ([separator].intercalate segs).map f = [f separator].intercalate segs := by
  have hsegs : segs.map (List.map f) = segs := by
    refine (List.map_congr_left fun segment hmem => ?_).trans (List.map_id _)
    exact (List.map_congr_left fun c hc => hf c (hplain segment hmem c hc)).trans (List.map_id _)
  rw [Text.map_intercalate, hsegs]
  rfl

theorem dotted_intercalate {segs : List (List Char)} (h : AreSegments segs) :
    dotted (['/'].intercalate segs) = ['.'].intercalate segs := by
  refine map_intercalate h.plain (fun c hc => ?_) '/'
  rw [if_neg]
  rintro rfl
  exact nomatch hc

/-- A letter that is no dot is not put in the place of another one. -/
theorem mem_of_dotted {cs : List Char} {c : Char} (hc : c ≠ '.') (h : c ∈ dotted cs) : c ∈ cs := by
  obtain ⟨d, hd, heq⟩ := List.mem_map.mp h
  split at heq
  next => exact absurd heq.symm hc
  next => exact heq ▸ hd

theorem head?_of_dotted {cs : List Char} {c : Char} (hc : c ≠ '.')
    (h : (dotted cs).head? = some c) : cs.head? = some c := by
  rw [dotted, List.head?_map] at h
  obtain ⟨d, hd, heq⟩ := Option.map_eq_some_iff.mp h
  split at heq
  next => exact absurd heq.symm hc
  next => exact heq ▸ hd

/-- There is no package where there is only one segment. -/
theorem package_ofSegments {front : List (List Char)} {last : List Char}
    (h : AreSegments (front ++ [last])) :
    (ofSegments (front ++ [last])).package = "" ↔ front = [] := by
  rw [ofSegments_concat]
  constructor
  · intro hempty
    by_contra hne
    have hpieces : ['.'].intercalate front ≠ [] := intercalate_ne_nil (h.of_concat hne)
    exact hpieces (by simpa using congrArg String.toList hempty)
  · rintro rfl
    rfl

/-- Package and name with a separator between them, or the name alone. -/
theorem written_ofSegments {front : List (List Char)} {last : List Char}
    (h : AreSegments (front ++ [last])) (separator : List Char) :
    (if (ofSegments (front ++ [last])).package.isEmpty then String.ofList last
      else String.ofList (separator.intercalate front) ++ String.ofList separator ++
        String.ofList last) =
      String.ofList (separator.intercalate (front ++ [last])) := by
  by_cases hfront : front = []
  · subst hfront
    rw [List.nil_append, List.intercalate_singleton]
    rfl
  · have hpackage : ¬ (ofSegments (front ++ [last])).package.isEmpty = true := by
      simpa using mt (package_ofSegments h).mp hfront
    rw [if_neg hpackage, Text.intercalate_concat hfront, String.ofList_append,
      String.ofList_append]

theorem binaryName_ofSegments {segs : List (List Char)} (h : AreSegments segs) :
    (ofSegments segs).binaryName = String.ofList (['.'].intercalate segs) := by
  obtain ⟨front, last, rfl⟩ := h.exists_concat
  rw [← written_ofSegments h, binaryName, ofSegments_concat]

theorem internalName_ofSegments {segs : List (List Char)} (h : AreSegments segs) :
    (ofSegments segs).internalName = String.ofList (['/'].intercalate segs) := by
  obtain ⟨front, last, rfl⟩ := h.exists_concat
  have hslashes : (['.'].intercalate front).map (fun c => if c = '.' then '/' else c) =
      ['/'].intercalate front := by
    refine map_intercalate (fun segment hmem => h.plain segment (List.mem_append_left _ hmem))
      (fun c hc => ?_) '.'
    rw [if_neg]
    rintro rfl
    exact nomatch hc
  rw [← written_ofSegments h, internalName, ofSegments_concat, String.toList_ofList, hslashes]

theorem intercalate_concat_append (separator : List Char) (front : List (List Char))
    (last tail : List Char) :
    separator.intercalate (front ++ [last]) ++ tail =
      separator.intercalate (front ++ [last ++ tail]) := by
  by_cases hfront : front = []
  · simp [hfront, List.intercalate_singleton]
  · rw [Text.intercalate_concat hfront, Text.intercalate_concat hfront, List.append_assoc]

theorem toList_path {front : List (List Char)} {last : List Char}
    (h : AreSegments (front ++ [last])) :
    (ofSegments (front ++ [last])).path.toList =
      ['/'].intercalate (front ++ [last ++ extension]) := by
  rw [path, internalName_ofSegments h, String.toList_append, String.toList_ofList]
  exact intercalate_concat_append ..

/-- **The steps to a class file** are the segments of the class. -/
theorem steps_path {front : List (List Char)} {last : List Char}
    (h : AreSegments (front ++ [last])) :
    Path.steps (ofSegments (front ++ [last])).path =
      (front ++ [last ++ extension]).map String.ofList := by
  have hslash : ∀ segment ∈ front ++ [last ++ extension], '/' ∉ segment := by
    have hplain : ∀ segment ∈ front ++ [last], '/' ∉ segment :=
      fun segment hmem hc => nomatch h.plain segment hmem _ hc
    rw [List.forall_mem_append, List.forall_mem_singleton] at hplain ⊢
    exact ⟨hplain.1, fun hc => (List.mem_append.mp hc).elim hplain.2 (by decide)⟩
  have hne : front ++ [last ++ extension] ≠ [] :=
    List.append_ne_nil_of_right_ne_nil _ (List.cons_ne_nil _ _)
  rw [Path.steps, Text.splitText, Text.split_eq_splitOn, toList_path h,
    List.splitOn_intercalate '/' hslash hne]

/-- **The steps to a class file go down** from where they begin. -/
theorem goesDown_path {text : String} {id : Identifier} (h : parse text = .ok id) :
    Path.GoesDown id.path := by
  obtain ⟨segs, hsegs, rfl⟩ := exists_areSegments h
  obtain ⟨front, last, rfl⟩ := hsegs.exists_concat
  intro step hstep
  rw [steps_path hsegs] at hstep
  obtain ⟨segment, hsegment, rfl⟩ := List.mem_map.mp hstep
  rcases List.mem_append.mp hsegment with hfront | hlast
  · have hfront : segment ∈ front ++ [last] := List.mem_append_left _ hfront
    obtain ⟨c, cs, rfl⟩ := List.exists_cons_of_ne_nil (hsegs.filled segment hfront)
    refine Path.leadsDown_of_mem (.head _) ?_
    rintro rfl
    exact nomatch hsegs.plain _ hfront _ (.head _)
  · obtain rfl := List.mem_singleton.mp hlast
    have hletter : 'c' ∈ last ++ extension := List.mem_append_right _ (by decide)
    exact Path.leadsDown_of_mem hletter (by decide)

/-! ## Reading what is written -/

theorem unextended_self {cs : List Char} (h : '.' ∉ cs) : Unextended cs cs := by
  refine .inr ⟨rfl, ?_⟩
  rintro front rfl
  exact h (List.mem_append_right _ (by decide))

/-- Of a text that is not that of an array or a reference, only the extension
    goes. -/
theorem isCore_of_unextended {text : String} {core : List Char}
    (hhead : text.toList.head? ≠ some '[') (hend : ';' ∉ text.toList)
    (h : Unextended text.toList core) : IsCore text core := by
  refine ⟨text.toList, text.toList, ⟨0, rfl, hhead⟩, .inr ⟨rfl, fun inner hinner => hend ?_⟩, h⟩
  rw [hinner]
  simp

/-- **A spelling is read back** if its core has the segments of the class. -/
theorem parse_of_isCore {text : String} {core : List Char} {segs : List (List Char)}
    (hcore : IsCore text core) (hsegs : AreSegments segs) (hcut : segments core = segs)
    (hend : ';' ∉ core) : parse text = .ok (ofSegments segs) := by
  obtain rfl := isCore_iff.mp hcore
  subst hcut
  refine parse_eq_ok.mpr ⟨?_, hend, .inl hsegs.filled, rfl⟩
  intro hempty
  rw [hempty] at hsegs
  exact hsegs.filled [] (.head _) rfl

/-- A name inside class files: segments with slashes between them, without dots
    and `;`, that does not look like that of an array. -/
structure IsInternalName (name : String) : Prop where
  filled : ∀ segment ∈ name.toList.splitOn '/', segment ≠ []
  dotless : '.' ∉ name.toList
  endless : ';' ∉ name.toList
  unbracketed : name.toList.head? ≠ some '['

namespace IsInternalName

variable {name : String}

theorem ne_nil (h : IsInternalName name) : name.toList ≠ [] := by
  intro hempty
  refine h.filled [] ?_ rfl
  rw [hempty]
  exact .head _

theorem segments_toList (h : IsInternalName name) :
    segments name.toList = name.toList.splitOn '/' := by
  have hdotless := h.dotless
  generalize name.toList = cs at hdotless
  induction cs with
  | nil => rfl
  | cons c cs ih =>
    rw [List.mem_cons, not_or] at hdotless
    have hc : isSeparator c = (c == '/') := by
      rw [isSeparator, beq_eq_false_iff_ne.mpr (Ne.symm hdotless.1), Bool.or_false]
    rw [segments, List.splitOnP_cons_eq_if_modifyHead, List.splitOn_cons_eq_if_modifyHead, hc]
    rw [← ih hdotless.2, segments]

theorem areSegments (h : IsInternalName name) : AreSegments (segments name.toList) := by
  refine areSegments_segments ?_
  rw [h.segments_toList]
  exact h.filled

theorem intercalate_segments (h : IsInternalName name) :
    ['/'].intercalate (segments name.toList) = name.toList := by
  rw [h.segments_toList, List.intercalate_splitOn]

/-! The spellings of the name have it as their core. -/

theorem isCore_self (h : IsInternalName name) : IsCore name name.toList :=
  isCore_of_unextended h.unbracketed h.endless (unextended_self h.dotless)

theorem isCore_file (h : IsInternalName name) : IsCore (name ++ ".class") name.toList := by
  have hletters : (name ++ ".class").toList = name.toList ++ extension := String.toList_append
  refine isCore_of_unextended ?_ ?_ (.inl hletters)
  · obtain ⟨c, cs, hcs⟩ := List.exists_cons_of_ne_nil h.ne_nil
    have hhead := h.unbracketed
    rw [hcs] at hletters hhead
    rw [hletters]
    exact hhead
  · rw [hletters]
    exact fun hc => (List.mem_append.mp hc).elim h.endless (by decide)

/-- A reference to the class, or to arrays of it with `n` dimensions. -/
theorem isCore_reference (h : IsInternalName name) (n : Nat) :
    IsCore (String.ofList (List.replicate n '[') ++ "L" ++ name ++ ";") name.toList := by
  refine ⟨'L' :: name.toList ++ [';'], _, ⟨n, by simp, ?_⟩, .inl rfl, unextended_self h.dotless⟩
  exact mt Option.some.inj (by decide)

end IsInternalName

/-- Segments before the last one, which is `class`, look like the name of a
    class file. -/
theorem intercalate_concat_class {front : List (List Char)} (hne : front ≠ []) :
    ['.'].intercalate (front ++ ["class".toList]) = ['.'].intercalate front ++ extension := by
  rw [Text.intercalate_concat hne, List.append_assoc]
  rfl

theorem unextended_intercalate {front : List (List Char)} {last : List Char}
    (h : AreSegments (front ++ [last])) (hclass : ¬ (front ≠ [] ∧ last = "class".toList)) :
    Unextended (['.'].intercalate (front ++ [last])) (['.'].intercalate (front ++ [last])) := by
  refine .inr ⟨rfl, fun before hbefore => hclass ?_⟩
  have hcut : segments (['.'].intercalate (front ++ [last])) = front ++ [last] :=
    h.segments_intercalate rfl
  have hsplit : segments (before ++ extension) = segments before ++ ["class".toList] :=
    List.splitOnP_append_cons before "class".toList rfl
  rw [hbefore, hsplit] at hcut
  obtain ⟨hfront, hlast⟩ := List.append_inj' hcut rfl
  exact ⟨hfront ▸ List.splitOnP_ne_nil _ _, (List.singleton_inj.mp hlast).symm⟩

/-- **The name in programs is read back**, unless there is a package and the
    name is `class`: then it is read as the name of a class file. -/
theorem parse_binaryName_iff {segs : List (List Char)} (h : AreSegments segs)
    (hhead : (['.'].intercalate segs).head? ≠ some '[') (hend : ';' ∉ ['.'].intercalate segs) :
    parse (ofSegments segs).binaryName = .ok (ofSegments segs) ↔
      ¬ ((ofSegments segs).package ≠ "" ∧ (ofSegments segs).name = "class") := by
  obtain ⟨front, last, rfl⟩ := h.exists_concat
  have hname : (ofSegments (front ++ [last])).name = "class" ↔ last = "class".toList := by
    rw [ofSegments_concat]
    exact ⟨fun h => String.toList_ofList.symm.trans (congrArg String.toList h), fun h => h ▸ rfl⟩
  rw [Ne, package_ofSegments h, hname, binaryName_ofSegments h]
  have hcore {core : List Char}
      (hextended : Unextended (['.'].intercalate (front ++ [last])) core) :
      IsCore (String.ofList (['.'].intercalate (front ++ [last]))) core := by
    refine isCore_of_unextended ?_ ?_ ?_
    all_goals rwa [String.toList_ofList]
  by_cases hclass : front ≠ [] ∧ last = "class".toList
  · refine iff_of_false (fun hback => ?_) (not_not.mpr hclass)
    obtain ⟨hfront, rfl⟩ := hclass
    have hfile := intercalate_concat_class hfront
    have hread := parse_of_isCore (hcore (.inl hfile)) (h.of_concat hfront)
      ((h.of_concat hfront).segments_intercalate rfl)
      (fun hc => hend (hfile ▸ List.mem_append_left _ hc))
    -- Both classes would be written alike.
    have hwritten := congrArg binaryName (Except.ok.inj (hread.symm.trans hback))
    rw [binaryName_ofSegments h, binaryName_ofSegments (h.of_concat hfront), hfile] at hwritten
    have hnone := List.self_eq_append_right.mp (String.ofList_injective hwritten)
    exact absurd hnone (by decide)
  · exact iff_of_true (parse_of_isCore (hcore (unextended_intercalate h hclass)) h
      (h.segments_intercalate rfl) hend) hclass

/-- **All spellings of a name are spellings of one class**: the name inside class
    files, that of its class file, and descriptors of references to it or to
    arrays of it.  What is written of the class is that name and the path of its
    class file, which is read back, as is the name in programs unless there is a
    package and the class is called `class`.  The path of any class that a text
    names only goes down, so that it leads to nothing that is not below the
    directory where it starts. -/
theorem parse_spellings :
    (∀ name, IsInternalName name → ∃ id, parse name = .ok id ∧
      parse (name ++ ".class") = .ok id ∧
      (∀ n, parse (String.ofList (List.replicate n '[') ++ "L" ++ name ++ ";") = .ok id) ∧
      id.internalName = name ∧ id.path = name ++ ".class" ∧ parse id.path = .ok id ∧
      (parse id.binaryName = .ok id ↔ ¬ (id.package ≠ "" ∧ id.name = "class"))) ∧
    ∀ text id, parse text = .ok id → Path.isAbsolute id.path = false ∧
      (∀ step ∈ Path.steps id.path, step ≠ "" ∧ step ≠ "." ∧ step ≠ "..") ∧
      ∀ (workspace : Workspace) (directory : String) (node : Node),
        workspace.find directory = .ok node →
          workspace.find (Path.join directory id.path) =
            if Path.canLead (Path.join directory id.path) then node.find (Path.steps id.path)
            else .error .notAName := by
  constructor
  · intro name hname
    have hsegs := hname.areSegments
    have hread {text : String} (hcore : IsCore text name.toList) :
        parse text = .ok (ofSegments (segments name.toList)) :=
      parse_of_isCore hcore hsegs rfl hname.endless
    have hinternal : (ofSegments (segments name.toList)).internalName = name := by
      rw [internalName_ofSegments hsegs, hname.intercalate_segments, String.ofList_toList]
    have hpath : (ofSegments (segments name.toList)).path = name ++ ".class" := by
      rw [path, hinternal]
    refine ⟨_, hread hname.isCore_self, hread hname.isCore_file,
      fun n => hread (hname.isCore_reference n), hinternal, hpath, ?_, ?_⟩
    · rw [hpath]
      exact hread hname.isCore_file
    · have hdotted : ['.'].intercalate (segments name.toList) = dotted name.toList := by
        rw [← dotted_intercalate hsegs, hname.intercalate_segments]
      refine parse_binaryName_iff hsegs ?_ ?_
      · rw [hdotted]
        exact fun hhead => hname.unbracketed (head?_of_dotted (by decide) hhead)
      · rw [hdotted]
        exact fun hend => hname.endless (mem_of_dotted (by decide) hend)
  · intro text id hparse
    have hdown := goesDown_path hparse
    exact ⟨hdown.not_isAbsolute, hdown, fun _ _ _ hnode => Workspace.find_join hnode hdown⟩

/-- Files, with a class called `class` below `lib`. -/
def fileOfClass : Workspace where
  root := .directory [("lib", .directory [("L", .directory [("class.class", .file [1])])])]
  here := []

/-- A class that is called `class`, in a package that begins like a reference: it
    is read from its descriptor and from the path of its class file, which leads
    there, but not from its name in programs. -/
theorem parse_spellings_class :
    IsInternalName "L/class" ∧ parse "[[LL/class;" = .ok ⟨"L", "class"⟩ ∧
      parse "L/class.class" = .ok ⟨"L", "class"⟩ ∧ parse "L.class" ≠ .ok ⟨"L", "class"⟩ ∧
      (∃ node, fileOfClass.find "/lib/" = .ok node) ∧
      fileOfClass.find (Path.join "/lib/" "L/class.class") = .ok (.file [1]) := by
  have hname : IsInternalName "L/class" := by
    constructor <;> decide
  have hself : parse "L/class" = .ok ⟨"L", "class"⟩ := by rfl
  obtain ⟨id, hread, hfile, hreference, -, hpath, -, hbinary⟩ := parse_spellings.1 "L/class" hname
  obtain rfl := Except.ok.inj (hread.symm.trans hself)
  obtain ⟨-, -, hbelow⟩ := parse_spellings.2 "L/class" _ hself
  have hroot : fileOfClass.find "/lib/" =
      .ok (.directory [("L", .directory [("class.class", .file [1])])]) := by rfl
  refine ⟨hname, hreference 2, hfile, mt hbinary.mp (by decide), ⟨_, hroot⟩, ?_⟩
  exact (hbelow _ _ _ hroot).trans rfl

end JvmClass.Identifier
