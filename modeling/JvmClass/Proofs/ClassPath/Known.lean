/-
  What was found out about classes.

  * `Known.Tells`: asking about classes gives an answer that does not depend on
    what is known already, forgets nothing and finds out about some classes;
  * `Known.tells_commonSuperClass`: what two classes have in common is found out
    so, from the super classes that are known or can be looked up;
  * `Known.agrees_learn`: **answers stay**: what was asked once is answered in the
    same way later, whatever has become of the class path;
  * `Offers`: there are finitely many class files at the places of a class path
    (`ClassPath.exists_offers_ofPlaces`), so the search for super classes ends
    (`ClassPath.ends_retrieve`).
-/
import JvmClass.Proofs.ClassPath.Ancestors
import JvmClass.Proofs.ClassPath.Lookup
import JvmClass.Proofs.Files.Content
import JvmClass.Proofs.Flow.Questions

namespace JvmClass

/-! ## Searches -/

namespace Supertype

variable {supertype other : String → Supertype}

theorem Climbs.exists_append {seen found : List String} {current : String}
    (h : Climbs supertype seen current found) : ∃ rest, found = seen ++ rest := by
  induction h with
  | last | again => exact ⟨[], (List.append_nil _).symm⟩
  | @next seen current name found _ _ _ ih =>
    obtain ⟨rest, rfl⟩ := ih
    exact ⟨name :: rest, by simp⟩

theorem Climbs.nodup {seen found : List String} {current : String}
    (h : Climbs supertype seen current found) (hseen : seen.Nodup) : found.Nodup := by
  induction h with
  | last | again => exact hseen
  | next _ hnew _ ih =>
    refine ih (List.nodup_append.mpr ⟨hseen, List.nodup_singleton _, ?_⟩)
    rintro a ha b hb rfl
    exact hnew (List.mem_singleton.mp hb ▸ ha)

/-- A limit that is as large as what the search finds is large enough. -/
theorem Climbs.lineage_eq {seen found : List String} {current : String}
    (h : Climbs supertype seen current found) {limit : Nat}
    (hlimit : found.length ≤ limit + seen.length) : lineage supertype limit seen current = found := by
  induction h generalizing limit with
  | last hlast =>
    cases limit with
    | zero => rfl
    | succ limit => rw [lineage_succ, hlast]
  | again hname hseen =>
    cases limit with
    | zero => rfl
    | succ limit => rw [lineage_succ, hname]; exact if_pos (by simpa using hseen)
  | next hname hnew hrest ih =>
    cases limit with
    | zero =>
      obtain ⟨rest, rfl⟩ := hrest.exists_append
      simp only [List.length_append, List.length_singleton] at hlimit
      omega
    | succ limit =>
      rw [lineage_succ, hname]
      refine (if_neg (by simpa using hnew)).trans (ih ?_)
      rw [List.length_append, List.length_singleton]
      omega

theorem Climbs.congr {seen found : List String} {current : String}
    (h : Climbs supertype seen current found) (hcurrent : other current = supertype current)
    (hsame : ∀ name ∈ found, name ∉ seen → other name = supertype name) :
    Climbs other seen current found := by
  induction h with
  | last hlast => exact .last (hcurrent ▸ hlast)
  | again hname hseen => exact .again (by rwa [Extends, hcurrent]) hseen
  | @next seen current name found hname hnew hrest ih =>
    obtain ⟨rest, rfl⟩ := hrest.exists_append
    refine .next (by rwa [Extends, hcurrent]) hnew (ih (hsame name (by simp) hnew) fun c hc hnot => ?_)
    exact hsame c hc fun hmem => hnot (List.mem_append_left _ hmem)

/-- The search for super classes ends before the limit. -/
def Ends (supertype : String → Supertype) (limit : Nat) : Prop :=
  ∀ name, Climbs supertype [name] name (lineage supertype limit [name] name) ∧
    (lineage supertype limit [name] name).length ≤ limit

/-- **The search for super classes ends** if only finitely many classes are
    extended. -/
theorem ends_of_pool {pool : List String} {limit : Nat}
    (hpool : ∀ {name above}, Extends supertype name above → above ∈ pool) (hlimit : pool.length < limit) :
    Ends supertype limit := by
  intro name
  have hclimbs := climbs_lineage hpool hlimit name
  refine ⟨hclimbs, ?_⟩
  have hsubset : lineage supertype limit [name] name ⊆ name :: pool := by
    intro c hc
    rcases Relation.ReflTransGen.cases_tail ((hclimbs.found_of_start.mem_iff c).mp hc) with
      rfl | ⟨below, -, hbelow⟩
    · exact .head _
    · exact .tail _ (hpool hbelow)
  have hle := (List.subperm_of_subset (hclimbs.nodup (List.nodup_singleton name)) hsubset).length_le
  rw [List.length_cons] at hle
  omega

/-- The classes that are asked about to find out what two classes have in
    common. -/
def Asks (supertype : String → Supertype) (limit : Nat) (left right name : String) : Prop :=
  name = left ∨ (supertype left).isInterface = false ∧ (name = right ∨
    (supertype right).isInterface = false ∧
      (name ∈ lineage supertype limit [right] right ∨ name ∈ lineage supertype limit [left] left))

/-- **What two classes have in common depends on the classes that are asked
    about.** -/
theorem commonOf_congr {limit limit' : Nat} (hends : Ends supertype limit) {left right : String}
    (hsame : ∀ name, Asks supertype limit left right name → other name = supertype name)
    (hlimit : ∀ name, (∀ c ∈ lineage supertype limit [name] name, Asks supertype limit left right c) →
      (lineage supertype limit [name] name).length ≤ limit') :
    commonOf other limit' left right = commonOf supertype limit left right := by
  have hancestors {name : String}
      (hall : ∀ c ∈ lineage supertype limit [name] name, Asks supertype limit left right c) :
      ancestorsOf other limit' name = ancestorsOf supertype limit name := by
    obtain ⟨hclimbs, -⟩ := hends name
    have hname : name ∈ lineage supertype limit [name] name :=
      (hclimbs.found_of_start.mem_iff name).mpr .refl
    have hlineage : lineage other limit' [name] name = lineage supertype limit [name] name :=
      (hclimbs.congr (hsame name (hall name hname)) fun c hc _ => hsame c (hall c hc)).lineage_eq
        (Nat.le_add_right_of_le (hlimit name hall))
    rw [ancestorsOf_eq, ancestorsOf_eq, hlineage]
  rw [commonOf_eq, commonOf_eq, hsame left (.inl rfl)]
  split
  next => rfl
  next hleft =>
    have hleft : (supertype left).isInterface = false := Bool.eq_false_iff.mpr hleft
    rw [hsame right (.inr ⟨hleft, .inl rfl⟩)]
    split
    next => rfl
    next hright =>
      have hright : (supertype right).isInterface = false := Bool.eq_false_iff.mpr hright
      rw [hancestors fun c hc => .inr ⟨hleft, .inr ⟨hright, .inr hc⟩⟩,
        hancestors fun c hc => .inr ⟨hleft, .inr ⟨hright, .inl hc⟩⟩]

end Supertype

open Supertype

/-! ## Asking -/

namespace Known

/-- Whatever is known is known later. -/
def Within (known later : Known) : Prop :=
  ∀ name found, known.lookup name = some found → later.lookup name = some found

theorem Within.refl (known : Known) : known.Within known := fun _ _ h => h

theorem Within.trans {known later last : Known} (h : known.Within later) (h' : later.Within last) :
    known.Within last :=
  fun name found hfound => h' name found (h name found hfound)

/-- Later, `asked` is known as well.  What can be retrieved stays the same. -/
structure Learned (path : ClassPath) (supertype : String → Supertype) (known later : Known)
    (asked : String → Prop) : Prop where
  retrieve : later.retrieve path = supertype
  kept : known.Within later
  found : ∀ name, asked name → (later.lookup name).isSome

namespace Learned

variable {path : ClassPath} {supertype : String → Supertype} {known later last : Known}
  {asked asked' : String → Prop}

theorem mono (h : Learned path supertype known later asked) (hasked : ∀ name, asked' name → asked name) :
    Learned path supertype known later asked' :=
  { h with found := fun name hname => h.found name (hasked name hname) }

theorem trans (h : Learned path supertype known later asked)
    (h' : Learned path supertype later last asked') :
    Learned path supertype known last fun name => asked name ∨ asked' name where
  retrieve := h'.retrieve
  kept := h.kept.trans h'.kept
  found := by
    rintro name (hname | hname)
    · obtain ⟨found, hfound⟩ := Option.isSome_iff_exists.mp (h.found name hname)
      exact Option.isSome_iff_exists.mpr ⟨found, h'.kept name found hfound⟩
    · exact h'.found name hname

/-- What was asked about is known as what it was retrieved as. -/
theorem lookup_eq (h : Learned path supertype known later asked) {name : String} (hname : asked name) :
    later.lookup name = some (supertype name) := by
  obtain ⟨found, hfound⟩ := Option.isSome_iff_exists.mp (h.found name hname)
  rw [← h.retrieve, Known.retrieve, hfound, Option.getD_some]

end Learned

/-- Where `supertype` can be retrieved, the answer is `a`, and `asked` is known
    after that. -/
def Tells (path : ClassPath) (supertype : String → Supertype) {α : Type} (ask : StateM Known α)
    (a : α) (asked : String → Prop) : Prop :=
  ∀ known : Known, known.retrieve path = supertype →
    (ask.run known).1 = a ∧ Learned path supertype known (ask.run known).2 asked

variable {path : ClassPath} {supertype : String → Supertype} {α β : Type}

theorem Tells.pure (a : α) : Tells path supertype (pure a) a fun _ => False :=
  fun known h => ⟨rfl, h, .refl known, nofun⟩

theorem Tells.bind {ask : StateM Known α} {more : α → StateM Known β} {a : α} {b : β}
    {asked asked' wanted : String → Prop} (h : Tells path supertype ask a asked)
    (hmore : Tells path supertype (more a) b asked')
    (hwanted : ∀ name, wanted name → asked name ∨ asked' name) :
    Tells path supertype (ask >>= more) b wanted := by
  intro known hknown
  obtain ⟨hanswer, hlearned⟩ := h known hknown
  obtain ⟨hrest, hmore⟩ := hmore _ hlearned.retrieve
  rw [← hanswer] at hrest hmore
  exact ⟨hrest, (hlearned.trans hmore).mono hwanted⟩

theorem run_supertype (name : String) (known : Known) :
    (Known.supertype path name).run known = match known.lookup name with
      | some supertype => (supertype, known)
      | none => (path.supertype name, (name, path.supertype name) :: known) := by
  change (match known.lookup name with
    | some supertype => _
    | none => _ : StateM Known Supertype).run known = _
  cases known.lookup name <;> rfl

theorem tells_supertype (name : String) :
    Tells path supertype (Known.supertype path name) (supertype name) (· = name) := by
  rintro known rfl
  rw [run_supertype]
  cases hlookup : known.lookup name with
  | some found =>
    refine ⟨by rw [retrieve, hlookup, Option.getD_some], rfl, .refl known, ?_⟩
    rintro _ rfl
    rw [hlookup, Option.isSome_some]
  | none =>
    refine ⟨by rw [retrieve, hlookup, Option.getD_none], ?_, fun other found hother => ?_, ?_⟩
    · funext other
      rw [retrieve, retrieve, lookup_cons_eq_ite]
      split
      next heq => rw [heq, hlookup, Option.getD_some, Option.getD_none]
      next => rfl
    · rw [lookup_cons_eq_ite, if_neg, hother]
      rintro rfl
      exact nomatch hlookup.symm.trans hother
    · rintro _ rfl
      rw [lookup_cons_eq_ite, if_pos rfl, Option.isSome_some]

theorem climb_succ (limit : Nat) (seen : List String) (current : String) :
    climb (Known.supertype path) (limit + 1) seen current = Known.supertype path current >>= fun found =>
      match found.superName with
      | none => pure seen
      | some name =>
        if seen.contains name then pure seen
        else climb (Known.supertype path) limit (seen ++ [name]) name := rfl

theorem tells_climb {limit : Nat} {seen found : List String} {current : String}
    (h : Climbs supertype seen current found) (hlimit : found.length ≤ limit + seen.length) :
    Tells path supertype (climb (Known.supertype path) (limit + 1) seen current) found
      fun name => name = current ∨ name ∈ found ∧ name ∉ seen := by
  induction h generalizing limit with
  | last hlast =>
    rw [climb_succ]
    refine (tells_supertype _).bind ?_ fun name hname => hname.imp_right fun hnew => hnew.2 hnew.1
    rw [hlast]
    exact .pure _
  | again hname hseen =>
    rw [climb_succ]
    refine (tells_supertype _).bind ?_ fun name hname => hname.imp_right fun hnew => hnew.2 hnew.1
    rw [hname]
    dsimp only
    rw [if_pos (by simpa using hseen)]
    exact .pure _
  | @next seen current name found hname hnew hrest ih =>
    obtain ⟨limit, rfl⟩ : ∃ more, limit = more + 1 := by
      obtain ⟨rest, rfl⟩ := hrest.exists_append
      simp only [List.length_append, List.length_singleton] at hlimit
      exact Nat.exists_eq_add_one.mpr (by omega)
    have hlimit : found.length ≤ limit + (seen ++ [name]).length := by
      rw [List.length_append, List.length_singleton]
      omega
    have hmore : Tells path supertype (match (supertype current).superName with
        | none => pure seen
        | some name =>
          if seen.contains name then pure seen
          else climb (Known.supertype path) (limit + 1) (seen ++ [name]) name) found
        fun c => c = name ∨ c ∈ found ∧ c ∉ seen ++ [name] := by
      rw [hname]
      dsimp only
      rw [if_neg (by simpa using hnew)]
      exact ih hlimit
    rw [climb_succ]
    refine (tells_supertype _).bind hmore ?_
    rintro c (rfl | ⟨hfound, hseen⟩)
    · exact .inl rfl
    · by_cases hc : c = name
      · exact .inr (.inl hc)
      · exact .inr (.inr ⟨hfound, by simp [hseen, hc]⟩)

theorem tells_ancestors {limit : Nat} (hends : Ends supertype limit) (name : String) :
    Tells path supertype (ancestors (Known.supertype path) limit name)
      (ancestorsOf supertype limit name) (· ∈ lineage supertype limit [name] name) := by
  obtain ⟨hclimbs, hlength⟩ := hends name
  obtain ⟨limit, rfl⟩ : ∃ more, limit = more + 1 := by
    obtain ⟨rest, hrest⟩ := hclimbs.exists_append
    rw [hrest, List.length_append, List.length_singleton] at hlength
    exact Nat.exists_eq_add_one.mpr (by omega)
  refine (tells_climb hclimbs hlength).bind (.pure _) fun c hc => .inl ?_
  by_cases hname : c = name
  · exact .inl hname
  · exact .inr ⟨hc, by simpa using hname⟩

/-- **What was asked before does not change an answer.** -/
theorem tells_commonSuperClass {limit : Nat} (hends : Ends supertype limit) (left right : String) :
    Tells path supertype (Supertype.commonSuperClass (Known.supertype path) limit left right)
      (commonOf supertype limit left right) (Asks supertype limit left right) := by
  rw [commonOf_eq]
  by_cases hleft : (supertype left).isInterface
  · refine (tells_supertype left).bind ?_ fun name hname => hname.imp_right fun h =>
      Bool.false_ne_true (h.1.symm.trans hleft)
    rw [if_pos hleft, if_pos hleft]
    exact .pure objectClass
  refine (tells_supertype left).bind ?_ fun name hname => hname.imp_right (·.2)
  rw [if_neg hleft, if_neg hleft]
  by_cases hright : (supertype right).isInterface
  · refine (tells_supertype right).bind ?_ fun name hname => hname.imp_right fun h =>
      Bool.false_ne_true (h.1.symm.trans hright)
    rw [if_pos hright, if_pos hright]
    exact .pure objectClass
  refine (tells_supertype right).bind ?_ fun name hname => hname.imp_right (·.2)
  rw [if_neg hright, if_neg hright]
  refine (tells_ancestors hends right).bind ?_ fun _ => id
  exact (tells_ancestors hends left).bind (.pure _) fun _ => .inl

theorem learned_learn {known : Known} (hends : Ends (known.retrieve path) (known.maxHeight path))
    (questions : List Question) :
    Learned path (known.retrieve path) known (known.learn path questions) fun name =>
      ∃ question ∈ questions,
        Asks (known.retrieve path) (known.maxHeight path) question.1 question.2 name := by
  -- The limit stays the one for what is known first.
  have hfold (later : Known) (hlater : later.retrieve path = known.retrieve path) :
      Learned path (known.retrieve path) later (questions.foldl (fun later question =>
        ((Supertype.commonSuperClass (Known.supertype path) (known.maxHeight path)
          question.1 question.2).run later).2) later) fun name => ∃ question ∈ questions,
            Asks (known.retrieve path) (known.maxHeight path) question.1 question.2 name := by
    induction questions generalizing later with
    | nil => exact ⟨hlater, .refl later, nofun⟩
    | cons question questions ih =>
      obtain ⟨-, hfirst⟩ := tells_commonSuperClass hends question.1 question.2 later hlater
      refine (hfirst.trans (ih _ hfirst.retrieve)).mono ?_
      rintro name ⟨other, hmem, hname⟩
      rcases List.mem_cons.mp hmem with rfl | hmem
      · exact .inl hname
      · exact .inr ⟨other, hmem, hname⟩
  exact hfold known rfl

/-- **Answers stay**: what was asked once is answered in the same way later,
    whatever has become of the class path. -/
theorem agrees_learn {known later : Known} {path path' : ClassPath} {questions : List Question}
    (hends : Ends (known.retrieve path) (known.maxHeight path))
    (h : (known.learn path questions).Within later) :
    (known.hierarchy path).Agrees (later.hierarchy path') questions := by
  intro question hquestion
  have hlearned := learned_learn hends questions
  have hlookup {name : String} (hname : Asks (known.retrieve path) (known.maxHeight path)
      question.1 question.2 name) : later.lookup name = some (known.retrieve path name) :=
    h name _ (hlearned.lookup_eq ⟨question, hquestion, hname⟩)
  refine commonOf_congr hends (fun name hname => ?_) fun name hall => ?_
  · rw [retrieve, hlookup hname, Option.getD_some]
  · -- The classes found are all different, and all of them are known later.
    have hnodup := (hends name).1.nodup (List.nodup_singleton name)
    have hsubset : lineage (known.retrieve path) (known.maxHeight path) [name] name ⊆
        later.map Prod.fst := by
      intro c hc
      obtain ⟨front, back, hsplit, -⟩ := List.lookup_eq_some_iff.mp (hlookup (hall c hc))
      rw [hsplit]
      simp
    have hle := (List.subperm_of_subset hnodup hsubset).length_le
    rw [List.length_map] at hle
    exact hle.trans (Nat.le_add_right _ _)

end Known

/-! ## Finite class paths -/

/-- Whatever is read is among `contents`, and there is no more of that than
    `capacity`. -/
structure Offers (read : Identifier → Except LoadError Bytes) (capacity : Nat)
    (contents : List Bytes) : Prop where
  length_le : contents.length ≤ capacity
  mem : ∀ {id bytes}, read id = .ok bytes → bytes ∈ contents

namespace Source

theorem offers_memory (files : List (String × Option Bytes)) :
    Offers (memory files).read (memory files).capacity (files.filterMap (·.2)) where
  length_le := List.length_filterMap_le ..
  mem {id bytes} h := by
    unfold memory at h
    dsimp only at h
    split at h
    next found hlookup =>
      cases h
      obtain ⟨front, back, rfl, -⟩ := List.lookup_eq_some_iff.mp hlookup
      exact List.mem_filterMap.mpr ⟨(id.path, some bytes), by simp, rfl⟩
    next => cases h
    next => cases h

theorem offers_below (workspace : Workspace) (path : String) :
    Offers (below workspace path).read (below workspace path).capacity
      (workspace.root.files.map Prod.snd) where
  length_le := (List.length_map _).le
  mem {id bytes} h := by
    unfold below at h
    dsimp only at h
    split at h
    next found hread =>
      cases h
      obtain ⟨node, hfind, hcontent⟩ := Result.bind_eq_ok.mp hread
      obtain ⟨names, -, hfound⟩ := Result.bind_eq_ok.mp hfind
      cases node with
      | directory entries => exact nomatch hcontent
      | file content =>
        obtain rfl := Except.ok.inj hcontent
        exact List.mem_map.mpr ⟨(names ++ [], content),
          Node.mem_files_of_has (Node.find_eq_ok.mp hfound).1 (.head []), rfl⟩
    next => cases h
    next => cases h

theorem offers_jar (archive : Jar) (bytes : Bytes) :
    Offers (jar archive bytes).read (jar archive bytes).capacity
      (archive.archive.names.filterMap fun name => (archive.content bytes name).toOption) where
  length_le := List.length_filterMap_le ..
  mem {id content} h := by
    unfold jar at h
    dsimp only at h
    split at h
    next found hcontent =>
      cases h
      refine List.mem_filterMap.mpr ⟨_, archive.archive.mem_names hcontent, ?_⟩
      rw [hcontent, Except.toOption]
    next => cases h
    next => cases h

end Source

/-- **There are finitely many classes at a place.** -/
theorem Place.exists_offers_source (workspace : Workspace) (place : Place) : ∃ contents,
    Offers (place.source workspace).read (place.source workspace).capacity contents := by
  cases place with
  | directory path => exact ⟨_, Source.offers_below workspace path⟩
  | archive path jar => exact ⟨_, Source.offers_jar jar _⟩

namespace ClassPath

theorem offers_nil : Offers (read []) (capacity []) [] where
  length_le := Nat.le_refl 0
  mem := nofun

theorem offers_cons {source : Source} {path : ClassPath} {contents more : List Bytes}
    (hsource : Offers source.read source.capacity contents)
    (hpath : Offers path.read path.capacity more) :
    Offers (read (source :: path)) (capacity (source :: path)) (contents ++ more) where
  length_le := by
    rw [List.length_append]
    exact Nat.add_le_add hsource.length_le hpath.length_le
  mem {id bytes} h := by
    rw [read] at h
    split at h
    next => exact List.mem_append_right _ (hpath.mem h)
    next => exact List.mem_append_left _ (hsource.mem h)

/-- **There are finitely many classes on a class path** that consists of places. -/
theorem exists_offers_ofPlaces (workspace : Workspace) (places : List Place) : ∃ contents,
    Offers (ofPlaces workspace places).read (ofPlaces workspace places).capacity contents := by
  induction places with
  | nil => exact ⟨[], offers_nil⟩
  | cons place places ih =>
    obtain ⟨contents, hcontents⟩ := place.exists_offers_source workspace
    obtain ⟨more, hmore⟩ := ih
    exact ⟨contents ++ more, offers_cons hcontents hmore⟩

/-- A class that is there: the class path gives its class file, which is
    well-formed and declares it. -/
def Holds (path : ClassPath) (name : String) (record : ClassRecord) : Prop :=
  ∃ id bytes, Identifier.parse name = .ok id ∧ path.read id = .ok bytes ∧
    ClassFile.decode bytes {} = .ok record ∧ record.name = id.internalName

theorem supertype_of_holds {path : ClassPath} {name : String} {record : ClassRecord}
    (h : path.Holds name record) :
    path.supertype name = ⟨record.superName, record.access.isInterface⟩ := by
  obtain ⟨id, bytes, hparse, hload⟩ := h
  have hload := load_eq_some.mpr ⟨bytes, hload⟩
  rw [supertype, hparse]
  dsimp only
  rw [hload]

/-- **Other classes count as classes directly below `java/lang/Object`.** -/
theorem supertype_of_not_holds {path : ClassPath} {name : String}
    (h : ¬ ∃ record, path.Holds name record) : path.supertype name = .unknown name := by
  rw [supertype]
  split
  next => rfl
  next id hparse =>
    split
    next record hload =>
      obtain ⟨bytes, hload⟩ := load_eq_some.mp hload
      exact absurd ⟨record, id, bytes, hparse, hload⟩ h
    next => rfl

/-- The super class that a file declares, if it is a class file. -/
def declaredSuper (bytes : Bytes) : Option String := do
  let record ← (ClassFile.decode bytes {}).toOption
  record.superName

/-- The super classes that there are, where some classes are known. -/
def superNames (known : Known) (contents : List Bytes) : List String :=
  known.filterMap (·.2.superName) ++ objectClass :: contents.filterMap declaredSuper

variable {path : ClassPath} {contents : List Bytes} (h : Offers path.read path.capacity contents)
include h

theorem mem_superNames {known : Known} {name above : String}
    (habove : Extends (known.retrieve path) name above) : above ∈ superNames known contents := by
  rw [Extends, Known.retrieve] at habove
  cases hlookup : known.lookup name with
  | some found =>
    rw [hlookup] at habove
    obtain ⟨front, back, rfl, -⟩ := List.lookup_eq_some_iff.mp hlookup
    exact List.mem_append_left _ (List.mem_filterMap.mpr ⟨(name, found), by simp, habove⟩)
  | none =>
    rw [hlookup, Option.getD_none] at habove
    by_cases hholds : ∃ record, path.Holds name record
    · obtain ⟨record, hholds⟩ := hholds
      rw [supertype_of_holds hholds] at habove
      obtain ⟨id, bytes, -, hread, hdecode, -⟩ := hholds
      refine List.mem_append_right _ (.tail _ (List.mem_filterMap.mpr ⟨bytes, h.mem hread, ?_⟩))
      simpa [declaredSuper, hdecode, Except.toOption] using habove
    · rw [supertype_of_not_holds hholds, Supertype.unknown] at habove
      split at habove
      next => exact nomatch habove
      next =>
        cases habove
        exact List.mem_append_right _ (.head _)

theorem length_superNames_lt (known : Known) :
    (superNames known contents).length < known.maxHeight path := by
  have hknown := List.length_filterMap_le (fun entry : String × Supertype => entry.2.superName) known
  have hcontents := List.length_filterMap_le declaredSuper contents
  have hlength := h.length_le
  rw [superNames, List.length_append, List.length_cons, Known.maxHeight, maxHeight]
  omega

/-- **The search for super classes ends**, whatever is known. -/
theorem ends_retrieve (known : Known) : Ends (known.retrieve path) (known.maxHeight path) :=
  ends_of_pool (mem_superNames h) (length_superNames_lt h known)

end ClassPath

end JvmClass
