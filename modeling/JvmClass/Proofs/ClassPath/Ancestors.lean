/-
  The super classes of a class.

  * `Supertype.Climbs` is the search for super classes without a limit: it ends
    where there is no super class, or where one comes again;
  * `Supertype.climbs_lineage`: where only finitely many classes are super
    classes, the search with a large enough limit is the one without;
  * `Supertype.mem_ancestorsOf`: what is found are the classes above a class, and
    `java/lang/Object`, each below those behind it (`pairwise_ancestorsOf`);
  * `Supertype.above_commonOf`: the first class that two searches have in common
    is above both classes, and the closest one (`above_commonOf_of_above`); where
    no class is above itself, their order does not matter (`commonOf_comm`).
-/
import JvmClass.ClassPath.Hierarchy
import Mathlib.Data.List.Nodup
import Mathlib.Data.List.Perm.Subperm
import Mathlib.Logic.Relation

namespace JvmClass.Supertype

/-! ## The search for super classes -/

section
variable (supertype : String → Supertype)

/-- `above` is the super class of `name`. -/
def Extends (name above : String) : Prop := (supertype name).superName = some above

/-- The search for the super classes of `current`, without a limit, where
    `seen` were found so far. -/
inductive Climbs : (seen : List String) → (current : String) → (found : List String) → Prop
  | last {seen current} (h : (supertype current).superName = none) : Climbs seen current seen
  | again {seen current name} (h : Extends supertype current name) (hseen : name ∈ seen) :
    Climbs seen current seen
  | next {seen current name found} (h : Extends supertype current name) (hnew : name ∉ seen)
      (hrest : Climbs (seen ++ [name]) name found) : Climbs seen current found

/-- The search with a limit. -/
def lineage (limit : Nat) (seen : List String) (current : String) : List String :=
  Id.run (climb (fun name => pure (supertype name)) limit seen current)

/-- A class, its super classes and `java/lang/Object`. -/
def ancestorsOf (limit : Nat) (name : String) : List String :=
  Id.run (ancestors (fun name => pure (supertype name)) limit name)

/-- The first class, from `left` upwards, that `right` is or descends from. -/
def commonOf (limit : Nat) (left right : String) : String :=
  Id.run (commonSuperClass (fun name => pure (supertype name)) limit left right)

/-- A class is above itself and the classes that extend it, and
    `java/lang/Object` is above all. -/
def Above (above name : String) : Prop :=
  Relation.ReflTransGen (Extends supertype) name above ∨ above = objectClass

end

variable {supertype : String → Supertype}

theorem Extends.unique {name above other : String} (h : Extends supertype name above)
    (h' : Extends supertype name other) : above = other :=
  Option.some.inj (h.symm.trans h')

theorem Climbs.unique {seen found other : List String} {current : String}
    (h : Climbs supertype seen current found) (h' : Climbs supertype seen current other) :
    found = other := by
  induction h with
  | last h =>
    cases h' with
    | last => rfl
    | again h' | next h' => exact nomatch h.symm.trans h'
  | again h hseen =>
    cases h' with
    | last h' => exact nomatch h.symm.trans h'
    | again => rfl
    | next h' hnew => exact absurd (h.unique h' ▸ hseen) hnew
  | next h hnew _ ih =>
    cases h' with
    | last h' => exact nomatch h.symm.trans h'
    | again h' hseen => exact absurd (h'.unique h ▸ hseen) hnew
    | next h' _ hrest => exact ih (h'.unique h ▸ hrest)

theorem lineage_succ (limit : Nat) (seen : List String) (current : String) :
    lineage supertype (limit + 1) seen current =
      match (supertype current).superName with
      | none => seen
      | some name =>
        if seen.contains name then seen else lineage supertype limit (seen ++ [name]) name := by
  change Id.run (match (supertype current).superName with
    | none => pure seen
    | some name => if seen.contains name then pure seen else _) = _
  cases (supertype current).superName with
  | none => rfl
  | some name => exact apply_ite Id.run ..

/-- A search that has found more classes than there are super classes has
    ended. -/
theorem climbs_lineage_of_subset {pool : List String} {first : String}
    (hpool : ∀ {name above}, Extends supertype name above → above ∈ pool) {limit : Nat}
    {seen : List String} {current : String} (hnodup : seen.Nodup) (hseen : seen ⊆ first :: pool)
    (hlimit : pool.length + 2 ≤ limit + seen.length) :
    Climbs supertype seen current (lineage supertype limit seen current) := by
  induction limit generalizing seen current with
  | zero =>
    have hle := (List.subperm_of_subset hnodup hseen).length_le
    rw [List.length_cons] at hle
    omega
  | succ limit ih =>
    rw [lineage_succ]
    split
    next hlast => exact .last hlast
    next name hname =>
      split
      next hagain => exact .again hname (by simpa using hagain)
      next hnew =>
        have hnew : name ∉ seen := by simpa using hnew
        refine .next hname hnew (ih ?_ ?_ ?_)
        · exact List.nodup_append.mpr ⟨hnodup, List.nodup_singleton name, by
            rintro a ha b hb rfl
            exact hnew (List.mem_singleton.mp hb ▸ ha)⟩
        · refine List.append_subset.mpr ⟨hseen, ?_⟩
          rintro _ hmem
          rw [List.mem_singleton.mp hmem]
          exact .tail _ (hpool hname)
        · rw [List.length_append, List.length_singleton]
          omega

/-- **The search for super classes ends**, also where classes extend each
    other, if only finitely many classes are extended. -/
theorem climbs_lineage {pool : List String}
    (hpool : ∀ {name above}, Extends supertype name above → above ∈ pool) {limit : Nat}
    (hlimit : pool.length < limit) (name : String) :
    Climbs supertype [name] name (lineage supertype limit [name] name) :=
  climbs_lineage_of_subset hpool (List.nodup_singleton name) (List.cons_subset_cons name nofun)
    (by rw [List.length_singleton]; omega)

/-! ## What is found -/

/-- The classes `seen` on the way up to `current`: each is below those behind
    it, and the super classes of all but the last are there. -/
structure Trail (supertype : String → Supertype) (seen : List String) (current : String) : Prop where
  mem : current ∈ seen
  ordered : seen.Pairwise (Relation.ReflTransGen (Extends supertype))
  below : ∀ c ∈ seen, Relation.ReflTransGen (Extends supertype) c current
  closed : ∀ c ∈ seen, c ≠ current → ∀ above, Extends supertype c above → above ∈ seen

theorem Trail.start (name : String) : Trail supertype [name] name where
  mem := .head _
  ordered := List.pairwise_singleton ..
  below _ hc := List.mem_singleton.mp hc ▸ .refl
  closed _ hc hne := absurd (List.mem_singleton.mp hc) hne

theorem Trail.next {seen : List String} {current name : String} (h : Trail supertype seen current)
    (hname : Extends supertype current name) : Trail supertype (seen ++ [name]) name where
  mem := List.mem_append_right _ (.head _)
  ordered := by
    refine List.pairwise_append.mpr ⟨h.ordered, List.pairwise_singleton .., ?_⟩
    intro c hc _ hlast
    rw [List.mem_singleton.mp hlast]
    exact (h.below c hc).tail hname
  below c hc := by
    rcases List.mem_append.mp hc with hc | hc
    · exact (h.below c hc).tail hname
    · rw [List.mem_singleton.mp hc]
  closed c hc hne above habove := by
    rcases List.mem_append.mp hc with hc | hc
    · by_cases heq : c = current
      · subst heq
        rw [habove.unique hname]
        exact List.mem_append_right _ (.head _)
      · exact List.mem_append_left _ (h.closed c hc heq above habove)
    · exact absurd (List.mem_singleton.mp hc) hne

/-- What a search finds: the classes from the first one upwards, each below
    those behind it. -/
structure Found (supertype : String → Supertype) (name : String) (found : List String) : Prop where
  mem_iff : ∀ c, c ∈ found ↔ Relation.ReflTransGen (Extends supertype) name c
  ordered : found.Pairwise (Relation.ReflTransGen (Extends supertype))

theorem Climbs.found {name current : String} {seen found : List String}
    (h : Climbs supertype seen current found) (htrail : Trail supertype seen current)
    (hname : name ∈ seen) (habove : ∀ c ∈ seen, Relation.ReflTransGen (Extends supertype) name c) :
    Found supertype name found := by
  -- Once the last class has no super class that is new, everything above is there.
  have hdone {seen : List String} {current : String} (htrail : Trail supertype seen current)
      (hname : name ∈ seen) (habove : ∀ c ∈ seen, Relation.ReflTransGen (Extends supertype) name c)
      (hlast : ∀ above, Extends supertype current above → above ∈ seen) :
      Found supertype name seen := by
    refine ⟨fun c => ⟨habove c, fun hc => ?_⟩, htrail.ordered⟩
    induction hc with
    | refl => exact hname
    | @tail b c _ hstep ih =>
      by_cases heq : b = current
      · exact hlast c (heq ▸ hstep)
      · exact htrail.closed b ih heq c hstep
  induction h with
  | last h => exact hdone htrail hname habove fun above hup => nomatch h.symm.trans hup
  | again h hseen => exact hdone htrail hname habove fun above hup => hup.unique h ▸ hseen
  | next h _ _ ih =>
    refine ih (htrail.next h) (List.mem_append_left _ hname) fun c hc => ?_
    rcases List.mem_append.mp hc with hc | hc
    · exact habove c hc
    · rw [List.mem_singleton.mp hc]
      exact (habove _ htrail.mem).tail h

/-- **A search finds the classes above the first one.** -/
theorem Climbs.found_of_start {name : String} {found : List String}
    (h : Climbs supertype [name] name found) : Found supertype name found :=
  h.found (.start name) (.head _) fun _ hc => List.mem_singleton.mp hc ▸ .refl

theorem ancestorsOf_eq (limit : Nat) (name : String) :
    ancestorsOf supertype limit name =
      if (lineage supertype limit [name] name).getLast? = some objectClass then
        lineage supertype limit [name] name
      else lineage supertype limit [name] name ++ [objectClass] := rfl

section
variable {pool : List String} {limit : Nat}
  (hpool : ∀ {name above}, Extends supertype name above → above ∈ pool) (hlimit : pool.length < limit)
include hpool hlimit

/-- **The ancestors of a class are the classes above it.** -/
theorem mem_ancestorsOf {name c : String} :
    c ∈ ancestorsOf supertype limit name ↔ Above supertype c name := by
  have hfound := (climbs_lineage hpool hlimit name).found_of_start
  rw [ancestorsOf_eq, Above, ← hfound.mem_iff]
  split
  next hlast =>
    refine ⟨.inl, fun h => h.elim id ?_⟩
    rintro rfl
    exact List.mem_of_getLast? hlast
  next => simp

/-- **Ancestors stand below those behind them.** -/
theorem pairwise_ancestorsOf (name : String) :
    (ancestorsOf supertype limit name).Pairwise fun c above => Above supertype above c := by
  have hordered := (climbs_lineage hpool hlimit name).found_of_start.ordered
  have hinner : (lineage supertype limit [name] name).Pairwise
      fun c above => Above supertype above c := hordered.imp .inl
  rw [ancestorsOf_eq]
  split
  next => exact hinner
  next =>
    refine List.pairwise_append.mpr ⟨hinner, List.pairwise_singleton .., ?_⟩
    exact fun _ _ _ hlast => .inr (List.mem_singleton.mp hlast)

omit hpool hlimit in
theorem commonOf_eq (left right : String) :
    commonOf supertype limit left right =
      if (supertype left).isInterface then objectClass
      else if (supertype right).isInterface then objectClass
      else ((ancestorsOf supertype limit left).find?
        (ancestorsOf supertype limit right).contains).getD objectClass := by
  change Id.run (if (supertype left).isInterface then _ else if (supertype right).isInterface then _
    else _) = _
  rw [apply_ite Id.run, apply_ite Id.run]
  rfl

/-- **What two classes have in common is above both of them.** -/
theorem above_commonOf (left right : String) :
    Above supertype (commonOf supertype limit left right) left ∧
      Above supertype (commonOf supertype limit left right) right := by
  rw [commonOf_eq]
  split
  next => exact ⟨.inr rfl, .inr rfl⟩
  next =>
    split
    next => exact ⟨.inr rfl, .inr rfl⟩
    next =>
      cases hfind : (ancestorsOf supertype limit left).find?
          (ancestorsOf supertype limit right).contains with
      | none => exact ⟨.inr rfl, .inr rfl⟩
      | some c =>
        have hright : c ∈ ancestorsOf supertype limit right := by simpa using List.find?_some hfind
        exact ⟨(mem_ancestorsOf hpool hlimit).mp (List.mem_of_find?_eq_some hfind),
          (mem_ancestorsOf hpool hlimit).mp hright⟩

/-- **It is the closest one**, unless one of them is an interface. -/
theorem above_commonOf_of_above {left right c : String}
    (hleft : (supertype left).isInterface = false) (hright : (supertype right).isInterface = false)
    (hc : Above supertype c left) (hc' : Above supertype c right) :
    Above supertype c (commonOf supertype limit left right) := by
  rw [← mem_ancestorsOf hpool hlimit] at hc hc'
  have hcontains : (ancestorsOf supertype limit right).contains c = true := by simpa using hc'
  rw [commonOf_eq, hleft, hright, if_neg Bool.false_ne_true, if_neg Bool.false_ne_true]
  cases hfind : (ancestorsOf supertype limit left).find?
      (ancestorsOf supertype limit right).contains with
  | none => exact absurd hcontains (List.find?_eq_none.mp hfind c hc)
  | some first =>
    obtain ⟨-, before, behind, hsplit, hbefore⟩ := List.find?_eq_some_iff_append.mp hfind
    -- No class before the first one is above `right`.
    have hordered := pairwise_ancestorsOf hpool hlimit left
    rw [hsplit] at hc hordered
    rcases List.mem_append.mp hc with hmem | hmem
    · simpa [hc'] using hbefore c hmem
    · rcases List.mem_cons.mp hmem with rfl | hmem
      · exact .inl .refl
      · exact (List.pairwise_cons.mp (List.pairwise_append.mp hordered).2.1).1 c hmem

omit hpool hlimit in
/-- Two classes above each other are the same, if no class is above itself
    and `java/lang/Object` is the highest. -/
theorem Above.antisymm (hacyclic : ∀ name, ¬ Relation.TransGen (Extends supertype) name name)
    (hobject : (supertype objectClass).superName = none) {c d : String}
    (h : Above supertype c d) (h' : Above supertype d c) : c = d := by
  have htop {above : String} (h : Relation.ReflTransGen (Extends supertype) objectClass above) :
      above = objectClass := by
    rcases Relation.ReflTransGen.cases_head h with heq | ⟨next, hnext, -⟩
    · exact heq.symm
    · exact nomatch hobject.symm.trans hnext
  rcases h with h | rfl
  · rcases h' with h' | rfl
    · rcases Relation.reflTransGen_iff_eq_or_transGen.mp h with heq | h
      · exact heq
      · exact absurd (h.trans_left h') (hacyclic d)
    · exact htop h
  · rcases h' with h' | rfl
    · exact (htop h').symm
    · rfl

/-- **The order of the two classes does not matter** then. -/
theorem commonOf_comm (hacyclic : ∀ name, ¬ Relation.TransGen (Extends supertype) name name)
    (hobject : (supertype objectClass).superName = none) (left right : String) :
    commonOf supertype limit left right = commonOf supertype limit right left := by
  by_cases hleft : (supertype left).isInterface
  · simp [commonOf_eq, hleft]
  by_cases hright : (supertype right).isInterface
  · simp [commonOf_eq, hright]
  rw [Bool.not_eq_true] at hleft hright
  obtain ⟨h₁, h₂⟩ := above_commonOf hpool hlimit left right
  obtain ⟨h₃, h₄⟩ := above_commonOf hpool hlimit right left
  exact (above_commonOf_of_above hpool hlimit hright hleft h₂ h₁).antisymm hacyclic hobject
    (above_commonOf_of_above hpool hlimit hleft hright h₄ h₃)

end

end JvmClass.Supertype
