/-
  Super classes on a class path.

  * `Known.answer` is the answer to a question after others: the same as the
    class path gives each time (`Known.answer_eq`);
  * `ClassPath.offers_ofMemory`: there are finitely many classes in memory;
  * `ClassPath.closest_of_commonSuperClass`: over classes in memory, the common
    super class is found and is the closest one, whatever was asked before.
-/
import JvmClass.Proofs.ClassPath.Known

namespace JvmClass

open Supertype

/-! ## What was asked before -/

namespace Known

/-- What is known after questions were asked, each with what was known then. -/
def after (path : ClassPath) (questions : List (String × String)) : Known :=
  questions.foldl (fun known (left, right) => ((commonSuperClass path left right).run known).2) []

/-- The answer to a question after others. -/
def answer (path : ClassPath) (questions : List (String × String)) (left right : String) : String :=
  ((commonSuperClass path left right).run (after path questions)).1

theorem after_eq_learn (path : ClassPath) (questions : List (String × String)) :
    after path questions = learn [] path questions := by
  rw [learn, maxHeight, List.length_nil, Nat.zero_add]
  rfl

theorem answer_eq {path : ClassPath} (hends : Ends path.supertype path.maxHeight)
    (questions : List (String × String)) (left right : String) :
    answer path questions left right = commonOf path.supertype path.maxHeight left right := by
  have hstart : Ends (retrieve [] path) (maxHeight [] path) := by
    rwa [maxHeight, List.length_nil, Nat.zero_add]
  have hlearned := learned_learn hstart questions
  rw [← after_eq_learn] at hlearned
  exact (tells_commonSuperClass hends left right _ hlearned.retrieve).1

end Known

namespace ClassPath

/-! ## Classes in memory -/

/-- A class path of class files in memory. -/
def ofMemory (sources : List (List (String × Option Bytes))) : ClassPath :=
  sources.map Source.memory

/-- What there is to read in memory. -/
def contentsOf (sources : List (List (String × Option Bytes))) : List Bytes :=
  sources.flatten.filterMap (·.2)

theorem offers_ofMemory (sources : List (List (String × Option Bytes))) :
    Offers (ofMemory sources).read (ofMemory sources).capacity (contentsOf sources) := by
  induction sources with
  | nil => exact offers_nil
  | cons files sources ih =>
    rw [contentsOf, List.flatten_cons, List.filterMap_append]
    exact offers_cons (Source.offers_memory files) ih

variable {sources : List (List (String × Option Bytes))}

theorem mem_superNames_ofMemory {name above : String}
    (h : Extends (ofMemory sources).supertype name above) :
    above ∈ superNames [] (contentsOf sources) :=
  mem_superNames (offers_ofMemory sources) h

theorem length_superNames_ofMemory :
    (superNames [] (contentsOf sources)).length < (ofMemory sources).maxHeight := by
  have hlt := length_superNames_lt (offers_ofMemory sources) []
  rwa [Known.maxHeight, List.length_nil, Nat.zero_add] at hlt

end ClassPath

namespace Supertype

/-- What classes have in common: a class above both of them, the closest one
    unless one of them is an interface.  Their order does not matter where no
    class is above itself and `java/lang/Object` is the highest. -/
structure Closest (supertype : String → Supertype) (common : String → String → String) : Prop where
  above : ∀ left right,
    Above supertype (common left right) left ∧ Above supertype (common left right) right
  closest : ∀ left right, (supertype left).isInterface = false →
    (supertype right).isInterface = false →
      ∀ c, Above supertype c left → Above supertype c right → Above supertype c (common left right)
  comm : (∀ name, ¬ Relation.TransGen (Extends supertype) name name) →
    (supertype objectClass).superName = none → ∀ left right, common left right = common right left

end Supertype

namespace ClassPath

/-- **Over classes in memory, super classes are found** in a search that ends,
    whatever extends what.  What two classes have in common is the closest class
    above both, the same whatever was asked before, and classes that are not
    there count as classes directly below `java/lang/Object`. -/
theorem closest_of_commonSuperClass (sources : List (List (String × Option Bytes))) :
    (∀ name, ∃ found, Climbs (ofMemory sources).supertype [name] name found ∧
      ∀ limit, (ofMemory sources).maxHeight ≤ limit →
        lineage (ofMemory sources).supertype limit [name] name = found) ∧
    (∀ questions left right, Known.answer (ofMemory sources) questions left right =
      (ofMemory sources).hierarchy.commonSuperClass left right) ∧
    Closest (ofMemory sources).supertype (ofMemory sources).hierarchy.commonSuperClass ∧
    ∀ name, (∀ record, (ofMemory sources).Holds name record →
        (ofMemory sources).supertype name = ⟨record.superName, record.access.isInterface⟩) ∧
      ((¬ ∃ record, (ofMemory sources).Holds name record) → (ofMemory sources).supertype name =
        ⟨if name = objectClass then none else some objectClass, false⟩) := by
  have hpool {name above : String} (h : Extends (ofMemory sources).supertype name above) :=
    mem_superNames_ofMemory h
  have hlimit := @length_superNames_ofMemory sources
  refine ⟨fun name => ?_, Known.answer_eq (ends_of_pool hpool hlimit), ?_,
    fun name => ⟨fun _ => supertype_of_holds, supertype_of_not_holds⟩⟩
  · have hclimbs := climbs_lineage hpool hlimit name
    refine ⟨_, hclimbs, fun limit hle => ?_⟩
    exact (climbs_lineage hpool (Nat.lt_of_lt_of_le hlimit hle) name).unique hclimbs
  · exact ⟨above_commonOf hpool hlimit,
      fun _ _ hleft hright _ => above_commonOf_of_above hpool hlimit hleft hright,
      commonOf_comm hpool hlimit⟩

/-! ## Siblings -/

/-- Two classes, and one that both of them extend. -/
def siblings : List (List (String × Option Bytes)) :=
  [[("B.class", some (plainFile "B" "P")), ("C.class", some (plainFile "C" "P"))],
    [("P.class", some (plainFile "P" objectClass))]]

theorem superNames_siblings : superNames [] (contentsOf siblings) = [objectClass, "P", "P", objectClass] := by
  decide +kernel

theorem supertype_siblings :
    (ofMemory siblings).supertype "B" = ⟨some "P", false⟩ ∧
      (ofMemory siblings).supertype "C" = ⟨some "P", false⟩ ∧
      (ofMemory siblings).supertype "P" = ⟨some objectClass, false⟩ ∧
      (ofMemory siblings).supertype objectClass = ⟨none, false⟩ := by
  decide +kernel

theorem acyclic_siblings (name : String) :
    ¬ Relation.TransGen (Extends (ofMemory siblings).supertype) name name := by
  obtain ⟨-, -, hparent, hobject⟩ := supertype_siblings
  have htop (above : String) : ¬ Extends (ofMemory siblings).supertype objectClass above := by
    rw [Extends, hobject]
    rintro ⟨⟩
  intro hcycle
  obtain ⟨next, hnext, hback⟩ := Relation.TransGen.head'_iff.mp hcycle
  obtain ⟨last, -, hlast⟩ := Relation.TransGen.tail'_iff.mp hcycle
  have hname : name = objectClass ∨ name = "P" := by
    have hmem := mem_superNames_ofMemory hlast
    rw [superNames_siblings] at hmem
    simp only [List.mem_cons, List.not_mem_nil, or_false] at hmem
    exact hmem.elim .inl fun h => h.elim .inr fun h => h.elim .inr .inl
  rcases hname with rfl | rfl
  · exact htop next hnext
  · rw [Extends, hparent] at hnext
    cases hnext
    rcases Relation.ReflTransGen.cases_head hback with heq | ⟨above, habove, -⟩
    · exact absurd heq (by decide)
    · exact htop above habove

/-- Siblings meet at the class that both extend, in either order and whatever
    was asked before. -/
theorem closest_of_commonSuperClass_siblings :
    ((ofMemory siblings).supertype "B").isInterface = false ∧
      ((ofMemory siblings).supertype "C").isInterface = false ∧
      Above (ofMemory siblings).supertype "P" "B" ∧ Above (ofMemory siblings).supertype "P" "C" ∧
      Above (ofMemory siblings).supertype "P"
        ((ofMemory siblings).hierarchy.commonSuperClass "B" "C") ∧
      (ofMemory siblings).hierarchy.commonSuperClass "B" "C" = "P" ∧
      (∀ name, ¬ Relation.TransGen (Extends (ofMemory siblings).supertype) name name) ∧
      ((ofMemory siblings).supertype objectClass).superName = none ∧
      (ofMemory siblings).hierarchy.commonSuperClass "C" "B" = "P" ∧
      Known.answer (ofMemory siblings) [("C", "Q"), ("B", "C")] "B" "C" = "P" := by
  obtain ⟨hB, hC, -, hobject⟩ := supertype_siblings
  obtain ⟨-, hanswer, hclosest, -⟩ := closest_of_commonSuperClass siblings
  have hinterface {name : String} (h : (ofMemory siblings).supertype name = ⟨some "P", false⟩) :
      ((ofMemory siblings).supertype name).isInterface = false := congrArg _ h
  have habove {name : String} (h : (ofMemory siblings).supertype name = ⟨some "P", false⟩) :
      Above (ofMemory siblings).supertype "P" name := .inl (.single (congrArg _ h))
  have hcommon : (ofMemory siblings).hierarchy.commonSuperClass "B" "C" = "P" := by decide +kernel
  have hobject : ((ofMemory siblings).supertype objectClass).superName = none := congrArg _ hobject
  exact ⟨hinterface hB, hinterface hC, habove hB, habove hC,
    hclosest.closest _ _ (hinterface hB) (hinterface hC) _ (habove hB) (habove hC), hcommon,
    acyclic_siblings, hobject, (hclosest.comm acyclic_siblings hobject _ _).trans hcommon,
    (hanswer _ _ _).trans hcommon⟩

end ClassPath

end JvmClass
