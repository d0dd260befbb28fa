/-
  Merging as a join.

  * `Hierarchy.join` is the class that two classes have in common, which may be
    the same; `Hierarchy.IsJoin` asks of a hierarchy that this is a join of the
    classes that are not arrays, with `java/lang/Object` above them;
  * merging two values is then a join as well (`mergeValue_comm` and
    `mergeValue_assoc`);
  * `FlowState.Absorbs`: a state is as it was after another is merged into it.
    The result of a merge absorbs both states and what either of them absorbed.
-/
import JvmClass.Proofs.Flow.Merge

namespace JvmClass

open JvmClass.Flow

/-! ## Classes -/

namespace Hierarchy

variable (hierarchy : Hierarchy)

/-- The class that two classes have in common, which may be the same. -/
def join (left right : String) : String :=
  if left = right then left else hierarchy.commonSuperClass left right

/-- What classes have in common is a join of those that are not arrays, with
    `java/lang/Object` above all of them. -/
structure IsJoin : Prop where
  comm : ∀ a b, isArrayName a = false → isArrayName b = false →
    hierarchy.join a b = hierarchy.join b a
  assoc : ∀ a b c, isArrayName a = false → isArrayName b = false → isArrayName c = false →
    hierarchy.join (hierarchy.join a b) c = hierarchy.join a (hierarchy.join b c)
  greatest : ∀ a, isArrayName a = false → hierarchy.join a objectClass = objectClass
  plain : ∀ a b, isArrayName a = false → isArrayName b = false →
    isArrayName (hierarchy.join a b) = false

theorem isArrayName_objectClass : isArrayName objectClass = false := by decide

/-- A hierarchy whose answers are themselves a join, also for one class with
    itself. -/
theorem isJoin_of_idempotent {hierarchy : Hierarchy}
    (hself : ∀ a, isArrayName a = false → hierarchy.commonSuperClass a a = a)
    (hcomm : ∀ a b, isArrayName a = false → isArrayName b = false →
      hierarchy.commonSuperClass a b = hierarchy.commonSuperClass b a)
    (hassoc : ∀ a b c, isArrayName a = false → isArrayName b = false → isArrayName c = false →
      hierarchy.commonSuperClass (hierarchy.commonSuperClass a b) c =
        hierarchy.commonSuperClass a (hierarchy.commonSuperClass b c))
    (hgreatest : ∀ a, isArrayName a = false →
      hierarchy.commonSuperClass a objectClass = objectClass)
    (hplain : ∀ a b, isArrayName a = false → isArrayName b = false →
      isArrayName (hierarchy.commonSuperClass a b) = false) : hierarchy.IsJoin := by
  have hjoin : ∀ a b, isArrayName a = false →
      hierarchy.join a b = hierarchy.commonSuperClass a b := by
    intro a b ha
    unfold join
    split
    next heq => rw [← heq, hself a ha]
    next => rfl
  constructor
  · intro a b ha hb
    rw [hjoin a b ha, hjoin b a hb, hcomm a b ha hb]
  · intro a b c ha hb hc
    rw [hjoin a b ha, hjoin b c hb, hjoin _ c (hplain a b ha hb), hjoin a _ ha, hassoc a b c ha hb hc]
  · intro a ha
    rw [hjoin a _ ha, hgreatest a ha]
  · intro a b ha hb
    rw [hjoin a b ha]
    exact hplain a b ha hb

/-- The hierarchy that knows no class is a join: different classes have only
    `java/lang/Object` in common. -/
theorem isJoin_trivial : Hierarchy.trivial.IsJoin := by
  have hself (a : String) : Hierarchy.trivial.join a a = a := if_pos rfl
  have hne {a b : String} (h : a ≠ b) : Hierarchy.trivial.join a b = objectClass := if_neg h
  have htop (a : String) : Hierarchy.trivial.join a objectClass = objectClass := by
    by_cases h : a = objectClass
    · rw [h, hself]
    · exact hne h
  have hbottom (a : String) : Hierarchy.trivial.join objectClass a = objectClass := by
    by_cases h : objectClass = a
    · rw [← h, hself]
    · exact hne h
  constructor
  · intro a b _ _
    by_cases h : a = b
    · rw [h]
    · rw [hne h, hne (Ne.symm h)]
  · intro a b c _ _ _
    by_cases hab : a = b
    · subst hab
      by_cases hac : a = c
      · rw [hac, hself, hself]
      · rw [hself, hne hac, htop]
    · rw [hne hab, hbottom]
      by_cases hbc : b = c
      · rw [hbc, hself, hne (hbc ▸ hab)]
      · rw [hne hbc, htop]
  · intro a _
    exact htop a
  · intro a b ha _
    by_cases h : a = b
    · rw [← h, hself, ha]
    · rw [hne h, isArrayName_objectClass]

/-- What two classes or array types have in common. -/
def common (left right : String) : String :=
  if left = right then left
  else if isArrayName left || isArrayName right then objectClass
  else hierarchy.commonSuperClass left right

variable {hierarchy}

@[simp] theorem common_self (a : String) : hierarchy.common a a = a := if_pos rfl

theorem common_of_plain {a b : String} (ha : isArrayName a = false) (hb : isArrayName b = false) :
    hierarchy.common a b = hierarchy.join a b := by
  simp [common, join, ha, hb]

theorem common_of_array {a b : String} (h : isArrayName a = true ∨ isArrayName b = true)
    (hne : a ≠ b) : hierarchy.common a b = objectClass := by
  rw [common, if_neg hne, if_pos (Bool.or_eq_true_iff.mpr h)]

end Hierarchy

/-! ## Joins with a top -/

/-- A commutative, idempotent operation with a top is associative if it is so on
    some elements and all others have nothing but the top in common with any
    element. -/
theorem assoc_of_flat {α : Type} {op : α → α → α} {top : α} (Flat : α → Prop)
    (hself : ∀ a, op a a = a) (hcomm : ∀ a b, op a b = op b a) (htop : ∀ a, op a top = top)
    (hflat : ∀ a b, Flat a → a ≠ b → op a b = top) (hkeep : ∀ a b, Flat (op a b) → a = b)
    (hrest : ∀ a b c, ¬ Flat a → ¬ Flat b → ¬ Flat c → op (op a b) c = op a (op b c))
    (a b c : α) : op (op a b) c = op a (op b c) := by
  have hleft : ∀ a b c, Flat a → op (op a b) c = op a (op b c) := by
    intro a b c ha
    by_cases hab : a = b
    · subst hab
      by_cases hac : a = c
      · rw [← hac, hself, hself]
      · rw [hself, hflat a c ha hac, htop]
    · rw [hflat a b ha hab, hcomm top, htop]
      by_cases hbc : a = op b c
      · obtain rfl : b = c := hkeep b c (hbc ▸ ha)
        exact absurd (hbc.trans (hself b)) hab
      · rw [hflat a _ ha hbc]
  by_cases ha : Flat a
  · exact hleft a b c ha
  by_cases hc : Flat c
  · rw [hcomm (op a b) c, hcomm a b, ← hleft c b a hc, hcomm (op c b) a, hcomm c b]
  by_cases hb : Flat b
  · rw [hcomm a b, hleft b a c hb, hcomm a c, ← hleft b c a hb, hcomm (op b c) a]
  exact hrest a b c ha hb hc

namespace Hierarchy.IsJoin

variable {hierarchy : Hierarchy} (h : hierarchy.IsJoin)
include h

theorem common_comm (a b : String) : hierarchy.common a b = hierarchy.common b a := by
  by_cases hne : a = b
  · rw [hne]
  by_cases harray : isArrayName a = true ∨ isArrayName b = true
  · rw [common_of_array harray hne, common_of_array harray.symm (Ne.symm hne)]
  · simp only [not_or, Bool.not_eq_true] at harray
    rw [common_of_plain harray.1 harray.2, common_of_plain harray.2 harray.1,
      h.comm a b harray.1 harray.2]

theorem common_objectClass (a : String) : hierarchy.common a objectClass = objectClass := by
  by_cases harray : isArrayName a = true
  · refine common_of_array (.inl harray) ?_
    rintro rfl
    cases harray.symm.trans isArrayName_objectClass
  · simp only [Bool.not_eq_true] at harray
    rw [common_of_plain harray isArrayName_objectClass, h.greatest a harray]

theorem common_assoc (a b c : String) :
    hierarchy.common (hierarchy.common a b) c = hierarchy.common a (hierarchy.common b c) := by
  refine assoc_of_flat (isArrayName · = true) common_self h.common_comm
    h.common_objectClass (fun a b ha hne => common_of_array (.inl ha) hne) ?_ ?_ a b c
  · intro a b harray
    by_contra hne
    by_cases hsome : isArrayName a = true ∨ isArrayName b = true
    · rw [common_of_array hsome hne, isArrayName_objectClass] at harray
      cases harray
    · simp only [not_or, Bool.not_eq_true] at hsome
      rw [common_of_plain hsome.1 hsome.2, h.plain a b hsome.1 hsome.2] at harray
      cases harray
  · intro a b c ha hb hc
    simp only [Bool.not_eq_true] at ha hb hc
    rw [common_of_plain ha hb, common_of_plain hb hc, common_of_plain (h.plain a b ha hb) hc,
      common_of_plain ha (h.plain b c hb hc), h.assoc a b c ha hb hc]

end Hierarchy.IsJoin

/-! ## Values -/

namespace Value

/-- Values that are neither `top` nor a reference to an object that was
    constructed: nothing is known of them and any other value. -/
structure Flat (value : Value) : Prop where
  top : value ≠ .top
  null : value ≠ .null
  object : ∀ name, value ≠ .object name

theorem flat_or (value : Value) :
    value.Flat ∨ value = .top ∨ value = .null ∨ ∃ name, value = .object name := by
  by_cases htop : value = .top
  · exact .inr (.inl htop)
  by_cases hnull : value = .null
  · exact .inr (.inr (.inl hnull))
  by_cases hobject : ∃ name, value = .object name
  · exact .inr (.inr (.inr hobject))
  · exact .inl ⟨htop, hnull, fun name h => hobject ⟨name, h⟩⟩

end Value

namespace Flow

variable {hierarchy : Hierarchy}

@[simp] theorem mergeValue_self (v : Value) : mergeValue hierarchy v v = v := if_pos rfl

theorem mergeValue_of_flat {v w : Value} (h : v.Flat ∨ w.Flat) (hne : v ≠ w) :
    mergeValue hierarchy v w = .top := by
  unfold mergeValue
  rw [if_neg hne]
  split
  next name => exact h.elim (fun h => absurd rfl h.null) fun h => absurd rfl (h.object name)
  next name => exact h.elim (fun h => absurd rfl (h.object name)) fun h => absurd rfl h.null
  next left right =>
    exact h.elim (fun h => absurd rfl (h.object left)) fun h => absurd rfl (h.object right)
  next => rfl

@[simp] theorem mergeValue_top (v : Value) : mergeValue hierarchy v .top = .top := by
  by_cases h : v = .top
  · rw [h, mergeValue_self]
  · unfold mergeValue
    rw [if_neg h]
    cases v with
    | known type => cases type <;> rfl
    | returnAddress => rfl

@[simp] theorem top_mergeValue (v : Value) : mergeValue hierarchy .top v = .top := by
  unfold mergeValue
  split <;> rfl

@[simp] theorem mergeValue_null_object (name : String) :
    mergeValue hierarchy .null (.object name) = .object name := rfl

@[simp] theorem mergeValue_object_null (name : String) :
    mergeValue hierarchy (.object name) .null = .object name := rfl

@[simp] theorem mergeValue_object (a b : String) :
    mergeValue hierarchy (.object a) (.object b) = .object (hierarchy.common a b) := by
  unfold mergeValue Hierarchy.common
  by_cases h : a = b
  · subst h
    rw [if_pos rfl, if_pos rfl]
  · rw [if_neg (by simpa using h), if_neg h]
    dsimp only
    split <;> rfl

end Flow

namespace Hierarchy.IsJoin

variable {hierarchy : Hierarchy} (h : hierarchy.IsJoin)
include h

theorem mergeValue_comm (v w : Value) :
    mergeValue hierarchy v w = mergeValue hierarchy w v := by
  by_cases hne : v = w
  · rw [hne]
  rcases v.flat_or with hv | rfl | rfl | ⟨a, rfl⟩
  · rw [mergeValue_of_flat (.inl hv) hne, mergeValue_of_flat (.inr hv) (Ne.symm hne)]
  · simp
  all_goals
    rcases w.flat_or with hw | rfl | rfl | ⟨b, rfl⟩
    · rw [mergeValue_of_flat (.inr hw) hne, mergeValue_of_flat (.inl hw) (Ne.symm hne)]
    all_goals simp [h.common_comm]

/-- **Merging values is a join.** -/
theorem mergeValue_assoc (v w x : Value) :
    mergeValue hierarchy (mergeValue hierarchy v w) x =
      mergeValue hierarchy v (mergeValue hierarchy w x) := by
  have hnotFlat {v : Value} (hv : v = .top ∨ v = .null ∨ ∃ name, v = .object name) : ¬ v.Flat := by
    rintro ⟨htop, hnull, hobject⟩
    rcases hv with rfl | rfl | ⟨name, rfl⟩
    · exact htop rfl
    · exact hnull rfl
    · exact hobject name rfl
  refine assoc_of_flat Value.Flat mergeValue_self h.mergeValue_comm mergeValue_top
    (fun v w hv hne => mergeValue_of_flat (.inl hv) hne) ?_ ?_ v w x
  · intro v w hflat
    by_contra hne
    rcases v.flat_or with hv | hv
    · rw [mergeValue_of_flat (.inl hv) hne] at hflat
      exact hflat.top rfl
    rcases w.flat_or with hw | hw
    · rw [mergeValue_of_flat (.inr hw) hne] at hflat
      exact hflat.top rfl
    refine hnotFlat ?_ hflat
    rcases hv with rfl | rfl | ⟨a, rfl⟩
    · simp
    all_goals
      rcases hw with rfl | rfl | ⟨b, rfl⟩
      all_goals simp
  · intro v w x hv hw hx
    rcases v.flat_or.resolve_left hv with rfl | rfl | ⟨a, rfl⟩
    · simp
    all_goals
      rcases w.flat_or.resolve_left hw with rfl | rfl | ⟨b, rfl⟩
      · simp
      all_goals
        rcases x.flat_or.resolve_left hx with rfl | rfl | ⟨c, rfl⟩
        all_goals simp [h.common_assoc]

end Hierarchy.IsJoin

/-! ## States -/

/-- Merging `incoming` into `entry` changes none of its values. -/
structure FlowState.Absorbs (hierarchy : Hierarchy) (entry incoming : FlowState) : Prop where
  locals : List.Forall₂ (fun v w => mergeValue hierarchy v w = v) entry.locals incoming.locals
  stack : List.Forall₂ (fun v w => mergeValue hierarchy v w = v) entry.stack incoming.stack

theorem FlowState.Absorbs.refl {hierarchy : Hierarchy} (state : FlowState) :
    state.Absorbs hierarchy state :=
  ⟨List.forall₂_same.mpr fun v _ => mergeValue_self v,
    List.forall₂_same.mpr fun v _ => mergeValue_self v⟩

namespace Hierarchy.IsJoin

variable {hierarchy : Hierarchy} (h : hierarchy.IsJoin)
include h

theorem absorbs_mergeValues {existing incoming : List Value}
    (hlength : existing.length = incoming.length) :
    List.Forall₂ (fun v w => mergeValue hierarchy v w = v) (mergeValues hierarchy existing incoming)
      incoming := by
  induction existing generalizing incoming with
  | nil =>
    obtain rfl := List.length_eq_zero_iff.mp hlength.symm
    exact .nil
  | cons v existing ih =>
    cases incoming with
    | nil => cases hlength
    | cons w incoming =>
      refine .cons ?_ (ih (Nat.succ.inj hlength))
      rw [h.mergeValue_assoc, mergeValue_self]

theorem keeps_mergeValues {existing absorbed : List Value}
    (habsorbs : List.Forall₂ (fun v w => mergeValue hierarchy v w = v) existing absorbed)
    (incoming : List Value) :
    List.Forall₂ (fun v w => mergeValue hierarchy v w = v) (mergeValues hierarchy existing incoming)
      absorbed := by
  induction habsorbs generalizing incoming with
  | nil => simp [mergeValues]
  | @cons v w existing absorbed hv hrest ih =>
    cases incoming with
    | nil => simpa [mergeValues] using ⟨hv, hrest⟩
    | cons x incoming =>
      refine .cons ?_ (ih incoming)
      -- What was merged into `v` before may be merged first.
      rw [h.mergeValue_assoc, h.mergeValue_comm x w, ← h.mergeValue_assoc, hv]

end Hierarchy.IsJoin

end JvmClass
