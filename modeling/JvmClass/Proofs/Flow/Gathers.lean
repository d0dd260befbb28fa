/-
  Many states and the one that stands for them.

  * a value is `Deep` if it takes two slots, or is an array, of so many
    dimensions, of such values; `Shallow` values are not;
  * `FlowState.Even` states have their operands of two slots at the same places;
  * `FlowState.Gathers`: a state is even with each state of a family, and what
    is deep in it is deep in a state of the family; merging keeps that
    (`Gathers.merged`), and so do the ways in which instructions change states;
  * `length_le_of_mergeState`: even states merge into one that is as high as
    both.
-/
import JvmClass.Proofs.Flow.Join
import JvmClass.Proofs.Flow.Lenient

namespace JvmClass

open JvmClass.Flow

/-! ## Values -/

namespace Value

/-- A value that takes two slots. -/
def wide? (value : Value) : Option Value := if value.isWide then some value else none

/-- What `aaload` takes from an array. -/
def element : Value → Except Malformed Value
  | .known (.object name) =>
    if isArrayName name then ofDescriptor (String.ofList name.toList.tail)
    else return .object objectClass
  | .known .null => return .null
  | _ => return .object objectClass

/-- The value takes two slots, or it is an array of `depth` dimensions of such
    values. -/
def Deep : (depth : Nat) → Value → Prop
  | 0, value => value.isWide = true
  | depth + 1, value => ∃ element, value.element = .ok element ∧ element.Deep depth

/-- The value takes one slot, and it is no array of values of two slots. -/
def Shallow (value : Value) : Prop := ∀ depth, ¬ value.Deep depth

theorem isWide_eq_of_wide? {v w : Value} (h : v.wide? = w.wide?) : v.isWide = w.isWide := by
  unfold wide? at h
  cases hv : v.isWide <;> cases hw : w.isWide <;> simp_all

theorem size_eq {v w : Value} (h : v.isWide = w.isWide) : v.size = w.size := by
  rw [size, size, h]

theorem wide?_eq_none {v : Value} : v.wide? = none ↔ v.isWide = false := by
  simp [wide?]

theorem wide?_mergeValue {hierarchy : Hierarchy} {v w : Value} (h : v.wide? = w.wide?) :
    (mergeValue hierarchy v w).wide? = v.wide? := by
  cases hv : v.isWide with
  | true =>
    have hw : w.isWide = true := (isWide_eq_of_wide? h).symm.trans hv
    obtain rfl : v = w := by simpa [wide?, hv, hw] using h
    rw [mergeValue_self]
  | false =>
    have hmerged : (mergeValue hierarchy v w).isWide = false :=
      Bool.eq_false_iff.mpr fun hwide => Bool.eq_false_iff.mp hv (isWide_of_mergeValue hwide)
    rw [wide?_eq_none.mpr hv, wide?_eq_none.mpr hmerged]

theorem Shallow.isWide_eq_false {value : Value} (h : value.Shallow) : value.isWide = false :=
  Bool.eq_false_iff.mpr (h 0)

/-- A class that is no array class is shallow, since its elements are taken for
    objects. -/
theorem shallow_object {name : String} (h : isArrayName name = false) : (object name).Shallow := by
  intro depth
  induction depth generalizing name with
  | zero => exact Bool.false_ne_true
  | succ depth ih =>
    rintro ⟨element, helement, hdeep⟩
    rw [Value.element, h, if_neg Bool.false_ne_true] at helement
    cases helement
    exact ih Hierarchy.isArrayName_objectClass hdeep

theorem shallow_objectClass : (object objectClass).Shallow :=
  shallow_object Hierarchy.isArrayName_objectClass

theorem shallow_top : top.Shallow
  | 0 => Bool.false_ne_true
  | depth + 1 => by
    rintro ⟨element, helement, hdeep⟩
    cases helement
    exact shallow_objectClass depth hdeep

theorem Deep.isWide_eq_false {value : Value} {depth : Nat} (h : value.Deep (depth + 1)) :
    value.isWide = false := by
  obtain ⟨element, helement, hdeep⟩ := h
  cases hwide : value.isWide with
  | false => rfl
  | true =>
    have hobject : value.element = .ok (object objectClass) := by
      unfold Value.element
      split
      · exact nomatch hwide
      · exact nomatch hwide
      · rfl
    cases hobject.symm.trans helement
    exact absurd hdeep (shallow_objectClass depth)

end Value

/-- Classes that are not arrays have no array of values of two slots in
    common. -/
def Hierarchy.Shallow (hierarchy : Hierarchy) : Prop :=
  ∀ left right, isArrayName left = false → isArrayName right = false →
    (Value.object (hierarchy.join left right)).Shallow

theorem Hierarchy.IsJoin.shallow {hierarchy : Hierarchy} (h : hierarchy.IsJoin) :
    hierarchy.Shallow :=
  fun left right hleft hright => Value.shallow_object (h.plain left right hleft hright)

theorem Value.Deep.of_mergeValue {hierarchy : Hierarchy} (hshallow : hierarchy.Shallow)
    {v w : Value} {depth : Nat} (h : (mergeValue hierarchy v w).Deep depth) :
    v.Deep depth ∨ w.Deep depth := by
  unfold mergeValue at h
  split at h
  next => exact .inl h
  next hne =>
    split at h
    next => exact .inr h
    next => exact .inl h
    next left right =>
      split at h
      next => exact absurd h (Value.shallow_objectClass depth)
      next harrays =>
        simp only [Bool.or_eq_true, not_or, Bool.not_eq_true] at harrays
        have hjoin := hshallow left right harrays.1 harrays.2
        rw [Hierarchy.join, if_neg fun heq => hne (congrArg Value.object heq)] at hjoin
        exact absurd h (hjoin depth)
    next => exact absurd h (Value.shallow_top depth)

variable {ι : Type}

/-- A value takes two slots like each of a family, and it is deep like one of
    them. -/
structure Value.Gathers (values : ι → Value) (value : Value) : Prop where
  wide : ∀ j, (values j).wide? = value.wide?
  deep : ∀ depth, value.Deep depth → ∃ j, (values j).Deep depth

theorem Value.Gathers.const [Nonempty ι] (value : Value) :
    Value.Gathers (fun _ : ι => value) value :=
  ⟨fun _ => rfl, fun _ hdeep => ⟨Classical.arbitrary ι, hdeep⟩⟩

/-- What `aaload` takes from arrays is gathered, if it takes one slot. -/
theorem Value.Gathers.element {arrays elements : ι → Value} {array element : Value}
    (h : Value.Gathers arrays array) (helements : ∀ j, (arrays j).element = .ok (elements j))
    (hnarrow : ∀ j, (elements j).isWide = false) (helement : array.element = .ok element) :
    Value.Gathers elements element := by
  have hdeep (depth : Nat) (hd : element.Deep depth) : ∃ j, (elements j).Deep depth := by
    obtain ⟨j, other, hother, hdeep⟩ := h.deep (depth + 1) ⟨element, helement, hd⟩
    cases (helements j).symm.trans hother
    exact ⟨j, hdeep⟩
  refine ⟨fun j => ?_, hdeep⟩
  have hnot : element.isWide = false := by
    refine Bool.eq_false_iff.mpr fun hwide => ?_
    obtain ⟨j, hj⟩ := hdeep 0 hwide
    exact Bool.eq_false_iff.mp (hnarrow j) hj
  rw [Value.wide?_eq_none.mpr (hnarrow j), Value.wide?_eq_none.mpr hnot]

/-! ## Places in a state -/

/-- The value at a place of a list, `top` behind its end. -/
def Value.nth (values : List Value) (n : Nat) : Value := values.getD n .top

namespace Value

theorem nth_of_getElem? {values : List Value} {n : Nat} {value : Value}
    (h : values[n]? = some value) : nth values n = value := by
  rw [nth, List.getD_eq_getElem?_getD, h]
  rfl

theorem nth_of_le {values : List Value} {n : Nat} (h : values.length ≤ n) : nth values n = .top := by
  rw [nth, List.getD_eq_getElem?_getD, List.getElem?_eq_none h]
  rfl

theorem nth_set {values : List Value} {i n : Nat} {value : Value} :
    nth (values.set i value) n =
      if i = n ∧ i < values.length then value else nth values n := by
  simp only [nth, List.getD_eq_getElem?_getD, List.getElem?_set]
  grind

theorem nth_drop (values : List Value) (n k : Nat) : nth (values.drop n) k = nth values (n + k) := by
  simp only [nth, List.getD_eq_getElem?_getD, List.getElem?_drop]

theorem nth_mergeValues {hierarchy : Hierarchy} {existing incoming : List Value}
    (h : existing.length = incoming.length) (n : Nat) :
    nth (mergeValues hierarchy existing incoming) n =
      mergeValue hierarchy (nth existing n) (nth incoming n) := by
  by_cases hlt : n < existing.length
  · have hlt' : n < incoming.length := h ▸ hlt
    have hdrop : existing.drop incoming.length = [] := List.drop_eq_nil_of_le (Nat.le_of_eq h)
    rw [nth_of_getElem? (List.getElem?_eq_getElem hlt),
      nth_of_getElem? (List.getElem?_eq_getElem hlt')]
    apply nth_of_getElem?
    rw [mergeValues, hdrop, List.append_nil, List.getElem?_zipWith, List.getElem?_eq_getElem hlt,
      List.getElem?_eq_getElem hlt']
  · have hle := Nat.not_lt.mp hlt
    have hle' : incoming.length ≤ n := h ▸ hle
    rw [nth_of_le hle, nth_of_le hle', nth_of_le (by rwa [length_mergeValues]), mergeValue_self]

theorem nth_replace (before after : Value) (values : List Value) (n : Nat) :
    nth (values.map fun v => if v = before then after else v) n = nth values n ∨
      nth values n = before ∧ nth (values.map fun v => if v = before then after else v) n = after := by
  by_cases hlt : n < values.length
  · have hmapped : (values.map fun v => if v = before then after else v)[n]? =
        some (if values[n] = before then after else values[n]) := by simp [hlt]
    rw [nth_of_getElem? (List.getElem?_eq_getElem hlt), nth_of_getElem? hmapped]
    split
    next heq => exact .inr ⟨heq, rfl⟩
    next => exact .inl rfl
  · have hle := Nat.not_lt.mp hlt
    rw [nth_of_le hle, nth_of_le (by rwa [List.length_map])]
    exact .inl rfl

section
variable {before after : Value} (hbefore : before.Shallow) (hafter : after.Shallow)
include hbefore hafter

/-- Where what is replaced and what it is replaced by are shallow, the same
    places are deep, and the same values take two slots. -/
theorem deep_nth_replace (values : List Value) (n depth : Nat) :
    (nth (values.map fun v => if v = before then after else v) n).Deep depth ↔
      (nth values n).Deep depth := by
  rcases nth_replace before after values n with heq | ⟨hold, hnew⟩
  · rw [heq]
  · rw [hold, hnew]
    exact iff_of_false (hafter depth) (hbefore depth)

theorem wide?_nth_replace (values : List Value) (n : Nat) :
    (nth (values.map fun v => if v = before then after else v) n).wide? =
      (nth values n).wide? := by
  rcases nth_replace before after values n with heq | ⟨hold, hnew⟩
  · rw [heq]
  · rw [hold, hnew, wide?_eq_none.mpr hafter.isWide_eq_false,
      wide?_eq_none.mpr hbefore.isWide_eq_false]

end

theorem deep_nth_set (values : List Value) (i : Nat) (value : Value) (n depth : Nat) :
    (nth (values.set i value) n).Deep depth ↔
      n = i ∧ n < values.length ∧ value.Deep depth ∨ n ≠ i ∧ (nth values n).Deep depth := by
  rw [nth_set]
  by_cases heq : n = i
  · subst heq
    by_cases hlt : n < values.length
    · simp [hlt]
    · have htop := nth_of_le (Nat.not_lt.mp hlt)
      simp [hlt, htop, shallow_top depth]
  · simp [heq, Ne.symm heq]

theorem deep_nth_halved (locals : List Value) (index n depth : Nat) :
    (nth (if 0 < index ∧ (locals[index - 1]?.map Value.isWide) = some true
      then locals.set (index - 1) .top else locals) n).Deep depth ↔
        ¬ (n + 1 = index ∧ depth = 0) ∧ (nth locals n).Deep depth := by
  by_cases hhalf : n + 1 = index
  · obtain rfl := hhalf.symm
    have hwide : (locals[n]?.map Value.isWide) = some true ↔ (nth locals n).Deep 0 := by
      cases hvalue : locals[n]? with
      | none => simp [nth_of_le (List.getElem?_eq_none_iff.mp hvalue), shallow_top 0]
      | some value => simp [nth_of_getElem? hvalue, Deep]
    rw [Nat.add_sub_cancel]
    split
    next hlost =>
      have hzero := hwide.mp hlost.2
      rw [deep_nth_set]
      cases depth with
      | zero => simp [shallow_top 0]
      | succ depth =>
        have hplain : ¬ (nth locals n).Deep (depth + 1) := fun hdeep =>
          Bool.eq_false_iff.mp hdeep.isWide_eq_false hzero
        simp [shallow_top (depth + 1), hplain]
    next hkept =>
      have hnarrow : ¬ (nth locals n).Deep 0 := fun hzero =>
        hkept ⟨Nat.succ_pos n, hwide.mpr hzero⟩
      cases depth with
      | zero => simp [hnarrow]
      | succ depth => simp
  · have hne : n ≠ index - 1 ∨ ¬ 0 < index := by omega
    split
    next hlost =>
      rw [deep_nth_set]
      simp [hne.resolve_right (fun h => h hlost.1), hhalf]
    next => simp [hhalf]

/-- What is deep after a value was stored: that value, or what was there before
    and was not overwritten. -/
theorem deep_nth_storeLocal (locals : List Value) (index : Nat) (value : Value) (wide : Bool)
    (n depth : Nat) :
    (nth (FlowState.storeLocal locals index value wide) n).Deep depth ↔
      ¬ (wide = true ∧ n = index + 1) ∧ (n = index ∧ n < locals.length ∧ value.Deep depth ∨
        n ≠ index ∧ ¬ (n + 1 = index ∧ depth = 0) ∧ (nth locals n).Deep depth) := by
  unfold FlowState.storeLocal
  dsimp only
  generalize hhalved : (if 0 < index ∧ (locals[index - 1]?.map Value.isWide) = some true
      then locals.set (index - 1) .top else locals) = halved
  have hlength : halved.length = locals.length := by
    rw [← hhalved]
    split
    next => exact List.length_set
    next => rfl
  have hdeep := deep_nth_halved locals index n depth
  rw [hhalved] at hdeep
  rw [← hlength, ← hdeep, ← deep_nth_set]
  split
  next hwide =>
    rw [deep_nth_set]
    simp [hwide, shallow_top depth]
  next hnarrow => simp [hnarrow]

end Value

/-! ## States -/

namespace FlowState

/-- The operand below `n` others; a lenient state has `top` below its stack. -/
def operand (state : FlowState) (n : Nat) : Value := Value.nth state.stack n

/-- The state without its topmost `n` operands. -/
def popped (state : FlowState) (n : Nat) : FlowState := { state with stack := state.stack.drop n }

/-- The state with another operand. -/
def pushed (state : FlowState) (value : Value) : FlowState :=
  { state with stack := value :: state.stack }

@[simp] theorem operand_popped (state : FlowState) (n k : Nat) :
    (state.popped n).operand k = state.operand (n + k) :=
  Value.nth_drop state.stack n k

theorem popped_popped (state : FlowState) (n k : Nat) :
    (state.popped n).popped k = state.popped (n + k) := by
  simp only [popped, List.drop_drop]

theorem Loose.named_operand {instructions : Array Instruction} {count : Nat}
    {state : FlowState} (h : state.Loose instructions count) (n : Nat) :
    (state.operand n).Named instructions := by
  cases hvalue : state.stack[n]? with
  | some value =>
    rw [operand, Value.nth_of_getElem? hvalue]
    exact h.stack value (List.mem_of_getElem? hvalue)
  | none =>
    rw [operand, Value.nth_of_le (List.getElem?_eq_none_iff.mp hvalue)]
    exact Value.Plain.named nofun

/-- Two states have the same operands of two slots at the same places; one slot
    may face the bottom of the other stack. -/
def Even (state other : FlowState) : Prop :=
  ∀ n, (state.operand n).wide? = (other.operand n).wide?

theorem Even.pushed {state other : FlowState} (h : state.Even other) (value : Value) :
    (state.pushed value).Even (other.pushed value)
  | 0 => rfl
  | n + 1 => h n

/-- Places below both stacks do not count. -/
theorem Even.of_lt {state other : FlowState} {bound : Nat} (hstate : state.stack.length ≤ bound)
    (hother : other.stack.length ≤ bound)
    (h : ∀ n < bound, (state.operand n).wide? = (other.operand n).wide?) : state.Even other := by
  intro n
  by_cases hlt : n < bound
  · exact h n hlt
  · rw [operand, operand, Value.nth_of_le (by omega), Value.nth_of_le (by omega)]

theorem Even.symm {state other : FlowState} (h : state.Even other) : other.Even state :=
  fun n => (h n).symm

theorem Even.trans {state other another : FlowState} (h : state.Even other)
    (h' : other.Even another) : state.Even another :=
  fun n => (h n).trans (h' n)

/-- A lenient state gathers lenient states: it is even with each of them, and what
    is deep in it is deep at that place in one of them.  Its stack is at least as
    high as those of the `low` states. -/
structure Gathers (low : ι → Prop) (states : ι → FlowState) (state : FlowState) : Prop where
  lenient : state.lenient = true
  each : ∀ j, (states j).lenient = true
  length : ∀ j, (states j).locals.length = state.locals.length
  locals : ∀ n depth, (Value.nth state.locals n).Deep depth →
    ∃ j, (Value.nth (states j).locals n).Deep depth
  operands : ∀ n, Value.Gathers (fun j => (states j).operand n) (state.operand n)
  height : ∀ j, low j → (states j).stack.length ≤ state.stack.length

namespace Gathers

variable {low : ι → Prop} {states : ι → FlowState} {state : FlowState}

theorem even (h : Gathers low states state) (j : ι) : (states j).Even state :=
  fun n => (h.operands n).wide j

/-- A lenient state stands for itself. -/
theorem const [Nonempty ι] (hlenient : state.lenient = true) :
    Gathers low (fun _ : ι => state) state where
  lenient := hlenient
  each _ := hlenient
  length _ := rfl
  locals _ _ hdeep := ⟨Classical.arbitrary ι, hdeep⟩
  operands _ := .const _
  height _ _ := Nat.le_refl _

theorem popped (h : Gathers low states state) (n : Nat) :
    Gathers low (fun j => (states j).popped n) (state.popped n) where
  lenient := h.lenient
  each := h.each
  length := h.length
  locals := h.locals
  operands k := by simpa only [operand_popped] using h.operands (n + k)
  height j hj := by
    have := h.height j hj
    simp only [FlowState.popped, List.length_drop]
    omega

theorem pushed (h : Gathers low states state) {values : ι → Value} {value : Value}
    (hvalue : Value.Gathers values value) :
    Gathers low (fun j => (states j).pushed (values j)) (state.pushed value) where
  lenient := h.lenient
  each := h.each
  length := h.length
  locals := h.locals
  operands
    | 0 => hvalue
    | n + 1 => h.operands n
  height j hj := Nat.succ_le_succ (h.height j hj)

theorem stored (h : Gathers low states state) {values : ι → Value} {value : Value}
    (hvalue : Value.Gathers values value) (index : Nat) (wide : Bool) :
    Gathers low
      (fun j => { states j with
        locals := storeLocal (states j).locals index (values j) wide })
      { state with locals := storeLocal state.locals index value wide } where
  lenient := h.lenient
  each := h.each
  length j := by simpa only [length_storeLocal] using h.length j
  locals n depth hdeep := by
    obtain ⟨hover, ⟨heq, hlt, hdeep⟩ | ⟨hne, hhalf, hdeep⟩⟩ :=
      (Value.deep_nth_storeLocal ..).mp hdeep
    · obtain ⟨j, hj⟩ := hvalue.deep depth hdeep
      exact ⟨j, (Value.deep_nth_storeLocal ..).mpr ⟨hover, .inl ⟨heq, h.length j ▸ hlt, hj⟩⟩⟩
    · obtain ⟨j, hj⟩ := h.locals n depth hdeep
      exact ⟨j, (Value.deep_nth_storeLocal ..).mpr ⟨hover, .inr ⟨hne, hhalf, hj⟩⟩⟩
  operands := h.operands
  height := h.height

/-- Where one shallow value is replaced by another in each state, the same places stay
    deep. -/
theorem replaced (h : Gathers low states state) {befores afters : ι → Value} {before after : Value}
    (hbefores : ∀ j, (befores j).Shallow) (hafters : ∀ j, (afters j).Shallow)
    (hbefore : before.Shallow) (hafter : after.Shallow) :
    Gathers low (fun j => (states j).replaceAll (befores j) (afters j))
      (state.replaceAll before after) where
  lenient := h.lenient
  each := h.each
  length j := by simpa only [replaceAll, List.length_map] using h.length j
  locals n depth hdeep := by
    obtain ⟨j, hj⟩ := h.locals n depth ((Value.deep_nth_replace hbefore hafter ..).mp hdeep)
    exact ⟨j, (Value.deep_nth_replace (hbefores j) (hafters j) ..).mpr hj⟩
  operands n := by
    refine ⟨fun j => ?_, fun depth hdeep => ?_⟩
    · calc
        _ = ((states j).operand n).wide? :=
          Value.wide?_nth_replace (hbefores j) (hafters j) (states j).stack n
        _ = (state.operand n).wide? := (h.operands n).wide j
        _ = _ := (Value.wide?_nth_replace hbefore hafter state.stack n).symm
    · obtain ⟨j, hj⟩ :=
        (h.operands n).deep depth ((Value.deep_nth_replace hbefore hafter ..).mp hdeep)
      exact ⟨j, (Value.deep_nth_replace (hbefores j) (hafters j) ..).mpr hj⟩
  height j hj := by simpa only [replaceAll, List.length_map] using h.height j hj

/-- The states may be among others, if these have their operands of two slots at
    the same places. -/
theorem widen {κ : Type} {others : κ → FlowState} (h : Gathers low states state)
    (hsome : Nonempty ι) (hsub : ∀ j, ∃ k, others k = states j)
    (heach : ∀ k, (others k).lenient = true)
    (hlength : ∀ k, (others k).locals.length = state.locals.length)
    (heven : ∀ k l, (others k).Even (others l)) :
    Gathers (fun _ => False) others state where
  lenient := h.lenient
  each := heach
  length := hlength
  locals n depth hdeep := by
    obtain ⟨j, hj⟩ := h.locals n depth hdeep
    obtain ⟨k, hk⟩ := hsub j
    exact ⟨k, hk ▸ hj⟩
  operands n := by
    refine ⟨fun k => ?_, fun depth hdeep => ?_⟩
    · obtain ⟨l, hl⟩ := hsub (Classical.choice hsome)
      rw [heven k l n, hl]
      exact (h.operands n).wide _
    · obtain ⟨j, hj⟩ := (h.operands n).deep depth hdeep
      obtain ⟨k, hk⟩ := hsub j
      exact ⟨k, hk ▸ hj⟩
  height _ := False.elim

/-- **What two states gather, the merged one gathers.** -/
theorem merged [Nonempty ι] {hierarchy : Hierarchy} (hshallow : hierarchy.Shallow)
    {low' : ι → Prop} {incoming merged : FlowState} (h : Gathers low states state)
    (h' : Gathers low' states incoming) (hmerge : mergeState hierarchy state incoming = .ok merged) :
    Gathers (fun _ => False) states merged := by
  rw [mergeState_of_lenient h.lenient] at hmerge
  cases hmerge
  split
  next hheight =>
    have hslots : state.locals.length = incoming.locals.length :=
      (h.length (Classical.arbitrary ι)).symm.trans (h'.length (Classical.arbitrary ι))
    refine ⟨h.lenient, h.each, fun j => ?_, fun n depth hdeep => ?_, fun n => ⟨fun j => ?_,
      fun depth hdeep => ?_⟩, fun _ => False.elim⟩
    · rw [h.length j]
      exact (length_mergeValues ..).symm
    · rw [Value.nth_mergeValues hslots] at hdeep
      exact (Value.Deep.of_mergeValue hshallow hdeep).elim (h.locals n depth) (h'.locals n depth)
    · rw [(h.operands n).wide j]
      change _ = (Value.nth (mergeValues hierarchy state.stack incoming.stack) n).wide?
      rw [Value.nth_mergeValues hheight]
      refine (Value.wide?_mergeValue ?_).symm
      exact ((h.operands n).wide j).symm.trans ((h'.operands n).wide j)
    · change (Value.nth (mergeValues hierarchy state.stack incoming.stack) n).Deep depth at hdeep
      rw [Value.nth_mergeValues hheight] at hdeep
      exact (Value.Deep.of_mergeValue hshallow hdeep).elim ((h.operands n).deep depth)
        ((h'.operands n).deep depth)
  next =>
    split
    next => exact ⟨h.lenient, h.each, h.length, h.locals, h'.operands, fun _ => False.elim⟩
    next => exact { h with height := fun _ => False.elim }

end Gathers

/-! ## Heights -/

/-- Where the operands of two slots are at the same places, every operand more
    takes a slot. -/
theorem slots_add_le {low high : List Value}
    (heven : ∀ n, (Value.nth low n).wide? = (Value.nth high n).wide?)
    (h : low.length ≤ high.length) :
    (low.map Value.size).foldr (· + ·) 0 + (high.length - low.length) ≤
      (high.map Value.size).foldr (· + ·) 0 := by
  induction low generalizing high with
  | nil => simpa [stackSize] using length_le_stackSize ⟨[], high, true⟩
  | cons a low ih =>
    cases high with
    | nil => exact absurd h (Nat.not_succ_le_zero _)
    | cons b high =>
      have hsize : a.size = b.size := Value.size_eq (Value.isWide_eq_of_wide? (heven 0))
      have hrest := ih (fun n => heven (n + 1)) (Nat.le_of_succ_le_succ h)
      simp only [List.map_cons, List.foldr_cons, List.length_cons, hsize]
      omega

section
variable {low high : FlowState} (heven : low.Even high)
include heven

theorem stackSize_le_of_length_le (h : low.stack.length ≤ high.stack.length) :
    low.stackSize ≤ high.stackSize :=
  Nat.le_trans (Nat.le_add_right ..) (slots_add_le heven h)

theorem length_le_of_stackSize_le (h : low.stackSize ≤ high.stackSize) :
    low.stack.length ≤ high.stack.length := by
  by_contra hlt
  have hless := slots_add_le heven.symm (Nat.le_of_lt (Nat.not_le.mp hlt))
  unfold stackSize at h
  omega

theorem length_le_of_mergeState {hierarchy : Hierarchy} {merged : FlowState}
    (hlenient : low.lenient = true) (hmerge : mergeState hierarchy low high = .ok merged) :
    low.stack.length ≤ merged.stack.length ∧ high.stack.length ≤ merged.stack.length := by
  rw [mergeState_of_lenient hlenient] at hmerge
  cases hmerge
  split
  next hheight =>
    dsimp only
    rw [length_mergeValues]
    exact ⟨Nat.le_refl _, Nat.le_of_eq hheight.symm⟩
  next =>
    split
    next hlarger => exact ⟨length_le_of_stackSize_le heven (Nat.le_of_lt hlarger), Nat.le_refl _⟩
    next hsmaller =>
      refine ⟨Nat.le_refl _, length_le_of_stackSize_le heven.symm ?_⟩
      exact Nat.not_lt.mp hsmaller

end

end FlowState

end JvmClass
