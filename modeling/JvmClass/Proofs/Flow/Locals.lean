/-
  The local variable slots of strict states.

  * `Value.Inside`: values of two slots do not stick out past the last slot;
    `Value.Followed` also says what is in the slot after such a value;
  * `FlowState.Boxed` states are strict, with a fixed number of slots and
    values inside them: instructions keep that (`strictInvariant_boxed`), so
    does merging, and states are so on entry;
  * `slots_frameLocals_le`: what a frame shows of the locals takes no more
    slots than there are.
-/
import JvmClass.Flow.Analysis
import JvmClass.Proofs.Flow.Edges
import JvmClass.Proofs.Flow.Merge
import JvmClass.Proofs.Flow.Strict
import Mathlib.Algebra.Ring.Nat

namespace JvmClass

/-- How many slots values take that a frame shows. -/
def VerificationType.slots (types : List VerificationType) : Nat := (types.map size).sum

namespace VerificationType

@[simp] theorem slots_nil : slots [] = 0 := rfl

@[simp] theorem slots_cons (type : VerificationType) (types : List VerificationType) :
    slots (type :: types) = type.size + slots types := by
  simp [slots]

@[simp] theorem slots_reverse (types : List VerificationType) : slots types.reverse = slots types := by
  simp [slots]

theorem slots_dropWhile_le (p : VerificationType → Bool) (types : List VerificationType) :
    slots (types.dropWhile p) ≤ slots types := by
  induction types with
  | nil => exact Nat.le_refl 0
  | cons type types ih =>
    rw [List.dropWhile_cons]
    split
    · rw [slots_cons]; omega
    · exact Nat.le_refl _

end VerificationType

namespace Value

/-- Values of two slots end within the slots. -/
def Inside (locals : List Value) : Prop :=
  ∀ (i : Nat) (v : Value), locals[i]? = some v → v.isWide = true → i + 1 < locals.length

theorem inside_cons {value : Value} {rest : List Value} :
    Inside (value :: rest) ↔ (value.isWide = true → rest ≠ []) ∧ Inside rest := by
  constructor
  · refine fun h => ⟨fun hwide hnil => ?_, fun i v hv hwide => ?_⟩
    · have := h 0 value rfl hwide
      simp [hnil] at this
    · exact Nat.lt_of_succ_lt_succ (h (i + 1) v hv hwide)
  · rintro ⟨hvalue, hrest⟩ (_ | i) v hv hwide
    · cases hv
      exact Nat.succ_lt_succ (List.length_pos_iff.mpr (hvalue hwide))
    · exact Nat.succ_lt_succ (hrest i v hv hwide)

/-- Every value of two slots is followed by a slot that satisfies `P`. -/
def Followed (P : Value → Prop) (locals : List Value) : Prop :=
  ∀ (i : Nat) (v : Value), locals[i]? = some v → v.isWide = true →
    ∃ next, locals[i + 1]? = some next ∧ P next

theorem inside_iff {locals : List Value} : Inside locals ↔ Followed (fun _ => True) locals := by
  refine forall_congr' fun i => forall_congr' fun v => imp_congr_right fun _ =>
    imp_congr_right fun _ => ?_
  constructor
  · intro hlt
    exact ⟨_, List.getElem?_eq_getElem hlt, trivial⟩
  · rintro ⟨next, hnext, -⟩
    exact (List.getElem?_eq_some_iff.mp hnext).1

section
variable {P : Value → Prop} {locals : List Value}

theorem Followed.mono {Q : Value → Prop} (h : Followed P locals) (hPQ : ∀ v, P v → Q v) :
    Followed Q locals := by
  intro i v hv hwide
  obtain ⟨next, hnext, hP⟩ := h i v hv hwide
  exact ⟨next, hnext, hPQ next hP⟩

theorem Followed.append {front back : List Value} (hfront : Followed P front)
    (hback : Followed P back) : Followed P (front ++ back) := by
  intro i v hv hwide
  by_cases hlt : i < front.length
  · rw [List.getElem?_append_left hlt] at hv
    obtain ⟨next, hnext, hP⟩ := hfront i v hv hwide
    have hinside := (List.getElem?_eq_some_iff.mp hnext).1
    exact ⟨next, by rwa [List.getElem?_append_left hinside], hP⟩
  · rw [List.getElem?_append_right (by omega)] at hv
    obtain ⟨next, hnext, hP⟩ := hback _ v hv hwide
    refine ⟨next, ?_, hP⟩
    rwa [List.getElem?_append_right (by omega), Nat.sub_add_comm (by omega)]

/-- A value may be set where no value of two slots stands in front of it, if it
    is followed as well. -/
theorem Followed.set (h : Followed P locals) {index : Nat} {value : Value}
    (hfront : ∀ i v, i + 1 = index → locals[i]? = some v → v.isWide = false)
    (hvalue : value.isWide = true → ∃ next, locals[index + 1]? = some next ∧ P next) :
    Followed P (locals.set index value) := by
  intro i v hv hwide
  by_cases heq : index = i
  · subst heq
    obtain ⟨hlt, -⟩ := List.getElem?_eq_some_iff.mp hv
    rw [List.length_set] at hlt
    rw [List.getElem?_set_self hlt] at hv
    cases hv
    rw [List.getElem?_set_ne (Nat.succ_ne_self index).symm]
    exact hvalue hwide
  · rw [List.getElem?_set_ne heq] at hv
    have hne : index ≠ i + 1 := by
      intro hnext
      exact Bool.false_ne_true ((hfront i v hnext.symm hv).symm.trans hwide)
    rw [List.getElem?_set_ne hne]
    exact h i v hv hwide

/-- A slot may be lost. -/
theorem Followed.set_top (htop : P .top) (h : Followed P locals) (index : Nat) :
    Followed P (locals.set index .top) := by
  intro i v hv hwide
  rw [List.getElem?_set] at hv
  split at hv
  next =>
    split at hv
    · cases hv
      exact nomatch hwide
    · exact nomatch hv
  next =>
    obtain ⟨next, hnext, hP⟩ := h i v hv hwide
    rw [List.getElem?_set]
    split
    next heq =>
      have hlt := (List.getElem?_eq_some_iff.mp hnext).1
      exact ⟨.top, if_pos (heq ▸ hlt), htop⟩
    next => exact ⟨next, hnext, hP⟩

theorem Followed.mergeValues {hierarchy : Hierarchy} (h : Followed P locals)
    (hmerge : ∀ v w, P v → P (Flow.mergeValue hierarchy v w)) (incoming : List Value) :
    Followed P (Flow.mergeValues hierarchy locals incoming) := by
  have hkept : List.Forall₂ (fun v m : Value => (m.isWide = true → v.isWide = true) ∧ (P v → P m))
      locals (Flow.mergeValues hierarchy locals incoming) :=
    Flow.forall₂_mergeValues (fun _ => ⟨id, id⟩)
      (fun v w => ⟨Flow.isWide_of_mergeValue, hmerge v w⟩) _ _
  obtain ⟨hlength, hkept⟩ := List.forall₂_iff_get.mp hkept
  intro i m hm hwide
  obtain ⟨hi, rfl⟩ := List.getElem?_eq_some_iff.mp hm
  have hv := List.getElem?_eq_getElem (hlength.symm ▸ hi)
  obtain ⟨next, hnext, hP⟩ := h i _ hv ((hkept i (hlength.symm ▸ hi) hi).1 hwide)
  obtain ⟨hlt, rfl⟩ := List.getElem?_eq_some_iff.mp hnext
  exact ⟨_, List.getElem?_eq_getElem (hlength ▸ hlt), (hkept _ hlt (hlength ▸ hlt)).2 hP⟩

end

theorem size_verificationType (value : Value) : value.verificationType.size = value.size := by
  cases value <;> rfl

end Value

namespace FlowState

@[simp] theorem length_storeLocal (locals : List Value) (index : Nat) (value : Value) (wide : Bool) :
    (storeLocal locals index value wide).length = locals.length := by
  unfold storeLocal
  dsimp only
  split <;> split <;> simp only [List.length_set]

/-- Storing a value keeps what follows values of two slots, where that may be
    `top`. -/
theorem followed_storeLocal {P : Value → Prop} (htop : P .top) {locals : List Value} {index : Nat}
    {value : Value} (h : Value.Followed P locals) (hfits : index + value.size ≤ locals.length) :
    Value.Followed P (storeLocal locals index value value.isWide) := by
  unfold storeLocal
  dsimp only
  generalize hhalved : (if 0 < index ∧ (locals[index - 1]?.map Value.isWide) = some true
    then locals.set (index - 1) .top else locals) = halved
  have hkept : Value.Followed P halved ∧ halved.length = locals.length ∧
      ∀ i v, i + 1 = index → halved[i]? = some v → v.isWide = false := by
    subst hhalved
    split
    next hhalf =>
      refine ⟨h.set_top htop _, List.length_set .., ?_⟩
      rintro i v rfl hv
      rw [Nat.add_sub_cancel, List.getElem?_set] at hv
      split at hv
      · split at hv
        · cases hv; rfl
        · exact nomatch hv
      next hne => exact absurd rfl hne
    next hwhole =>
      refine ⟨h, rfl, ?_⟩
      rintro i v rfl hv
      rw [Nat.add_sub_cancel, hv] at hwhole
      simpa using hwhole
  obtain ⟨hfollowed, hlength, hfront⟩ := hkept
  split
  next hwide =>
    rw [Value.size, if_pos hwide, ← hlength] at hfits
    rw [List.set_comm _ _ (Nat.succ_ne_self index).symm]
    refine (hfollowed.set_top htop _).set (fun i v hi hv => ?_) fun _ => ?_
    · rw [List.getElem?_set_ne (by omega)] at hv
      exact hfront i v hi hv
    · exact ⟨.top, List.getElem?_set_self (by omega), htop⟩
  next hnarrow => exact hfollowed.set hfront fun hwide => absurd hwide hnarrow

/-- Replacing values of one slot keeps it, where instances of classes may follow
    values of two slots. -/
theorem followed_replaceAll {P : Value → Prop} {before : Value} {name : String}
    (hbefore : before.isWide = false) (hP : ∀ v, P v → v = before → P (.object name))
    {s : FlowState} (h : Value.Followed P s.locals) :
    Value.Followed P (s.replaceAll before (.object name)).locals := by
  intro i v hv hwide
  simp only [replaceAll, List.getElem?_map, Option.map_eq_some_iff] at hv ⊢
  obtain ⟨w, hw, rfl⟩ := hv
  have hkept : w ≠ before := by
    rintro rfl
    rw [if_pos rfl] at hwide
    exact nomatch hwide
  rw [if_neg hkept] at hwide
  obtain ⟨next, hnext, hPnext⟩ := h i w hw hwide
  refine ⟨_, ⟨next, hnext, rfl⟩, ?_⟩
  split
  next heq => exact hP next hPnext heq
  next => exact hPnext

/-- A strict state with `count` slots for locals, and the values inside
    them. -/
structure Boxed (count : Nat) (state : FlowState) : Prop where
  strict : state.lenient = false
  length : state.locals.length = count
  inside : Value.Inside state.locals

theorem strictInvariant_boxed (count : Nat) :
    FlowStep.StrictInvariant (Boxed count) fun _ => True where
  strict _ h := h.strict
  locals _ _ _ _ := trivial
  operands _ _ _ _ := trivial
  plain _ _ := trivial
  stack _ _ h _ := ⟨h.strict, h.length, h.inside⟩
  store _ _ _ h _ hfits :=
    { strict := h.strict
      length := by rw [length_storeLocal, h.length]
      inside := Value.inside_iff.mpr
        (followed_storeLocal trivial (Value.inside_iff.mp h.inside) hfits) }
  replace _ _ _ h hnarrow :=
    { strict := h.strict
      length := by simp only [replaceAll, List.length_map, h.length]
      inside := Value.inside_iff.mpr
        (followed_replaceAll hnarrow (fun _ _ _ => trivial) (Value.inside_iff.mp h.inside)) }

theorem Boxed.of_mergeState {hierarchy : Hierarchy} {count : Nat} {existing incoming merged : FlowState}
    (h : existing.Boxed count) (hmerge : Flow.mergeState hierarchy existing incoming = .ok merged) :
    merged.Boxed count := by
  obtain ⟨-, -, rfl⟩ := Flow.mergeState_eq_ok h.strict hmerge
  refine ⟨h.strict, (Flow.length_mergeValues _ _).trans h.length, Value.inside_iff.mpr ?_⟩
  exact (Value.inside_iff.mp h.inside).mergeValues (fun _ _ _ => trivial) _

end FlowState

namespace Flow.Body

variable {body : Body} {count : Nat} {index : Label} {instruction : Instruction}
  {before after : FlowState}

theorem boxed_execute (hbefore : before.Boxed count)
    (h : body.execute index instruction before = .ok after) : after.Boxed count := by
  have hkeeps := keeps_execute (FlowState.strictInvariant_boxed count) body.owner
    body.instructions index instruction fun _ _ => trivial
  exact (hkeeps before _ _ hbefore (execute_eq_ok.mp h)).1

/-- Instructions pass on the locals before them or those after them. -/
theorem locals_of_mem_successors {edges : List (Label × FlowState)}
    (h : body.successors index instruction before after = .ok edges) {edge : Label × FlowState}
    (hmem : edge ∈ edges) : edge.2.locals = before.locals ∨ edge.2.locals = after.locals := by
  rcases mem_successors_cases h hmem with hhandler | hbranch | ⟨-, rfl, -⟩
  · obtain ⟨handler, -, -, locals, hlocals, rfl⟩ := mem_handlerEdges.mp hhandler
    exact hlocals
  · obtain ⟨-, stack, hstack⟩ := mem_branchEdges hbranch
    exact .inr (hstack ▸ rfl)
  · exact .inr rfl

theorem boxed_successors (hbefore : before.Boxed count) (hafter : after.Boxed count)
    {edges : List (Label × FlowState)}
    (h : body.successors index instruction before after = .ok edges) {edge : Label × FlowState}
    (hmem : edge ∈ edges) : edge.2.Boxed count := by
  rcases mem_successors_cases h hmem with hhandler | hbranch | ⟨-, rfl, -⟩
  · obtain ⟨handler, -, -, locals, rfl | rfl, rfl⟩ := mem_handlerEdges.mp hhandler
    · exact ⟨hbefore.strict, hbefore.length, hbefore.inside⟩
    · exact ⟨hbefore.strict, hafter.length, hafter.inside⟩
  · obtain ⟨-, stack, hstack⟩ := mem_branchEdges hbranch
    rw [hstack]
    exact ⟨hafter.strict, hafter.length, hafter.inside⟩
  · exact hafter

end Flow.Body

namespace FlowState

/-! ## On entry -/

theorem followed_initialSlots (count : Nat) (types : List VerificationType) :
    Value.Followed (· = .top) (Flow.initialSlots count types) := by
  refine Value.Followed.append ?_ fun i v hv hwide => ?_
  · induction types with
    | nil => exact nofun
    | cons type types ih =>
      rw [List.flatMap_cons]
      refine Value.Followed.append ?_ ih
      split
      next hwide =>
        rintro (_ | i) v hv hwide
        · exact ⟨.top, rfl, rfl⟩
        · obtain rfl : v = .top := by
            rw [List.getElem?_cons_succ] at hv
            exact List.mem_singleton.mp (List.mem_of_getElem? hv)
          exact nomatch hwide
      next hnarrow =>
        intro i v hv hwide
        obtain rfl := List.mem_singleton.mp (List.mem_of_getElem? hv)
        exact absurd hwide hnarrow
  · obtain rfl := List.eq_of_mem_replicate (List.mem_of_getElem? hv)
    exact nomatch hwide

theorem length_flatMap (types : List VerificationType) :
    (types.flatMap fun type => if type.isWide then [Value.known type, .top] else [.known type]).length
      = VerificationType.slots types := by
  induction types with
  | nil => rfl
  | cons type types ih =>
    rw [List.flatMap_cons, List.length_append, ih, VerificationType.slots_cons,
      VerificationType.size]
    split <;> rfl

/-- The locals on entry fill the slots that are counted for them. -/
theorem length_entryState (initial : List VerificationType) (code : Code) (computeFrames : Bool) :
    (Flow.entryState initial code computeFrames).locals.length = Flow.localsOf initial code := by
  have hle : VerificationType.slots initial ≤ Flow.localsOf initial code := by
    exact Flow.le_maxLocals _ _
  simp only [Flow.entryState, Flow.initialSlots, List.length_append, length_flatMap,
    List.length_replicate]
  omega

theorem boxed_entryState (initial : List VerificationType) (code : Code) :
    (Flow.entryState initial code true).Boxed (Flow.localsOf initial code) := by
  refine ⟨rfl, length_entryState initial code true, Value.inside_iff.mpr ?_⟩
  exact (followed_initialSlots _ initial).mono fun _ _ => trivial

/-! ## In frames -/

theorem slots_frameLocalsRev_le {locals : List Value} (h : Value.Inside locals)
    (done : List VerificationType) :
    VerificationType.slots (frameLocalsRev done locals) ≤
      VerificationType.slots done + locals.length := by
  induction done, locals using frameLocalsRev.induct with
  | case1 done => exact Nat.le_refl _
  | case2 done value =>
    have hnarrow : value.isWide = false := by
      simpa using (Value.inside_cons.mp h).1
    simp [frameLocalsRev, Value.size_verificationType, Value.size, hnarrow]
    omega
  | case3 done value next rest hwide ih =>
    have hrest := (Value.inside_cons.mp (Value.inside_cons.mp h).2).2
    have := ih hrest
    rw [frameLocalsRev, if_pos hwide]
    simp only [VerificationType.slots_cons, Value.size_verificationType, Value.size, hwide, if_true,
      List.length_cons] at this ⊢
    omega
  | case4 done value next rest hnarrow ih =>
    have := ih (Value.inside_cons.mp h).2
    rw [frameLocalsRev, if_neg hnarrow]
    simp only [VerificationType.slots_cons, Value.size_verificationType, Value.size, hnarrow,
      Bool.false_eq_true, if_false, List.length_cons] at this ⊢
    omega

/-- **What a frame shows of the locals takes no more slots than there are.** -/
theorem slots_frameLocals_le {locals : List Value} (h : Value.Inside locals) :
    VerificationType.slots (frameLocals locals) ≤ locals.length := by
  unfold frameLocals
  rw [VerificationType.slots_reverse]
  have hle := slots_frameLocalsRev_le h []
  rw [VerificationType.slots_nil, Nat.zero_add] at hle
  exact Nat.le_trans (VerificationType.slots_dropWhile_le _ _) hle

theorem slots_frame_stack (state : FlowState) (target : Label) :
    VerificationType.slots (state.frame target).stack = state.stackSize := by
  have hsizes : VerificationType.size ∘ Value.verificationType = Value.size :=
    funext Value.size_verificationType
  rw [frame, VerificationType.slots_reverse, VerificationType.slots, List.map_map, hsizes]
  rfl

end FlowState

end JvmClass
