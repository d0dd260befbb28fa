/-
  Operand stacks slot by slot.

  * `slotsOf` is a stack as a sequence of slots: a `long` or a `double` gives
    two, any other value one;
  * `StackOp.onSlots` is what an instruction that rearranges the stack does to
    slots, and `StackOp.cuts` are the places where it cuts the stack;
  * `exists_append_iff`: a cut lies between two values where it splits none;
  * `FlowStep.takeSlots` takes operands of a number of slots in all;
  * `StackOp.run_eq`: such an instruction takes the slots above its first cut,
    then those above its second cut, and puts them back in another order;
  * `simple_onSlots`: the instructions refine what they do to slots.
-/
import JvmClass.Proofs.Flow.Step

namespace JvmClass

/-- A slot of an operand stack, and what lies in it. -/
inductive Slot where
  | whole (value : Value)
  | upper (value : Value)
  | lower (value : Value)
  deriving DecidableEq

/-- The slots of a value, the top one first. -/
def Value.slots (value : Value) : List Slot :=
  if value.isWide then [.upper value, .lower value] else [.whole value]

/-- The slots of operands, the top of the stack first. -/
def slotsOf (stack : List Value) : List Slot := stack.flatMap Value.slots

/-- A value of two slots lies across the place under the first `count` slots. -/
def Splits (stack : List Value) (count : Nat) : Prop :=
  ∃ above value below, stack = above ++ value :: below ∧ value.isWide = true ∧
    (slotsOf above).length + 1 = count

namespace StackOp

/-- The places where an instruction cuts the stack, counted in slots from the
    top. -/
def cuts : StackOp → List Nat
  | pop => [1]
  | pop2 => [2]
  | dup => [1]
  | dupX1 => [1, 2]
  | dupX2 => [1, 3]
  | dup2 => [2]
  | dup2X1 => [2, 3]
  | dup2X2 => [2, 4]
  | swap => [1, 2]

/-- What an instruction does to slots, the top one first. -/
def onSlots {α : Type} : StackOp → List α → Option (List α)
  | pop, _ :: rest => some rest
  | pop2, _ :: _ :: rest => some rest
  | dup, a :: rest => some (a :: a :: rest)
  | dupX1, a :: b :: rest => some (a :: b :: a :: rest)
  | dupX2, a :: b :: c :: rest => some (a :: b :: c :: a :: rest)
  | dup2, a :: b :: rest => some (a :: b :: a :: b :: rest)
  | dup2X1, a :: b :: c :: rest => some (a :: b :: c :: a :: b :: rest)
  | dup2X2, a :: b :: c :: d :: rest => some (a :: b :: c :: d :: a :: b :: rest)
  | swap, a :: b :: rest => some (b :: a :: rest)
  | _, _ => none

/-- How many slots lie above the first cut. -/
def first : StackOp → Nat
  | pop | dup | dupX1 | dupX2 | swap => 1
  | pop2 | dup2 | dup2X1 | dup2X2 => 2

/-- How many slots lie between the first cut and the second. -/
def second : StackOp → Nat
  | pop | pop2 | dup | dup2 => 0
  | dupX1 | dup2X1 | swap => 1
  | dupX2 | dup2X2 => 2

/-- What takes the place of what lies above the first cut, and of what lies
    between the first cut and the second. -/
def arrange {α : Type} (above below : List α) : StackOp → List α
  | pop | pop2 => []
  | swap => below ++ above
  | _ => above ++ below ++ above

theorem mem_cuts {op : StackOp} {count : Nat} :
    count ∈ op.cuts ↔ count = op.first ∨ count = op.first + op.second := by
  cases op <;> simp [cuts, first, second]

theorem onSlots_append {α : Type} (op : StackOp) {above below : List α} (rest : List α)
    (habove : above.length = op.first) (hbelow : below.length = op.second) :
    op.onSlots (above ++ (below ++ rest)) = some (op.arrange above below ++ rest) := by
  match op, above, below, habove, hbelow with
  | pop, [_], [], _, _ => rfl
  | pop2, [_, _], [], _, _ => rfl
  | dup, [_], [], _, _ => rfl
  | dupX1, [_], [_], _, _ => rfl
  | dupX2, [_], [_, _], _, _ => rfl
  | dup2, [_, _], [], _, _ => rfl
  | dup2X1, [_, _], [_], _, _ => rfl
  | dup2X2, [_, _], [_, _], _, _ => rfl
  | swap, [_], [_], _, _ => rfl

end StackOp

/-! ## Slots of a stack -/

theorem slotsOf_append (above below : List Value) :
    slotsOf (above ++ below) = slotsOf above ++ slotsOf below := List.flatMap_append

theorem length_slotsOf_cons (value : Value) (stack : List Value) :
    (slotsOf (value :: stack)).length = (if value.isWide then 2 else 1) + (slotsOf stack).length := by
  rw [slotsOf, List.flatMap_cons, List.length_append]
  cases h : value.isWide <;> simp [Value.slots, h, slotsOf]

theorem length_slotsOf (s : FlowState) : (slotsOf s.stack).length = s.stackSize := by
  unfold FlowState.stackSize
  induction s.stack with
  | nil => rfl
  | cons value stack ih =>
    rw [length_slotsOf_cons, ih]
    rfl

theorem eq_nil_of_slotsOf {stack : List Value} (h : (slotsOf stack).length = 0) : stack = [] := by
  cases stack with
  | nil => rfl
  | cons value stack =>
    rw [length_slotsOf_cons] at h
    split at h <;> omega

/-- Of two upper parts of a stack, the one with fewer slots is part of the
    other one. -/
theorem upper_of_slotsOf {above below above' below' : List Value}
    (h : above ++ below = above' ++ below')
    (hle : (slotsOf above).length ≤ (slotsOf above').length) :
    ∃ middle, above' = above ++ middle ∧ below = middle ++ below' := by
  rcases List.append_eq_append_iff.mp h with ⟨middle, rfl, rfl⟩ | ⟨middle, rfl, rfl⟩
  · exact ⟨middle, rfl, rfl⟩
  · rw [slotsOf_append, List.length_append] at hle
    obtain rfl : middle = [] := eq_nil_of_slotsOf (by omega)
    exact ⟨[], by simp, by simp⟩

theorem not_splits_append {above below : List Value} :
    ¬ Splits (above ++ below) (slotsOf above).length := by
  rintro ⟨above', value, below', h, hwide, hcount⟩
  obtain ⟨middle, rfl, hmiddle⟩ := upper_of_slotsOf h.symm (by omega)
  rw [slotsOf_append, List.length_append] at hcount
  -- one slot lies between the value and the cut, and the value has two
  cases middle with
  | nil => simp [slotsOf] at hcount
  | cons first middle =>
    obtain ⟨rfl, -⟩ := List.cons.inj hmiddle
    rw [length_slotsOf_cons, if_pos hwide] at hcount
    omega

theorem exists_append_of_not_splits {stack : List Value} {count : Nat}
    (hle : count ≤ (slotsOf stack).length) (hsplits : ¬ Splits stack count) :
    ∃ above below, stack = above ++ below ∧ (slotsOf above).length = count := by
  induction stack generalizing count with
  | nil => exact ⟨[], [], rfl, (Nat.le_zero.mp hle).symm⟩
  | cons value stack ih =>
    by_cases hzero : count = 0
    · exact ⟨[], _, rfl, hzero.symm⟩
    have hnext : ∃ fewer, count = (if value.isWide then 2 else 1) + fewer := by
      by_cases hwide : value.isWide
      · have hone : count ≠ 1 := by
          rintro rfl
          exact hsplits ⟨[], value, stack, rfl, hwide, rfl⟩
        exact ⟨count - 2, by rw [if_pos hwide]; omega⟩
      · exact ⟨count - 1, by rw [if_neg hwide]; omega⟩
    obtain ⟨fewer, rfl⟩ := hnext
    rw [length_slotsOf_cons] at hle
    have hfewer : ¬ Splits stack fewer := by
      rintro ⟨above, wide, below, rfl, hwide, rfl⟩
      refine hsplits ⟨value :: above, wide, below, rfl, hwide, ?_⟩
      rw [length_slotsOf_cons, Nat.add_assoc]
    obtain ⟨above, below, rfl, rfl⟩ := ih (Nat.le_of_add_le_add_left hle) hfewer
    exact ⟨value :: above, below, rfl, length_slotsOf_cons value above⟩

/-- **A cut lies between two values where it splits none.** -/
theorem exists_append_iff {stack : List Value} {count : Nat} :
    (∃ above below, stack = above ++ below ∧ (slotsOf above).length = count) ↔
      count ≤ (slotsOf stack).length ∧ ¬ Splits stack count := by
  constructor
  · rintro ⟨above, below, rfl, rfl⟩
    refine ⟨?_, not_splits_append⟩
    rw [slotsOf_append, List.length_append]
    exact Nat.le_add_right _ _
  · rintro ⟨hle, hsplits⟩
    exact exists_append_of_not_splits hle hsplits

/-! ## Taking slots -/

namespace FlowStep

variable {locals stack : List Value} {t : FlowState}

theorem pop_eq_ok {value : Value} :
    pop ⟨locals, stack, false⟩ = .ok (value, t) ↔
      ∃ rest, stack = value :: rest ∧ t = ⟨locals, rest, false⟩ := by
  cases stack with
  | nil => exact ⟨nofun, nofun⟩
  | cons top stack =>
    constructor
    · intro h
      cases h
      exact ⟨stack, rfl, rfl⟩
    · rintro ⟨rest, h, rfl⟩
      cases h
      rfl

theorem popOne_eq_ok {value : Value} :
    popOne ⟨locals, stack, false⟩ = .ok (value, t) ↔
      ∃ rest, stack = value :: rest ∧ value.isWide = false ∧ t = ⟨locals, rest, false⟩ := by
  rw [popOne, bind_eq_ok]
  constructor
  · rintro ⟨popped, u, hpop, h⟩
    obtain ⟨rest, rfl, rfl⟩ := pop_eq_ok.mp hpop
    change (if _ then _ else _ : FlowStep _) _ = _ at h
    split at h
    next => cases h
    next hone =>
      cases h
      exact ⟨rest, rfl, by simpa using hone, rfl⟩
  · rintro ⟨rest, rfl, hone, rfl⟩
    refine ⟨value, _, pop_eq_ok.mpr ⟨rest, rfl, rfl⟩, ?_⟩
    change (if _ then _ else _ : FlowStep _) _ = _
    rw [if_neg (by simp [hone])]
    rfl

/-- Take operands of `count` slots in all; the top one comes first. -/
def takeSlots : (count : Nat) → FlowStep (List Value)
  | 0 => return []
  | 1 => do return [← popOne]
  | count + 2 => do
    let value ← pop
    if value.isWide then return value :: (← takeSlots count)
    else return value :: (← takeSlots (count + 1))

/-- **What is taken lies on top, and has as many slots.** -/
theorem takeSlots_eq_ok {count : Nat} {taken : List Value} :
    takeSlots count ⟨locals, stack, false⟩ = .ok (taken, t) ↔
      ∃ rest, stack = taken ++ rest ∧ (slotsOf taken).length = count ∧
        t = ⟨locals, rest, false⟩ := by
  fun_induction takeSlots count generalizing stack taken with
  | case1 =>
    constructor
    · intro h
      cases h
      exact ⟨stack, rfl, rfl, rfl⟩
    · rintro ⟨rest, rfl, hcount, rfl⟩
      obtain rfl := eq_nil_of_slotsOf hcount
      rfl
  | case2 =>
    rw [bind_eq_ok]
    constructor
    · rintro ⟨value, u, hpop, h⟩
      obtain ⟨rest, rfl, hone, rfl⟩ := popOne_eq_ok.mp hpop
      cases h
      exact ⟨rest, rfl, by rw [length_slotsOf_cons, hone]; rfl, rfl⟩
    · rintro ⟨rest, rfl, hcount, rfl⟩
      cases taken with
      | nil => cases hcount
      | cons value taken =>
        rw [length_slotsOf_cons] at hcount
        split at hcount
        next => omega
        next hone =>
          obtain rfl : taken = [] := eq_nil_of_slotsOf (by omega)
          exact ⟨value, _, popOne_eq_ok.mpr ⟨rest, rfl, by simpa using hone, rfl⟩, rfl⟩
  | case3 count ih₁ ih₂ =>
    rw [bind_eq_ok]
    constructor
    · rintro ⟨value, u, hpop, h⟩
      obtain ⟨stack, rfl, rfl⟩ := pop_eq_ok.mp hpop
      split at h
      next hwide =>
        obtain ⟨more, _, hmore, hdone⟩ := bind_eq_ok.mp h
        cases hdone
        obtain ⟨rest, rfl, hcount, rfl⟩ := ih₁.mp hmore
        exact ⟨rest, rfl, by rw [length_slotsOf_cons, if_pos hwide]; omega, rfl⟩
      next hone =>
        obtain ⟨more, _, hmore, hdone⟩ := bind_eq_ok.mp h
        cases hdone
        obtain ⟨rest, rfl, hcount, rfl⟩ := ih₂.mp hmore
        exact ⟨rest, rfl, by rw [length_slotsOf_cons, if_neg hone]; omega, rfl⟩
    · rintro ⟨rest, rfl, hcount, rfl⟩
      cases taken with
      | nil => cases hcount
      | cons value more =>
        rw [length_slotsOf_cons] at hcount
        refine ⟨value, _, pop_eq_ok.mpr ⟨more ++ rest, rfl, rfl⟩, ?_⟩
        split
        next hwide =>
          rw [if_pos hwide] at hcount
          exact bind_eq_ok.mpr ⟨more, _, ih₁.mpr ⟨rest, rfl, by omega, rfl⟩, rfl⟩
        next hone =>
          rw [if_neg hone] at hcount
          exact bind_eq_ok.mpr ⟨more, _, ih₂.mpr ⟨rest, rfl, by omega, rfl⟩, rfl⟩

section
variable {α : Type} (f : List Value → FlowStep α)

theorem takeSlots_zero_bind : takeSlots 0 >>= f = f [] := pure_bind _ _

theorem takeSlots_one_bind : takeSlots 1 >>= f = popOne >>= fun value => f [value] := by
  rw [takeSlots, bind_assoc]
  exact bind_congr fun value => pure_bind _ _

theorem takeSlots_two_bind : takeSlots 2 >>= f = pop >>= fun value =>
    if value.isWide then f [value] else popOne >>= fun next => f [value, next] := by
  rw [takeSlots, bind_assoc]
  refine bind_congr fun value => ?_
  split
  · rw [takeSlots_zero_bind, pure_bind]
  · rw [takeSlots_one_bind, bind_assoc]
    exact bind_congr fun next => pure_bind _ _

end

end FlowStep

namespace StackOp

open FlowStep

/-- **An instruction takes the slots above its first cut, then those above its
    second cut, and puts them back in another order.** -/
theorem run_eq (op : StackOp) :
    op.run = (takeSlots op.first >>= fun above => takeSlots op.second >>= fun below =>
      pushAll (op.arrange above below).reverse) := by
  cases op with
  | pop | pop2 | dup | dupX1 | dupX2 | dup2 | dup2X2 | swap =>
    simp only [first, second, takeSlots_zero_bind, takeSlots_one_bind, takeSlots_two_bind, arrange]
    rfl
  | dup2X1 =>
    simp only [first, second, takeSlots_one_bind, takeSlots_two_bind, arrange]
    refine bind_congr fun value => ?_
    -- it takes the next value before it looks at the size of the first
    split
    · exact bind_congr fun next => rfl
    · exact bind_congr fun next => rfl

variable {locals stack : List Value} {t : FlowState}

/-- **What an instruction does to a strict state.** -/
theorem run_eq_ok (op : StackOp) :
    op.run ⟨locals, stack, false⟩ = .ok ((), t) ↔
      ∃ above below rest, stack = above ++ (below ++ rest) ∧
        (slotsOf above).length = op.first ∧ (slotsOf below).length = op.second ∧
        t = ⟨locals, op.arrange above below ++ rest, false⟩ := by
  have hpush : ∀ values rest, pushAll values.reverse ⟨locals, rest, false⟩ =
      .ok ((), ⟨locals, values ++ rest, false⟩) := by
    intro values rest
    conv_rhs => rw [← values.reverse_reverse]
    rfl
  rw [run_eq]
  constructor
  · intro h
    obtain ⟨above, _, habove, h⟩ := bind_eq_ok.mp h
    obtain ⟨stack, rfl, hfirst, rfl⟩ := takeSlots_eq_ok.mp habove
    obtain ⟨below, _, hbelow, h⟩ := bind_eq_ok.mp h
    obtain ⟨rest, rfl, hsecond, rfl⟩ := takeSlots_eq_ok.mp hbelow
    rw [hpush] at h
    cases h
    exact ⟨above, below, rest, rfl, hfirst, hsecond, rfl⟩
  · rintro ⟨above, below, rest, rfl, hfirst, hsecond, rfl⟩
    refine bind_eq_ok.mpr ⟨above, _, takeSlots_eq_ok.mpr ⟨below ++ rest, rfl, hfirst, rfl⟩, ?_⟩
    exact bind_eq_ok.mpr ⟨below, _, takeSlots_eq_ok.mpr ⟨rest, rfl, hsecond, rfl⟩, hpush _ _⟩

theorem slotsOf_arrange (op : StackOp) (above below : List Value) :
    slotsOf (op.arrange above below) = op.arrange (slotsOf above) (slotsOf below) := by
  cases op with
  | pop | pop2 => rfl
  | dup | dupX1 | dupX2 | dup2 | dup2X1 | dup2X2 | swap =>
    simp only [arrange, slotsOf_append]

/-- The two cuts of an instruction lie between values where neither of them
    splits one. -/
theorem exists_parts_iff (op : StackOp) :
    (∃ above below rest, stack = above ++ (below ++ rest) ∧
      (slotsOf above).length = op.first ∧ (slotsOf below).length = op.second) ↔
      ∀ count ∈ op.cuts, count ≤ (slotsOf stack).length ∧ ¬ Splits stack count := by
  simp only [← exists_append_iff, mem_cuts, forall_eq_or_imp, forall_eq]
  constructor
  · rintro ⟨above, below, rest, rfl, hfirst, hsecond⟩
    refine ⟨⟨above, _, rfl, hfirst⟩, above ++ below, rest, (List.append_assoc ..).symm, ?_⟩
    rw [slotsOf_append, List.length_append, hfirst, hsecond]
  · rintro ⟨⟨above, tail, rfl, hfirst⟩, upper, rest, h, hboth⟩
    obtain ⟨below, rfl, rfl⟩ := upper_of_slotsOf h (by omega)
    rw [slotsOf_append, List.length_append] at hboth
    exact ⟨above, below, rest, rfl, hfirst, by omega⟩

end StackOp

/-- **The instructions that rearrange the stack refine what they do to slots**:
    in a strict state, one runs where there are enough slots and no cut splits
    a value of two slots, and then it changes the stack slot by slot, and
    nothing else. -/
theorem Flow.simple_onSlots {opcode : UInt8} {op : StackOp} {s : FlowState}
    (hop : StackOp.ofOpcode? opcode = some op) (hs : s.lenient = false) :
    ((∃ t, simple opcode s = .ok ((), t)) ↔
      ∀ count ∈ op.cuts, count ≤ s.stackSize ∧ ¬ Splits s.stack count) ∧
    ∀ t, simple opcode s = .ok ((), t) →
      op.onSlots (slotsOf s.stack) = some (slotsOf t.stack) ∧
      t.locals = s.locals ∧ t.lenient = s.lenient := by
  have hrun : simple opcode = op.run := by simp only [simple, hop]
  rw [hrun, ← length_slotsOf, ← op.exists_parts_iff]
  obtain ⟨locals, stack, lenient⟩ := s
  obtain rfl : lenient = false := hs
  constructor
  · constructor
    · rintro ⟨t, h⟩
      obtain ⟨above, below, rest, hstack, hfirst, hsecond, -⟩ := op.run_eq_ok.mp h
      exact ⟨above, below, rest, hstack, hfirst, hsecond⟩
    · rintro ⟨above, below, rest, hstack, hfirst, hsecond⟩
      exact ⟨_, op.run_eq_ok.mpr ⟨above, below, rest, hstack, hfirst, hsecond, rfl⟩⟩
  · intro t h
    obtain ⟨above, below, rest, rfl, hfirst, hsecond, rfl⟩ := op.run_eq_ok.mp h
    refine ⟨?_, rfl, rfl⟩
    simp only [slotsOf_append, StackOp.slotsOf_arrange]
    exact op.onSlots_append _ hfirst hsecond

/-- `dup2_x2` puts a copy of a `long` under the two values below it. -/
theorem Flow.simple_onSlots_dup2X2 :
    ∃ t, simple 0x5e ⟨[], [.long, .integer, .null], false⟩ = .ok ((), t) ∧
      slotsOf t.stack = [.upper .long, .lower .long, .whole .integer, .whole .null,
        .upper .long, .lower .long] := by
  obtain ⟨hruns, hslots⟩ := Flow.simple_onSlots (s := ⟨[], [.long, .integer, .null], false⟩)
    (show StackOp.ofOpcode? 0x5e = some .dup2X2 from rfl) rfl
  have hparts : ∀ count ∈ StackOp.dup2X2.cuts, ∃ above below,
      [.long, .integer, .null] = above ++ below ∧ (slotsOf above).length = count := by
    intro count hcount
    rcases StackOp.mem_cuts.mp hcount with rfl | rfl
    · exact ⟨[.long], [.integer, .null], rfl, rfl⟩
    · exact ⟨[.long, .integer, .null], [], rfl, rfl⟩
  obtain ⟨t, ht⟩ := hruns.mpr fun count hcount => exists_append_iff.mp (hparts count hcount)
  exact ⟨t, ht, (Option.some.inj (hslots t ht).1).symm⟩

end JvmClass
