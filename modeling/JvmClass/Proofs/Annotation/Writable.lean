/-
  Annotations that were read can be written.

  * the texts and the numbers in a value or an annotation are its mentions;
  * `enters_writeValue` and `enters_writeOne`: a value or an annotation whose
    values can be counted can be written, or the pool is full;
  * `writeTarget_eq_ok`: a target within a method body has its offsets there;
  * `enters_writeTypeList`: type annotations within a method body can be
    written, or the pool is full.
-/
import JvmClass.Proofs.Annotation.Decoded
import JvmClass.Proofs.Linkage.Mentions

namespace JvmClass

/-! ## Mentions -/

namespace ElementValue

mutual

/-- What a value names. -/
def mentions : ElementValue → List Mention
  | byte value => [.entry (.integer value.toInt32)]
  | char unit => [.entry (.integer unit.toUInt32.toInt32)]
  | double bits => [.entry (.double bits)]
  | float bits => [.entry (.float bits)]
  | int value => [.entry (.integer value)]
  | long value => [.entry (.long value)]
  | short value => [.entry (.integer value.toInt32)]
  | boolean value => [.entry (.integer (if value then 1 else 0))]
  | string value => [.text value]
  | enum descriptor name => [.text descriptor, .text name]
  | classLiteral descriptor => [.text descriptor]
  | nested descriptor values => .text descriptor :: pairsMentions values
  | array values => allMentions values

/-- What the values of a list name. -/
def allMentions : List ElementValue → List Mention
  | [] => []
  | value :: rest => value.mentions ++ allMentions rest

/-- What named values name. -/
def pairsMentions : List (String × ElementValue) → List Mention
  | [] => []
  | (name, value) :: rest => .text name :: (value.mentions ++ pairsMentions rest)

end

end ElementValue

/-- What an annotation names. -/
def Annotation.mentions (a : Annotation) : List Mention :=
  .text a.descriptor :: ElementValue.pairsMentions a.values

namespace Annotations

variable {linked : Prop}

/-! ## Values -/

theorem enters_tagged (tag : Char) (request : Pool.Request) (h : request.bootstrap? = none) :
    Enters (Linker.Tidy linked)
      (do return tagged tag (← (liftM request.index : Linking Pool.Index))) [.entry request]
      (fun _ => True) Invalid.PoolFull :=
  (enters_request request h).last fun _ _ => .pure trivial

mutual

theorem enters_writeValue : ∀ value : ElementValue, value.Countable →
    Enters (Linker.Tidy linked) (writeValue value) value.mentions (fun _ => True)
      Invalid.PoolFull
  | .byte value, _ => enters_tagged 'B' (.integer value.toInt32) rfl
  | .char unit, _ => enters_tagged 'C' (.integer unit.toUInt32.toInt32) rfl
  | .double bits, _ => enters_tagged 'D' (.double bits) rfl
  | .float bits, _ => enters_tagged 'F' (.float bits) rfl
  | .int value, _ => enters_tagged 'I' (.integer value) rfl
  | .long value, _ => enters_tagged 'J' (.long value) rfl
  | .short value, _ => enters_tagged 'S' (.integer value.toInt32) rfl
  | .boolean value, _ => enters_tagged 'Z' (.integer (if value then 1 else 0)) rfl
  | .string value, _ => enters_tagged 's' (.utf8 value) rfl
  | .classLiteral descriptor, _ => enters_tagged 'c' (.utf8 descriptor) rfl
  | .enum descriptor name, _ =>
    (enters_text descriptor).after fun _ => (enters_text name).last fun _ _ => .pure trivial
  | .nested descriptor values, ⟨hcount, hvalues⟩ =>
    (enters_text descriptor).after fun _ => (Enters.count hcount _).silent fun _ _ =>
      (enters_writePairs [] values hvalues).last fun _ _ => .pure trivial
  | .array values, ⟨hcount, hvalues⟩ =>
    (Enters.count hcount _).silent fun _ _ =>
      (enters_writeValues [] values hvalues).last fun _ _ => .pure trivial

theorem enters_writeValues (done : List Bytes) : ∀ values : List ElementValue,
    ElementValue.AllCountable values →
      Enters (Linker.Tidy linked) (writeValues done values) (ElementValue.allMentions values)
        (fun _ => True) Invalid.PoolFull
  | [], _ => .pure trivial
  | value :: rest, ⟨hvalue, hrest⟩ =>
    (enters_writeValue value hvalue).after fun bytes =>
      enters_writeValues (bytes :: done) rest hrest

theorem enters_writePairs (done : List Bytes) : ∀ values : List (String × ElementValue),
    ElementValue.PairsCountable values →
      Enters (Linker.Tidy linked) (writePairs done values) (ElementValue.pairsMentions values)
        (fun _ => True) Invalid.PoolFull
  | [], _ => .pure trivial
  | (name, value) :: rest, ⟨hvalue, hrest⟩ =>
    (enters_text name).after fun index => (enters_writeValue value hvalue).after fun bytes =>
      enters_writePairs ((Bytes.u2 index ++ bytes) :: done) rest hrest

end

/-! ## Annotations -/

theorem enters_writeOne {a : Annotation} (h : a.Countable) :
    Enters (Linker.Tidy linked) (writeOne a) a.mentions (fun _ => True) Invalid.PoolFull := by
  refine (enters_text a.descriptor).after fun _ => (Enters.count h.count _).silent fun _ _ => ?_
  have hvalues := ElementValue.pairsCountable_iff.mpr h.values
  exact (enters_writePairs [] _ hvalues).last fun _ _ => .pure trivial

theorem enters_writeList {list : List Annotation}
    (h : list.length ≤ 0xFFFF ∧ ∀ a ∈ list, a.Countable) :
    Enters (Linker.Tidy linked) (writeList list) (list.flatMap Annotation.mentions)
      (fun _ => True) Invalid.PoolFull :=
  .counted h.1 fun a ha => enters_writeOne (h.2 a ha)

/-! ## Type annotations -/

/-- The layout, if there is one, is that of a method body of `count`
    instructions, if there is one. -/
inductive LayoutOf : Option Layout → Option Nat → Prop where
  | none : LayoutOf none none
  | some {layout : Layout} {starts : List Nat} {length : Nat} (h : layout.Ascends starts length) :
      LayoutOf (some layout) (some starts.length)

theorem writeRange_eq_ok {layout : Layout} {starts : List Nat} {length : Nat}
    (hlayout : layout.Ascends starts length) {range : VariableRange}
    (h : range.start ≤ range.stop ∧ range.stop ≤ starts.length) :
    ∃ w, writeRange layout range = .ok w := by
  obtain ⟨start, hstart⟩ := hlayout.offset_of_le (Nat.le_trans h.1 h.2)
  obtain ⟨stop, hstop⟩ := hlayout.offset_of_le h.2
  have hle : ¬ stop < start := fun hlt => Nat.not_lt.mpr h.1 ((hlayout.lt_iff hstop hstart).mp hlt)
  exact ⟨_, Result.bind_eq_ok.mpr ⟨start, hstart, Result.bind_eq_ok.mpr ⟨stop, hstop, if_neg hle⟩⟩⟩

theorem writeTarget_eq_ok {layout : Option Layout} {count : Option Nat}
    (hlayout : LayoutOf layout count) {target : TypeAnnotation.Target} (h : target.Within count) :
    ∃ w, writeTarget layout target = .ok w := by
  cases target with
  | localVariable type ranges =>
    obtain ⟨_, ⟨⟩, hcount, hranges⟩ := h
    cases hlayout with
    | some hascends =>
      obtain ⟨word, hword⟩ := Enters.count_eq_ok hcount "local variable ranges"
      obtain ⟨ws, hws⟩ := Result.exists_mapM fun range hrange =>
        writeRange_eq_ok hascends (hranges range hrange)
      exact ⟨_, Result.bind_eq_ok.mpr ⟨_, rfl, Result.bind_eq_ok.mpr ⟨word, hword,
        Result.bind_eq_ok.mpr ⟨ws, hws, rfl⟩⟩⟩⟩
  | offset type label =>
    obtain ⟨_, ⟨⟩, hlabel⟩ := h
    cases hlayout with
    | some hascends =>
      obtain ⟨offset, hoffset⟩ := hascends.offset_of_le hlabel
      exact ⟨_, Result.bind_eq_ok.mpr ⟨_, rfl, Result.bind_eq_ok.mpr ⟨offset, hoffset, rfl⟩⟩⟩
  | typeArgument type label index =>
    obtain ⟨_, ⟨⟩, hlabel⟩ := h
    cases hlayout with
    | some hascends =>
      obtain ⟨offset, hoffset⟩ := hascends.offset_of_le hlabel
      exact ⟨_, Result.bind_eq_ok.mpr ⟨_, rfl, Result.bind_eq_ok.mpr ⟨offset, hoffset, rfl⟩⟩⟩
  | _ => exact ⟨_, rfl⟩

/-- **Type annotations within a method body** can be written, or the pool is
    full. -/
theorem enters_writeTypeList {layout : Option Layout} {count : Option Nat}
    (hlayout : LayoutOf layout count) {list : List TypeAnnotation}
    (h : list.length ≤ 0xFFFF ∧ ∀ a ∈ list, a.Within count) :
    Enters (Linker.Tidy linked) (writeTypeList layout list)
      (list.flatMap fun a => a.content.mentions) (fun _ => True) Invalid.PoolFull := by
  refine .counted h.1 fun a ha => ?_
  obtain ⟨w, hw⟩ := writeTarget_eq_ok hlayout (h.2 a ha).target
  refine .bindOk hw ?_
  refine .guard (fun hlong => absurd (h.2 a ha).path (Nat.not_le.mpr hlong)) fun _ => ?_
  exact (enters_writeOne (h.2 a ha).content).last fun _ _ => .pure trivial

end Annotations

end JvmClass
