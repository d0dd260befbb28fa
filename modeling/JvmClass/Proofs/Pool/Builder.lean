/-
  What a constant pool under construction holds.

  * `Builder.Valid`: the slots are those of entries after the reserved slot 0,
    there is room for them, and every index that is remembered leads to its
    entry; `add_valid` keeps it and only adds slots;
  * `yields_utf8`, `yields_classRef`, …: the index that a step returns stands
    for what was asked for, in every pool that goes on from there;
  * `Builder.reads_write`: the bytes of a pool are read as its slots.
-/
import JvmClass.Pool.Builder
import JvmClass.Proofs.Growing
import JvmClass.Proofs.Pool.Entry
import JvmClass.Proofs.Result

namespace JvmClass.Pool

open Reader

/-! ## The pool and its builder -/

/-- The pool with the slots filled so far. -/
def Builder.toPool (builder : Builder) : Pool := ⟨builder.entries⟩

/-- The slots are in order and the remembered indices lead to their entries. -/
structure Builder.Valid (builder : Builder) : Prop where
  slots : ∃ entries : List Entry, builder.entries.toList = .reserved :: entries.flatMap Entry.slots ∧
    ∀ entry ∈ entries, entry ≠ .reserved
  size_le : builder.size ≤ Builder.maxSlots
  found : ∀ (entry : Entry) (index : Index), builder.indices[entry]? = some index →
    builder.entries[index.toNat]? = some entry ∧ entry ≠ .reserved

instance : Growing Builder where
  Valid := Builder.Valid
  Extends b c := b.entries.toList <+: c.entries.toList
  refl _ := List.prefix_refl _
  trans := List.IsPrefix.trans

namespace Builder

theorem valid_empty : Valid empty where
  slots := ⟨[], rfl, by simp⟩
  size_le := by decide
  found _ _ h := by simp [empty] at h

variable {builder : Builder}

theorem Valid.toNat_ofNat (h : builder.Valid) {i : Nat} (hle : i ≤ builder.size) :
    (UInt16.ofNat i).toNat = i := by
  have hsize := h.size_le
  rw [UInt16.toNat_ofNat']
  simp only [maxSlots] at hsize
  omega

theorem Valid.getElem?_zero (h : builder.Valid) : builder.entries[0]? = some .reserved := by
  obtain ⟨entries, hslots, -⟩ := h.slots
  rw [← Array.getElem?_toList, hslots]; rfl

@[simp] theorem entries_push (entry : Entry) :
    (builder.push entry).entries.toList = builder.entries.toList ++ entry.slots := by
  simp [push]

theorem size_push (entry : Entry) :
    (builder.push entry).size = builder.size + entry.slots.length := by
  simp only [size, ← Array.length_toList, entries_push, List.length_append]

theorem getElem?_push_size (entry : Entry) :
    (builder.push entry).entries[builder.size]? = some entry := by
  rw [← Array.getElem?_toList, entries_push, List.getElem?_append_right (by simp [size])]
  have : entry.slots[0]? = some entry := by unfold Entry.slots; split <;> rfl
  simpa [size] using this

theorem getElem?_push_of_some {i : Nat} {e : Entry} (h : builder.entries[i]? = some e)
    (entry : Entry) : (builder.push entry).entries[i]? = some e := by
  rw [← Array.getElem?_toList] at h ⊢
  rw [entries_push, List.getElem?_append_left (by
    rw [List.getElem?_eq_some_iff] at h; exact h.1), h]

theorem Valid.push (h : builder.Valid) {entry : Entry} (hreserved : entry ≠ .reserved)
    (hroom : builder.size + entry.slots.length ≤ maxSlots) : (builder.push entry).Valid where
  slots := by
    obtain ⟨entries, hslots, hall⟩ := h.slots
    refine ⟨entries ++ [entry], by simp [hslots], ?_⟩
    intro e he
    rcases List.mem_append.mp he with he | he
    · exact hall e he
    · rw [List.mem_singleton.mp he]; exact hreserved
  size_le := by rw [size_push]; exact hroom
  found e index he := by
    have hindices : (builder.push entry).indices =
        builder.indices.insert entry (UInt16.ofNat builder.size) := rfl
    rw [hindices, Std.HashMap.getElem?_insert] at he
    split at he
    next heq =>
      have heq : entry = e := by simpa using heq
      subst heq
      obtain rfl : UInt16.ofNat builder.size = index := by simpa using he
      exact ⟨by rw [h.toNat_ofNat (Nat.le_refl _)]; exact getElem?_push_size entry, hreserved⟩
    next =>
      obtain ⟨hget, hne⟩ := h.found e index he
      exact ⟨getElem?_push_of_some hget entry, hne⟩

end Builder

theorem get_of_getElem? {builder : Builder} {index : Index} {entry : Entry}
    (h : builder.entries[index.toNat]? = some entry) (hreserved : entry ≠ .reserved) :
    builder.toPool.get index = .ok entry := by
  simp only [get, Builder.toPool, h]
  cases entry with
  | reserved => exact absurd rfl hreserved
  | _ => rfl

/-- Slot 0 holds nothing. -/
theorem ne_zero_of_get {builder : Builder} (hvalid : builder.Valid) {index : Index}
    {entry : Entry} (h : builder.toPool.get index = .ok entry) : index ≠ 0 := by
  rintro rfl
  have hzero := hvalid.getElem?_zero
  simp only [get, Builder.toPool, UInt16.toNat_zero, hzero] at h
  exact nomatch h

theorem add_mk (entry : Entry) (entries : Array Entry) (indices : Std.HashMap Entry Index) :
    add entry ⟨entries, indices⟩ =
      match indices[entry]? with
      | some index => .ok index ⟨entries, indices⟩
      | none =>
        if entries.size + entry.slots.length > Builder.maxSlots then
          .error .poolFull ⟨entries, indices⟩
        else
          .ok (UInt16.ofNat entries.size)
            ⟨entries ++ entry.slots, indices.insert entry (UInt16.ofNat entries.size)⟩ := rfl

/-- **The index of an entry leads to it** from then on. -/
theorem yields_add (entry : Entry) (hreserved : entry ≠ .reserved) :
    Yields (add entry) fun builder index => builder.toPool.get index = .ok entry := by
  intro builder index next hvalid hrun
  have hlater : ∀ next : Builder, next.entries[index.toNat]? = some entry →
      ∀ final : Builder, next.entries.toList <+: final.entries.toList →
        final.toPool.get index = .ok entry := by
    intro next hnext final hle
    refine get_of_getElem? ?_ hreserved
    rw [← Array.getElem?_toList] at hnext ⊢
    obtain ⟨added, hadded⟩ := hle
    rw [← hadded, List.getElem?_append_left (List.getElem?_eq_some_iff.mp hnext).1, hnext]
  unfold add at hrun
  split at hrun
  next found hfound =>
    cases hrun
    exact ⟨hvalid, List.prefix_refl _, fun final _ hle =>
      hlater builder (hvalid.found entry _ hfound).1 final hle⟩
  next hfound =>
    split at hrun
    next => exact nomatch hrun
    next hroom =>
      cases hrun
      have hpush := hvalid.push hreserved (by omega)
      have hlt := hvalid.toNat_ofNat (Nat.le_refl builder.size)
      refine ⟨hpush, by simp [Growing.Extends], fun final _ hle => ?_⟩
      exact hlater _ (by rw [hlt]; exact Builder.getElem?_push_size entry) final hle

/-! ## Entries with their references -/

section
variable {pool : Pool} {index name descriptor : Index} {text : String}

theorem utf8_of_get (h : pool.get index = .ok (.utf8 text)) : pool.utf8 index = .ok text := by
  simp [utf8, h, Bind.bind, Except.bind, Pure.pure, Except.pure]

theorem className_of_get (h : pool.get index = .ok (.classRef name))
    (hname : pool.utf8 name = .ok text) : pool.className index = .ok text := by
  simp [className, h, hname, Bind.bind, Except.bind]

theorem nameAndType_of_get {first second : String}
    (h : pool.get index = .ok (.nameAndType name descriptor))
    (hname : pool.utf8 name = .ok first) (hdescriptor : pool.utf8 descriptor = .ok second) :
    pool.nameAndType index = .ok (first, second) := by
  simp [nameAndType, h, hname, hdescriptor, Bind.bind, Except.bind, Pure.pure, Except.pure]

end

theorem yields_utf8 (text : String) :
    Yields (Intern.utf8 text) fun builder index => builder.toPool.utf8 index = .ok text :=
  (yields_add _ (by simp)).mono fun _ _ _ h => utf8_of_get h

theorem yields_addOne {step : Interning Index} (wrap : Index → Entry)
    {P : Builder → Index → Prop} (hstep : Yields step P)
    (hreserved : ∀ inner, wrap inner ≠ .reserved) :
    Yields (step >>= fun inner => add (wrap inner)) fun builder index =>
      ∃ inner, builder.toPool.get index = .ok (wrap inner) ∧ P builder inner :=
  hstep.bind fun inner => (yields_add _ (hreserved inner)).mono fun _ _ _ h hinner =>
    ⟨inner, h, hinner⟩

theorem yields_addTwo {first second : Interning Index} (wrap : Index → Index → Entry)
    {P Q : Builder → Index → Prop} (hfirst : Yields first P) (hsecond : Yields second Q)
    (hreserved : ∀ a b, wrap a b ≠ .reserved) :
    Yields (first >>= fun a => second >>= fun b => add (wrap a b)) fun builder index =>
      ∃ a b, builder.toPool.get index = .ok (wrap a b) ∧ P builder a ∧ Q builder b :=
  hfirst.bind fun a => hsecond.bind fun b => (yields_add _ (hreserved a b)).mono
    fun _ _ _ h hb ha => ⟨a, b, h, ha, hb⟩

theorem yields_classRef_get (name : String) :
    Yields (Intern.classRef name) fun builder index => ∃ inner,
      builder.toPool.get index = .ok (.classRef inner) ∧ builder.toPool.utf8 inner = .ok name :=
  yields_addOne .classRef (yields_utf8 name) (by simp)

theorem yields_classRef (name : String) :
    Yields (Intern.classRef name) fun builder index =>
      builder.toPool.className index = .ok name :=
  (yields_classRef_get name).mono fun _ _ _ ⟨_, h, hname⟩ => className_of_get h hname

theorem yields_nameAndType (name descriptor : String) :
    Yields (Intern.nameAndType name descriptor) fun builder index =>
      builder.toPool.nameAndType index = .ok (name, descriptor) :=
  (yields_addTwo .nameAndType (yields_utf8 name) (yields_utf8 descriptor) (by simp)).mono
    fun _ _ _ ⟨_, _, h, hname, hdescriptor⟩ => nameAndType_of_get h hname hdescriptor

theorem yields_fieldRef (field : Member) :
    Yields (Intern.fieldRef field) fun builder index =>
      builder.toPool.member index = .ok ⟨field, true, false⟩ :=
  (yields_addTwo .fieldRef (yields_classRef field.owner)
    (yields_nameAndType field.name field.descriptor) (by simp)).mono
    fun _ _ _ ⟨_, _, h, howner, hnameAndType⟩ => by
      simp [Pool.member, Pool.member.resolve, h, howner, hnameAndType, Bind.bind, Except.bind,
        Pure.pure, Except.pure]

theorem yields_methodRef (method : Member) (interface : Bool) :
    Yields (Intern.methodRef method interface) fun builder index =>
      builder.toPool.member index = .ok ⟨method, false, interface⟩ :=
  (yields_addTwo
    (fun owner nameAndType => if interface then .interfaceMethodRef owner nameAndType
      else .methodRef owner nameAndType)
    (yields_classRef method.owner) (yields_nameAndType method.name method.descriptor)
    (by intros; split <;> simp)).mono
    fun _ _ _ ⟨_, _, h, howner, hnameAndType⟩ => by
      cases interface <;>
      simp_all [Pool.member, Pool.member.resolve, Bind.bind, Except.bind, Pure.pure, Except.pure]

theorem yields_classRef? (name : Option String) :
    Yields (Intern.classRef? name) fun builder index =>
      builder.toPool.className? index = .ok name := by
  cases name with
  | none => exact .pure fun _ _ => rfl
  | some name =>
    refine (yields_classRef_get name).mono fun builder index hvalid ⟨inner, h, hname⟩ => ?_
    have hzero := ne_zero_of_get hvalid h
    simp [className?, hzero, className_of_get h hname, Functor.map, Except.map]

theorem yields_utf8? (text : Option String) :
    Yields (Intern.utf8? text) fun builder index => builder.toPool.utf8? index = .ok text := by
  cases text with
  | none => exact .pure fun _ _ => rfl
  | some text =>
    refine (yields_add (.utf8 text) (by simp)).mono fun builder index hvalid h => ?_
    have hzero := ne_zero_of_get hvalid h
    simp [utf8?, hzero, utf8_of_get h, Functor.map, Except.map]

/-! ## The bytes of a pool -/

/-- The bytes of entries, slot by slot, are those of the entries alone: a
    reserved slot takes none. -/
theorem written_of_slots {entries : List Entry} (hreserved : ∀ entry ∈ entries, entry ≠ .reserved)
    {ws : List Bytes} (h : List.Forall₂ (fun e w => Entry.write e = .ok w)
      (entries.flatMap Entry.slots) ws) :
    ∃ vs, List.Forall₂ Written entries vs ∧ ws.flatten = vs.flatten := by
  induction entries generalizing ws with
  | nil => cases h; exact ⟨[], .nil, rfl⟩
  | cons entry entries ih =>
    have hrest := @ih fun e he => hreserved e (.tail _ he)
    have hentry := hreserved entry (.head _)
    by_cases hwide : entry.isWide
    · rw [List.flatMap_cons, Entry.slots, if_pos hwide] at h
      obtain _ | ⟨hw, _ | ⟨hslot, hws⟩⟩ := h
      cases hslot
      obtain ⟨vs, hvs, hflat⟩ := hrest hws
      exact ⟨_, .cons ⟨hentry, hw⟩ hvs, by simp [hflat]⟩
    · rw [List.flatMap_cons, Entry.slots, if_neg hwide] at h
      obtain _ | ⟨hw, hws⟩ := h
      obtain ⟨vs, hvs, hflat⟩ := hrest hws
      exact ⟨_, .cons ⟨hentry, hw⟩ hvs, by simp [hflat]⟩

/-- A pool that cannot be written holds a text that is too long. -/
theorem Builder.error_of_write {builder : Builder} {cause : Invalid}
    (h : builder.write = .error cause) :
    ∃ text, .utf8 text ∈ builder.entries ∧ 0xFFFF < (ModifiedUtf8.encode text).length ∧
      cause = .utf8Length (ModifiedUtf8.encode text).length := by
  have hentries : builder.entries.toList.mapM Entry.write = .error cause := by
    unfold write at h
    cases hws : builder.entries.toList.mapM Entry.write with
    | error cause' => rw [hws] at h; cases h; rfl
    | ok ws => rw [hws] at h; exact nomatch h
  obtain ⟨entry, hmem, hwrite⟩ := Result.exists_of_mapM_eq_error hentries
  obtain ⟨text, rfl, hlong, hcause⟩ := Entry.error_of_write hwrite
  exact ⟨text, Array.mem_toList_iff.mp hmem, hlong, hcause⟩

/-- **The bytes of a pool are read as its slots.** -/
theorem Builder.reads_write {builder : Builder} (hvalid : builder.Valid) {w : Bytes}
    (h : builder.write = .ok w) :
    Reads (u2 >>= fun count => Pool.read count) w builder.toPool := by
  obtain ⟨entries, hslots, hreserved⟩ := hvalid.slots
  obtain ⟨ws, hws, hw⟩ := Result.bind_eq_ok.mp h
  cases hw
  rw [hslots, Result.mapM_eq_ok] at hws
  obtain _ | ⟨hslot, hrest⟩ := hws
  cases hslot
  obtain ⟨vs, hvs, hflat⟩ := written_of_slots hreserved hrest
  have hlength : builder.size = (entries.flatMap Entry.slots).length + 1 := by
    simpa [size] using congrArg List.length hslots
  have hcount := hvalid.toNat_ofNat (Nat.le_refl builder.size)
  have hpool : builder.toPool = ⟨#[.reserved] ++ (entries.flatMap Entry.slots).toArray⟩ := by
    rw [toPool, ← builder.entries.toArray_toList, hslots]
    simp
  have hread := (reads_slots hvs #[.reserved]).map (g := Pool.mk)
  have hpos : UInt16.ofNat builder.size ≠ 0 := by
    intro hzero
    rw [hzero] at hcount
    simp only [UInt16.toNat_zero] at hcount
    omega
  rw [← hpool, ← hflat, show (entries.flatMap Entry.slots).length =
    (UInt16.ofNat builder.size).toNat - 1 by omega] at hread
  refine (reads_u2 _).bind ?_
  simpa [Pool.read, hpos] using hread

end JvmClass.Pool
