/-
  What requests of any kind make of a constant pool.

  * a `Request` asks for the index of a value; `Request.Resolves` says what an
    index stands for, and `index_of_resolves`: an index that stands for what is
    asked for is the one that is given;
  * `Builder.Tight`: no entry but the reserved one is there twice, and the index
    of every entry is remembered;
  * `Adds texts step`: whether or not it succeeds, a step keeps a builder tight,
    takes nothing away and adds no other texts, and fails only in a full pool;
    `adds_index` says so of every request;
  * `after_requests`: what follows for the pool after any list of requests.
-/
import JvmClass.Proofs.Pool.Builder

namespace JvmClass.Pool

open Reader

/-! ## Requests -/

/-- A value whose index is asked for. -/
inductive Request where
  | utf8 (text : String)
  | classRef (name : String)
  | string (text : String)
  | integer (value : Int32)
  | float (bits : UInt32)
  | long (value : Int64)
  | double (bits : UInt64)
  | nameAndType (name descriptor : String)
  | fieldRef (member : Member)
  | methodRef (member : Member) (interface : Bool)
  | methodHandle (kind : UInt8) (member : Index)
  | methodType (descriptor : String)
  | dynamic (bootstrap : UInt16) (name descriptor : String)
  | invokeDynamic (bootstrap : UInt16) (name descriptor : String)

namespace Request

/-- Ask for the index. -/
def index : Request → Interning Index
  | utf8 text => Intern.utf8 text
  | classRef name => Intern.classRef name
  | string text => Intern.string text
  | integer value => add (.integer value)
  | float bits => add (.float bits)
  | long value => add (.long value)
  | double bits => add (.double bits)
  | nameAndType name descriptor => Intern.nameAndType name descriptor
  | fieldRef member => Intern.fieldRef member
  | methodRef member interface => Intern.methodRef member interface
  | methodHandle kind member => add (.methodHandle kind member)
  | methodType descriptor => Intern.methodType descriptor
  | dynamic bootstrap name descriptor => Intern.dynamic bootstrap name descriptor
  | invokeDynamic bootstrap name descriptor => Intern.invokeDynamic bootstrap name descriptor

/-- The texts of a value. -/
def texts : Request → List String
  | utf8 text | classRef text | string text | methodType text => [text]
  | nameAndType name descriptor | dynamic _ name descriptor | invokeDynamic _ name descriptor =>
    [name, descriptor]
  | fieldRef member | methodRef member _ => [member.owner, member.name, member.descriptor]
  | integer _ | float _ | long _ | double _ | methodHandle .. => []

/-- What `index` stands for in `pool` is the value. -/
def Resolves (pool : Pool) (index : Index) : Request → Prop
  | utf8 text => pool.utf8 index = .ok text
  | classRef name => pool.className index = .ok name
  | string text => ∃ inner, pool.get index = .ok (.string inner) ∧ pool.utf8 inner = .ok text
  | integer value => pool.get index = .ok (.integer value)
  | float bits => pool.get index = .ok (.float bits)
  | long value => pool.get index = .ok (.long value)
  | double bits => pool.get index = .ok (.double bits)
  | nameAndType name descriptor => pool.nameAndType index = .ok (name, descriptor)
  | fieldRef member => pool.member index = .ok ⟨member, true, false⟩
  | methodRef member interface => pool.member index = .ok ⟨member, false, interface⟩
  | methodHandle kind member => pool.get index = .ok (.methodHandle kind member)
  | methodType descriptor =>
    ∃ inner, pool.get index = .ok (.methodType inner) ∧ pool.utf8 inner = .ok descriptor
  | dynamic bootstrap name descriptor =>
    ∃ inner, pool.get index = .ok (.dynamic bootstrap inner) ∧
      pool.nameAndType inner = .ok (name, descriptor)
  | invokeDynamic bootstrap name descriptor =>
    ∃ inner, pool.get index = .ok (.invokeDynamic bootstrap inner) ∧
      pool.nameAndType inner = .ok (name, descriptor)

/-- **The index of a value stands for it** from then on. -/
theorem yields_index (request : Request) :
    Yields request.index fun builder index => request.Resolves builder.toPool index := by
  cases request with
  | utf8 text => exact yields_utf8 text
  | classRef name => exact yields_classRef name
  | string text => exact yields_addOne .string (yields_utf8 text) (by simp)
  | integer | float | long | double | methodHandle => exact yields_add _ (by simp)
  | nameAndType name descriptor => exact yields_nameAndType name descriptor
  | fieldRef member => exact yields_fieldRef member
  | methodRef member interface => exact yields_methodRef member interface
  | methodType descriptor => exact yields_addOne .methodType (yields_utf8 descriptor) (by simp)
  | dynamic bootstrap name descriptor =>
    exact yields_addOne (.dynamic bootstrap) (yields_nameAndType name descriptor) (by simp)
  | invokeDynamic bootstrap name descriptor =>
    exact yields_addOne (.invokeDynamic bootstrap) (yields_nameAndType name descriptor) (by simp)

end Request

/-! ## Builders without repetition -/

/-- The slots of an entry hold that entry first, and then reserved slots. -/
theorem Entry.of_getElem?_slots {entry other : Entry} {i : Nat} (h : entry.slots[i]? = some other)
    (hreserved : other ≠ .reserved) : i = 0 ∧ entry = other := by
  unfold slots at h
  split at h
  · rcases i with _ | _ | i
    · exact ⟨rfl, Option.some.inj h⟩
    · exact absurd (Option.some.inj h).symm hreserved
    · exact nomatch h
  · rcases i with _ | i
    · exact ⟨rfl, Option.some.inj h⟩
    · exact nomatch h

namespace Builder

variable {builder next last : Builder}

/-- The index of every entry is remembered, except for reserved slots. -/
structure Tight (builder : Builder) : Prop extends builder.Valid where
  remembered : ∀ (i : Nat) (entry : Entry), builder.entries[i]? = some entry →
    entry ≠ .reserved → builder.indices[entry]? = some (UInt16.ofNat i)

theorem tight_empty : Tight empty where
  toValid := valid_empty
  remembered i entry h hreserved := by
    have hmem : entry ∈ #[Entry.reserved] := Array.mem_of_getElem? h
    exact absurd (Array.mem_singleton.mp hmem) hreserved

/-- **No entry is there twice**, except for reserved slots. -/
theorem Tight.slot_unique (h : builder.Tight) {i j : Nat} {entry : Entry}
    (hreserved : entry ≠ .reserved) (hi : builder.entries[i]? = some entry)
    (hj : builder.entries[j]? = some entry) : i = j := by
  have hsame : UInt16.ofNat i = UInt16.ofNat j :=
    Option.some.inj ((h.remembered i entry hi hreserved).symm.trans
      (h.remembered j entry hj hreserved))
  have hlt (k : Nat) (hk : builder.entries[k]? = some entry) : (UInt16.ofNat k).toNat = k :=
    h.toNat_ofNat (Nat.le_of_lt (Array.getElem?_eq_some_iff.mp hk).1)
  rw [← hlt i hi, hsame, hlt j hj]

theorem Tight.push (h : builder.Tight) {entry : Entry} (hreserved : entry ≠ .reserved)
    (hnew : builder.indices[entry]? = none)
    (hroom : builder.size + entry.slots.length ≤ maxSlots) : (builder.push entry).Tight where
  toValid := h.toValid.push hreserved hroom
  remembered i other hi hother := by
    have hindices : (builder.push entry).indices =
        builder.indices.insert entry (UInt16.ofNat builder.size) := rfl
    rw [hindices, Std.HashMap.getElem?_insert]
    rw [← Array.getElem?_toList, entries_push] at hi
    -- Old slots hold other entries; behind them the entry is the only one.
    by_cases hold : i < builder.size
    · rw [List.getElem?_append_left (by simpa [size] using hold), Array.getElem?_toList] at hi
      have hfound := h.remembered i other hi hother
      have hne : ¬ (entry == other) = true := by
        intro heq
        rw [beq_iff_eq.mp heq, hfound] at hnew
        cases hnew
      rw [if_neg hne, hfound]
    · have hlength : builder.entries.toList.length = builder.size := by simp [size]
      rw [List.getElem?_append_right (by omega), hlength] at hi
      obtain ⟨hfirst, rfl⟩ := Entry.of_getElem?_slots hi hother
      obtain rfl : i = builder.size := by omega
      rw [if_pos (beq_self_eq_true entry)]

/-- `next` has what `builder` has, and no texts but those in `texts` besides. -/
structure Grows (texts : List String) (builder next : Builder) : Prop where
  tight : builder.Tight → next.Tight
  le : builder.entries.toList <+: next.entries.toList
  texts : ∀ text, .utf8 text ∈ next.entries → .utf8 text ∈ builder.entries ∨ text ∈ texts

namespace Grows

variable {texts more : List String}

theorem refl (texts : List String) (builder : Builder) : builder.Grows texts builder :=
  ⟨id, List.prefix_refl _, fun _ => .inl⟩

theorem trans (h : builder.Grows texts next) (k : next.Grows texts last) :
    builder.Grows texts last where
  tight := k.tight ∘ h.tight
  le := h.le.trans k.le
  texts text htext := (k.texts text htext).elim (h.texts text) .inr

theorem mono (h : builder.Grows texts next) (hsub : texts ⊆ more) : builder.Grows more next :=
  ⟨h.tight, h.le, fun text htext => (h.texts text htext).imp_right fun hmem => hsub hmem⟩

end Grows

end Builder

/-! ## Steps that succeed or fail -/

section
variable {α β : Type} {texts : List String}

/-- What a step makes of a builder, whether or not it succeeds. -/
def leaves (step : Interning α) (builder : Builder) : Builder :=
  match step builder with
  | .ok _ next | .error _ next => next

/-- Whether or not it succeeds, a step adds no texts but those in `texts`, and it
    fails only if no more than one slot is left. -/
structure Adds (texts : List String) (step : Interning α) : Prop where
  grows : ∀ builder : Builder, builder.Grows texts (leaves step builder)
  full : ∀ (builder : Builder) (cause : Invalid) (next : Builder),
    step builder = .error cause next → cause = .poolFull ∧ Builder.maxSlots ≤ next.size + 1

/-- What a step made of a builder, once it is known what the step did. -/
theorem Adds.grows_of {step : Interning α} (h : Adds texts step) {builder next : Builder}
    (hrun : (∃ a, step builder = .ok a next) ∨ ∃ cause, step builder = .error cause next) :
    builder.Grows texts next := by
  have hgrows := h.grows builder
  rcases hrun with ⟨a, hrun⟩ | ⟨cause, hrun⟩
  all_goals
    rw [leaves, hrun] at hgrows
    exact hgrows

theorem Entry.length_slots_le (entry : Entry) : entry.slots.length ≤ 2 := by
  unfold slots
  split
  · exact Nat.le_refl 2
  · exact Nat.le_succ 1

theorem adds_add {entry : Entry} (hreserved : entry ≠ .reserved)
    (htexts : ∀ text, entry = .utf8 text → text ∈ texts) : Adds texts (add entry) where
  grows builder := by
    unfold leaves add
    cases hfound : builder.indices[entry]? with
    | some index => exact .refl texts builder
    | none =>
      dsimp only
      by_cases hfull : builder.size + entry.slots.length > Builder.maxSlots
      · rw [if_pos hfull]
        exact .refl texts builder
      · rw [if_neg hfull]
        refine ⟨fun h => h.push hreserved hfound (Nat.not_lt.mp hfull), ?_, fun text hmem => ?_⟩
        · rw [Builder.entries_push]
          exact List.prefix_append _ _
        · rw [← Array.mem_toList_iff, Builder.entries_push] at hmem
          refine (List.mem_append.mp hmem).imp Array.mem_toList_iff.mp fun hslot => ?_
          obtain ⟨i, hi⟩ := List.getElem?_of_mem hslot
          exact htexts text (Entry.of_getElem?_slots hi nofun).2
  full builder cause next hrun := by
    unfold add at hrun
    split at hrun
    next => cases hrun
    next =>
      split at hrun
      next hfull =>
        cases hrun
        have hslots := entry.length_slots_le
        exact ⟨rfl, by omega⟩
      next => cases hrun

theorem Adds.bind {x : Interning α} {f : α → Interning β} (hx : Adds texts x)
    (hf : ∀ a, Adds texts (f a)) : Adds texts (x >>= f) where
  grows builder := by
    unfold leaves
    simp only [Bind.bind, EStateM.bind]
    cases hrun : x builder with
    | ok a next => exact (hx.grows_of (.inl ⟨a, hrun⟩)).trans ((hf a).grows next)
    | error cause next => exact hx.grows_of (.inr ⟨cause, hrun⟩)
  full builder cause last hlast := by
    simp only [Bind.bind, EStateM.bind] at hlast
    split at hlast
    next a next hrun => exact (hf a).full next cause last hlast
    next cause' next hrun =>
      cases hlast
      exact hx.full builder cause last hrun

theorem adds_utf8 {text : String} (h : text ∈ texts) : Adds texts (Intern.utf8 text) :=
  adds_add (by simp) fun other heq => by cases heq; exact h

theorem adds_wrap {text : String} (wrap : Index → Entry) (h : text ∈ texts)
    (hreserved : ∀ inner, wrap inner ≠ .reserved) (htext : ∀ inner t, wrap inner ≠ .utf8 t) :
    Adds texts (Intern.utf8 text >>= fun inner => add (wrap inner)) :=
  (adds_utf8 h).bind fun inner => adds_add (hreserved inner) fun t heq => (htext inner t heq).elim

theorem adds_classRef {name : String} (h : name ∈ texts) : Adds texts (Intern.classRef name) :=
  adds_wrap .classRef h nofun nofun

theorem adds_nameAndType {name descriptor : String} (hname : name ∈ texts)
    (hdescriptor : descriptor ∈ texts) : Adds texts (Intern.nameAndType name descriptor) :=
  (adds_utf8 hname).bind fun _ => (adds_utf8 hdescriptor).bind fun _ => adds_add nofun nofun

/-- **A request adds its own texts at most**, whether or not it succeeds, and fails
    only in a full pool. -/
theorem Request.adds_index (request : Request) : Adds request.texts request.index := by
  cases request with
  | utf8 text => exact adds_utf8 (.head _)
  | classRef name => exact adds_classRef (.head _)
  | string text => exact adds_wrap .string (.head _) nofun nofun
  | methodType descriptor => exact adds_wrap .methodType (.head _) nofun nofun
  | integer | float | long | double | methodHandle => exact adds_add nofun nofun
  | nameAndType name descriptor => exact adds_nameAndType (.head _) (.tail _ (.head _))
  | dynamic | invokeDynamic =>
    exact (adds_nameAndType (.head _) (.tail _ (.head _))).bind fun _ => adds_add nofun nofun
  | fieldRef member =>
    refine (adds_classRef (.head _)).bind fun owner => ?_
    refine (adds_nameAndType (.tail _ (.head _)) (.tail _ (.tail _ (.head _)))).bind fun inner => ?_
    exact adds_add nofun nofun
  | methodRef member interface =>
    refine (adds_classRef (.head _)).bind fun owner => ?_
    refine (adds_nameAndType (.tail _ (.head _)) (.tail _ (.tail _ (.head _)))).bind fun inner => ?_
    cases interface with
    | false | true => exact adds_add nofun nofun

end

/-! ## Values that are there -/

section
variable {pool : Pool} {index : Index}

theorem get_of_utf8 {text : String} (h : pool.utf8 index = .ok text) :
    pool.get index = .ok (.utf8 text) := by
  obtain ⟨entry, hget, h⟩ := Result.bind_eq_ok.mp h
  cases entry with
  | utf8 => cases h; exact hget
  | _ => exact nomatch h

theorem get_of_className {name : String} (h : pool.className index = .ok name) :
    ∃ inner, pool.get index = .ok (.classRef inner) ∧ pool.utf8 inner = .ok name := by
  obtain ⟨entry, hget, h⟩ := Result.bind_eq_ok.mp h
  cases entry with
  | classRef inner => exact ⟨inner, hget, h⟩
  | _ => exact nomatch h

theorem get_of_nameAndType {name descriptor : String}
    (h : pool.nameAndType index = .ok (name, descriptor)) :
    ∃ first second, pool.get index = .ok (.nameAndType first second) ∧
      pool.utf8 first = .ok name ∧ pool.utf8 second = .ok descriptor := by
  obtain ⟨entry, hget, h⟩ := Result.bind_eq_ok.mp h
  cases entry with
  | nameAndType first second =>
    obtain ⟨_, hname, h⟩ := Result.bind_eq_ok.mp h
    obtain ⟨_, hdescriptor, h⟩ := Result.bind_eq_ok.mp h
    cases h
    exact ⟨first, second, hget, hname, hdescriptor⟩
  | _ => exact nomatch h

/-- The entry of a member refers to its class, its name and its descriptor. -/
theorem get_of_member {ref : MemberRef} (h : pool.member index = .ok ref) :
    ∃ owner inner, pool.className owner = .ok ref.member.owner ∧
      pool.nameAndType inner = .ok (ref.member.name, ref.member.descriptor) ∧
      pool.get index = .ok (if ref.field then .fieldRef owner inner
        else if ref.interface then .interfaceMethodRef owner inner else .methodRef owner inner) := by
  have hresolve {owner inner : Index} {field interface : Bool}
      (h : member.resolve pool owner inner field interface = .ok ref) :
      pool.className owner = .ok ref.member.owner ∧
        pool.nameAndType inner = .ok (ref.member.name, ref.member.descriptor) ∧
        ref.field = field ∧ ref.interface = interface := by
    obtain ⟨⟨name, descriptor⟩, hinner, h⟩ := Result.bind_eq_ok.mp h
    obtain ⟨name, howner, h⟩ := Result.bind_eq_ok.mp h
    cases h
    exact ⟨howner, hinner, rfl, rfl⟩
  obtain ⟨entry, hget, h⟩ := Result.bind_eq_ok.mp h
  cases entry with
  | fieldRef owner inner | methodRef owner inner | interfaceMethodRef owner inner =>
    obtain ⟨howner, hinner, hfield, hinterface⟩ := hresolve h
    refine ⟨owner, inner, howner, hinner, ?_⟩
    rw [hfield, hinterface]
    exact hget
  | _ => exact nomatch h

end

section
variable {builder : Builder} (htight : builder.Tight) {index : Index}
include htight

theorem add_of_get {entry : Entry} (h : builder.toPool.get index = .ok entry) :
    add entry builder = .ok index builder := by
  have hfound : builder.indices[entry]? = some index := by
    unfold get at h
    split at h
    next => exact nomatch h
    next => exact nomatch h
    next found hreserved hget =>
      cases h
      have := htight.remembered index.toNat entry hget fun heq => hreserved (heq ▸ rfl)
      rwa [UInt16.ofNat_toNat] at this
  unfold add
  rw [hfound]

theorem utf8_of_resolves {text : String} (h : builder.toPool.utf8 index = .ok text) :
    Intern.utf8 text builder = .ok index builder :=
  add_of_get htight (get_of_utf8 h)

theorem addOne_of_get {step : Interning Index} {wrap : Index → Entry} {inner : Index}
    (hstep : step builder = .ok inner builder)
    (h : builder.toPool.get index = .ok (wrap inner)) :
    (step >>= fun inner => add (wrap inner)) builder = .ok index builder := by
  simp only [Bind.bind, EStateM.bind, hstep]
  exact add_of_get htight h

theorem addTwo_of_get {first second : Interning Index} {wrap : Index → Index → Entry}
    {a b : Index} (hfirst : first builder = .ok a builder) (hsecond : second builder = .ok b builder)
    (h : builder.toPool.get index = .ok (wrap a b)) :
    (first >>= fun a => second >>= fun b => add (wrap a b)) builder = .ok index builder := by
  simp only [Bind.bind, EStateM.bind, hfirst, hsecond]
  exact add_of_get htight h

theorem classRef_of_resolves {name : String} (h : builder.toPool.className index = .ok name) :
    Intern.classRef name builder = .ok index builder := by
  obtain ⟨inner, hget, hname⟩ := get_of_className h
  exact addOne_of_get htight (utf8_of_resolves htight hname) hget

theorem nameAndType_of_resolves {name descriptor : String}
    (h : builder.toPool.nameAndType index = .ok (name, descriptor)) :
    Intern.nameAndType name descriptor builder = .ok index builder := by
  obtain ⟨first, second, hget, hname, hdescriptor⟩ := get_of_nameAndType h
  exact addTwo_of_get htight (utf8_of_resolves htight hname)
    (utf8_of_resolves htight hdescriptor) hget

/-- **An index that stands for what is asked for is the one that is given**, and
    nothing is added. -/
theorem Request.index_of_resolves {request : Request}
    (h : request.Resolves builder.toPool index) :
    request.index builder = .ok index builder := by
  cases request with
  | utf8 text => exact utf8_of_resolves htight h
  | classRef name => exact classRef_of_resolves htight h
  | string text | methodType text =>
    obtain ⟨inner, hget, htext⟩ := h
    exact addOne_of_get htight (utf8_of_resolves htight htext) hget
  | integer | float | long | double | methodHandle => exact add_of_get htight h
  | nameAndType name descriptor => exact nameAndType_of_resolves htight h
  | dynamic bootstrap name descriptor | invokeDynamic bootstrap name descriptor =>
    obtain ⟨inner, hget, hinner⟩ := h
    exact addOne_of_get htight (nameAndType_of_resolves htight hinner) hget
  | fieldRef member =>
    obtain ⟨owner, inner, howner, hinner, hget⟩ := get_of_member h
    exact addTwo_of_get htight (classRef_of_resolves htight howner)
      (nameAndType_of_resolves htight hinner) hget
  | methodRef member interface =>
    obtain ⟨owner, inner, howner, hinner, hget⟩ := get_of_member h
    exact addTwo_of_get htight (classRef_of_resolves htight howner)
      (nameAndType_of_resolves htight hinner) hget

end

/-! ## Requests one after the other -/

/-- The builder after requests, whether or not they succeed. -/
def Builder.after (builder : Builder) (requests : List Request) : Builder :=
  requests.foldl (fun builder request => leaves request.index builder) builder

theorem Builder.grows_after (builder : Builder) (requests : List Request) :
    builder.Grows (requests.flatMap Request.texts) (builder.after requests) := by
  induction requests generalizing builder with
  | nil => exact .refl _ builder
  | cons request requests ih =>
    have hfirst := request.adds_index.grows builder
    have hrest := ih (leaves request.index builder)
    rw [List.flatMap_cons]
    exact (hfirst.mono (List.subset_append_left _ _)).trans
      (hrest.mono (List.subset_append_right _ _))

/-- The index of a value stands for it after any requests that follow. -/
theorem Request.resolves_after {request : Request} {builder next : Builder} {index : Index}
    (htight : builder.Tight) (h : request.index builder = .ok index next)
    (later : List Request) :
    request.Resolves (next.after later).toPool index := by
  obtain ⟨-, -, hresolves⟩ := request.yields_index builder index next htight.toValid h
  have hnext : next.Tight := (request.adds_index.grows_of (.inl ⟨index, h⟩)).tight htight
  have hlater := next.grows_after later
  exact hresolves _ (hlater.tight hnext).toValid hlater.le

/-- **What requests make of an empty pool**, whether or not they succeed.  No
    entry is there twice, except for reserved slots, and there are at most 65535
    slots.  The index of a value stands for it after all requests that follow, and
    is given again for the same value, without adding anything.  A request fails
    only if no more than one slot is left.  If the texts of all requests fit, the
    pool can be written, and is read slot by slot. -/
theorem after_requests (requests : List Request) :
    let builder := Builder.empty.after requests
    (∀ (i j : Nat) (entry : Entry), entry ≠ .reserved → builder.entries[i]? = some entry →
      builder.entries[j]? = some entry → i = j) ∧
    builder.size ≤ 0xFFFF ∧
    (∀ earlier request later index next, requests = earlier ++ request :: later →
      request.index (Builder.empty.after earlier) = .ok index next →
        request.Resolves builder.toPool index ∧
          request.index builder = .ok index builder) ∧
    (∀ (request : Request) cause next, request.index builder = .error cause next →
      cause = .poolFull ∧ 0xFFFF ≤ next.size + 1) ∧
    ((∀ request ∈ requests, ∀ text ∈ request.texts, (ModifiedUtf8.encode text).length ≤ 0xFFFF) →
      ∃ bytes, builder.write = .ok bytes ∧
        Reads (u2 >>= fun count => Pool.read count) bytes builder.toPool) := by
  have hgrows := Builder.empty.grows_after requests
  have htight := hgrows.tight Builder.tight_empty
  refine ⟨fun i j entry => htight.slot_unique, htight.size_le, ?_,
    fun request => request.adds_index.full _, fun hshort => ?_⟩
  · rintro earlier request later index next rfl h
    have hearlier := (Builder.empty.grows_after earlier).tight Builder.tight_empty
    have hsplit : Builder.empty.after (earlier ++ request :: later) = next.after later := by
      rw [Builder.after, List.foldl_append, List.foldl_cons]
      congr 1
      change leaves request.index (Builder.empty.after earlier) = next
      rw [leaves, h]
    have hresolves : request.Resolves
        (Builder.empty.after (earlier ++ request :: later)).toPool index := by
      rw [hsplit]
      exact request.resolves_after hearlier h later
    exact ⟨hresolves, request.index_of_resolves htight hresolves⟩
  · cases hwrite : (Builder.empty.after requests).write with
    | ok bytes => exact ⟨bytes, rfl, Builder.reads_write htight.toValid hwrite⟩
    | error cause =>
      obtain ⟨text, hmem, hlong, -⟩ := Builder.error_of_write hwrite
      rcases hgrows.texts text hmem with hempty | htext
      · exact nomatch Array.mem_singleton.mp hempty
      · obtain ⟨request, hrequest, htext⟩ := List.mem_flatMap.mp htext
        exact absurd (hshort request hrequest text htext) (Nat.not_le.mpr hlong)

/-- A class is there after a number that takes two slots. -/
theorem after_requests_class :
    let requests : List Request := [.classRef "A", .long 1]
    let builder := Builder.empty.after requests
    (∃ next, (Request.classRef "A").index .empty = .ok 2 next) ∧
      builder.toPool.className 2 = .ok "A" ∧
      (Request.classRef "A").index builder = .ok 2 builder ∧
      ∃ bytes, builder.write = .ok bytes ∧
        Reads (u2 >>= fun count => Pool.read count) bytes builder.toPool := by
  intro requests builder
  obtain ⟨-, -, hkept, -, hwritten⟩ := after_requests requests
  obtain ⟨next, hindex⟩ : ∃ next, (Request.classRef "A").index .empty = .ok 2 next := by
    simp [Request.index, Intern.classRef, Intern.utf8, add_mk, Builder.empty, Builder.maxSlots,
      Entry.slots, Entry.isWide, Bind.bind, EStateM.bind]
  obtain ⟨hresolves, hagain⟩ := hkept [] (.classRef "A") [.long 1] 2 next rfl hindex
  refine ⟨⟨next, hindex⟩, hresolves, hagain, hwritten ?_⟩
  exact List.forall_mem_cons.mpr ⟨List.forall_mem_singleton.mpr (by decide),
    List.forall_mem_singleton.mpr (List.forall_mem_nil _)⟩

end JvmClass.Pool
