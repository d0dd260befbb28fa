/-
  What is known of attributes that were read.

  * `produces_table`: what every attribute of a table preserves, the table
    establishes;
  * `Attribute.Countable` and `Annotations.Countable`: the parts of an
    attribute, or of the annotations of a place, can be counted;
  * `Shared.Sound`: what is known of the parts that all places have in common;
    `produces_shared` says so of what is read.
-/
import JvmClass.Proofs.Annotation.Decoded
import JvmClass.Proofs.Attribute.Binary

namespace JvmClass

namespace AttributeTable

open Reader

section
variable {σ : Type} {pool : Pool} {step : String → σ → Reader σ} {I : Nat → σ → Prop} {s : σ}

/-- What an attribute preserves, reading it from a table preserves. -/
theorem produces_entry {n : Nat} (hstep : ∀ name, Produces (step name s) (I (n + 1))) :
    Produces (readEntry pool step s) (I (n + 1)) := by
  refine .after fun index => .after fun length => .after fun name => .after fun content => ?_
  exact .lift fun ⟨next, rest⟩ hrun => .require fun _ => .pure ((hstep name).of_runOn hrun)

/-- What every attribute of a table preserves, the table establishes. -/
theorem produces_table (hstep : ∀ n name s, I n s → Produces (step name s) (I (n + 1)))
    (hs : I 0 s) : Produces (read pool step s) fun t => ∃ n ≤ 0xFFFF, I n t := by
  rw [read_eq]
  refine .after fun count => ?_
  refine (Produces.fold (fun n s hs => produces_entry (hstep n · s hs)) count.toNat hs).mono ?_
  intro t ht
  exact ⟨count.toNat, word_le count, Nat.zero_add count.toNat ▸ ht⟩

end

end AttributeTable

/-- The parts of an attribute can be counted. -/
def Attribute.Countable : Attribute → Prop
  | innerClasses classes => classes.length ≤ 0xFFFF
  | nestMembers names | permittedSubclasses names => names.length ≤ 0xFFFF
  | methodParameters parameters => parameters.length ≤ 0xFF
  | annotationDefault value => value.Countable
  | parameterAnnotations _ parameters =>
    parameters.length ≤ 0xFF ∧
      ∀ list ∈ parameters, list.length ≤ 0xFFFF ∧ ∀ a ∈ list, a.Countable
  | _ => True

/-- The annotations of a class, a field or a method can be counted, and refer
    to no instructions. -/
structure Annotations.Countable (annotations : Annotations) : Prop where
  visible : ∀ list ∈ annotations.visible, list.length ≤ 0xFFFF ∧ ∀ a ∈ list, a.Countable
  invisible : ∀ list ∈ annotations.invisible, list.length ≤ 0xFFFF ∧ ∀ a ∈ list, a.Countable
  visibleType : ∀ list ∈ annotations.visibleType,
    list.length ≤ 0xFFFF ∧ ∀ a ∈ list, a.Within none
  invisibleType : ∀ list ∈ annotations.invisibleType,
    list.length ≤ 0xFFFF ∧ ∀ a ∈ list, a.Within none

/-- The number of lists that are present. -/
def Annotations.number (annotations : Annotations) : Nat :=
  annotations.visible.toList.length + annotations.invisible.toList.length +
    annotations.visibleType.toList.length + annotations.invisibleType.toList.length

/-- The annotations and the attributes of a place can be written and read
    again; the attributes are such as may stand there. -/
structure Shared.Sound (Stands : Attribute → Prop) (shared : Shared) : Prop where
  readable : shared.annotations.Readable
  countable : shared.annotations.Countable
  attributes : ∀ attr ∈ shared.attributesRev, Stands attr ∧ attr.Nests ∧ attr.Countable

/-- The number of attributes that are written. -/
def Shared.number (shared : Shared) : Nat :=
  shared.annotations.number + shared.attributesRev.length

theorem Shared.sound_empty (Stands : Attribute → Prop) : Shared.empty.Sound Stands where
  readable := ⟨nofun, nofun, nofun, nofun⟩
  countable := ⟨nofun, nofun, nofun, nofun⟩
  attributes := nofun

theorem Shared.Sound.push {Stands : Attribute → Prop} {shared : Shared}
    (h : shared.Sound Stands) {attr : Attribute}
    (hattr : Stands attr ∧ attr.Nests ∧ attr.Countable) : (shared.push attr).Sound Stands where
  readable := h.readable
  countable := h.countable
  attributes := List.forall_mem_cons.mpr ⟨hattr, h.attributes⟩

namespace Attribute

open Reader

variable {pool : Pool} {shared : Shared} {Stands : Attribute → Prop}

theorem notMem_of_readShared? {name : String} (h : readShared? pool name shared = none) :
    name ∉ AttributeName.shared := by
  unfold readShared? at h
  dsimp only at h
  simp only [AttributeName.shared, List.mem_cons, List.not_mem_nil, or_false, not_or]
  repeat' (split at h <;> [cases h; skip])
  rename_i h₁ h₂ h₃ h₄ h₅ h₆ h₇
  exact ⟨h₁, h₂, h₃, h₄, h₅, h₆, h₇⟩

/-- **What is known of the parts that all places have in common.** -/
theorem produces_shared (hshared : shared.Sound Stands)
    (hsignature : ∀ text, Stands (.signature text)) (hdeprecated : Stands .deprecated)
    (hsynthetic : Stands .synthetic) {name : String} {reader : Reader Shared}
    (h : readShared? pool name shared = some reader) :
    Produces reader fun next => next.Sound Stands ∧ next.number ≤ shared.number + 1 := by
  have ⟨⟨r₁, r₂, r₃, r₄⟩, ⟨c₁, c₂, c₃, c₄⟩, hattributes⟩ := hshared
  have hlist : Produces (Annotations.readList pool) fun list =>
      (∀ a ∈ list, a.Nests) ∧ list.length ≤ 0xFFFF ∧ ∀ a ∈ list, a.Countable :=
    Annotations.produces_readList.mono fun list h =>
      ⟨fun a ha => (h.2 a ha).2, h.1, fun a ha => (h.2 a ha).1⟩
  have htypes : Produces (Annotations.readTypeList pool none) fun list =>
      (∀ a ∈ list, a.Readable) ∧ list.length ≤ 0xFFFF ∧ ∀ a ∈ list, a.Within none :=
    (Annotations.produces_readTypeList .none).mono fun list h =>
      ⟨fun a ha => (h.2 a ha).1, h.1, fun a ha => (h.2 a ha).2⟩
  have hsome : ∀ {α : Type} {P : α → Prop} {a : α}, P a → ∀ b ∈ some a, P b := by
    rintro α P a ha _ ⟨⟩
    exact ha
  have hone : ∀ {α : Type} (list : Option (List α)) (new : List α),
      (some new).toList.length ≤ list.toList.length + 1 := fun _ _ => Nat.le_add_left ..
  have hpush : ∀ attr, Stands attr ∧ attr.Nests ∧ attr.Countable →
      (shared.push attr).Sound Stands ∧ (shared.push attr).number ≤ shared.number + 1 :=
    fun attr hattr => ⟨hshared.push hattr, Nat.le_refl _⟩
  unfold readShared? at h
  dsimp only at h
  split at h
  · cases h
    refine hlist.bind fun list hlist => .pure
      ⟨⟨⟨hsome hlist.1, r₂, r₃, r₄⟩, ⟨hsome hlist.2, c₂, c₃, c₄⟩, hattributes⟩, ?_⟩
    have := hone shared.annotations.visible list
    simp only [Shared.number, Annotations.number]
    omega
  split at h
  · cases h
    refine hlist.bind fun list hlist => .pure
      ⟨⟨⟨r₁, hsome hlist.1, r₃, r₄⟩, ⟨c₁, hsome hlist.2, c₃, c₄⟩, hattributes⟩, ?_⟩
    have := hone shared.annotations.invisible list
    simp only [Shared.number, Annotations.number]
    omega
  split at h
  · cases h
    refine htypes.bind fun list hlist => .pure
      ⟨⟨⟨r₁, r₂, hsome hlist.1, r₄⟩, ⟨c₁, c₂, hsome hlist.2, c₄⟩, hattributes⟩, ?_⟩
    have := hone shared.annotations.visibleType list
    simp only [Shared.number, Annotations.number]
    omega
  split at h
  · cases h
    refine htypes.bind fun list hlist => .pure
      ⟨⟨⟨r₁, r₂, r₃, hsome hlist.1⟩, ⟨c₁, c₂, c₃, hsome hlist.2⟩, hattributes⟩, ?_⟩
    have := hone shared.annotations.invisibleType list
    simp only [Shared.number, Annotations.number]
    omega
  split at h
  · cases h
    exact .after fun _ => .after fun text => .pure (hpush _ ⟨hsignature text, trivial, trivial⟩)
  split at h
  · cases h
    exact .pure (hpush _ ⟨hdeprecated, trivial, trivial⟩)
  split at h
  · cases h
    exact .pure (hpush _ ⟨hsynthetic, trivial, trivial⟩)
  · exact nomatch h

end Attribute

end JvmClass
