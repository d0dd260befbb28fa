/-
  Tables of attributes survive writing.

  * `IsAttr`: bytes are an attribute with a name and a content;
  * `Attributes`: attributes that `step` reads one after the other, from one
    state to another; `reads_table` reads a table of them;
  * `follows_table`: tables are read alike if their attributes are;
  * `yields_attr` and `yields_optional` are what writing an attribute yields;
  * `reads_skipAttribute`: an attribute can be moved over by its length alone.
-/
import JvmClass.Attribute.Table
import JvmClass.ClassFile.Reading
import JvmClass.Proofs.Bytes.Follows
import JvmClass.Proofs.Linkage.Growing

namespace JvmClass.AttributeTable

open Reader

/-- The bytes `w` are an attribute with a name and a content. -/
def IsAttr (pool : Pool) (w : Bytes) (name : String) (content : Bytes) : Prop :=
  ∃ index, w = Bytes.u2 index ++ (Bytes.u4 (UInt32.ofNat content.length) ++ content) ∧
    pool.utf8 index = .ok name ∧ (UInt32.ofNat content.length).toNat = content.length

/-- Attributes, one after the other, that `step` reads from one state to
    another.  Their names are among the `allowed` ones. -/
inductive Attributes {σ : Type} (pool : Pool) (step : String → σ → Reader σ)
    (allowed : String → Prop) : σ → List Bytes → σ → Prop where
  | nil (s : σ) : Attributes pool step allowed s [] s
  | cons {s t u : σ} {w content : Bytes} {ws : List Bytes} {name : String}
      (hattr : IsAttr pool w name content) (hallowed : allowed name)
      (hread : ReadsAt [] [] (step name s) content t)
      (hrest : Attributes pool step allowed t ws u) : Attributes pool step allowed s (w :: ws) u

section
variable {σ : Type} {pool : Pool} {step : String → σ → Reader σ} {allowed : String → Prop}
  {s t u : σ} {w content : Bytes} {vs ws : List Bytes} {name : String}

theorem Attributes.append (hv : Attributes pool step allowed s vs t)
    (hw : Attributes pool step allowed t ws u) : Attributes pool step allowed s (vs ++ ws) u := by
  induction hv with
  | nil => exact hw
  | cons hattr hallowed hread _ ih => exact .cons hattr hallowed hread (ih hw)

theorem Attributes.mono {other : String → Prop} (h : Attributes pool step allowed s ws t)
    (hmono : ∀ name, allowed name → other name) : Attributes pool step other s ws t := by
  induction h with
  | nil => exact .nil _
  | cons hattr hallowed hread _ ih => exact .cons hattr (hmono _ hallowed) hread ih

theorem Attributes.single (hattr : IsAttr pool w name content) (hallowed : allowed name)
    (hread : ReadsAt [] [] (step name s) content t) :
    Attributes pool step allowed s [w] t :=
  .cons hattr hallowed hread (.nil t)

/-! ## Reading -/

/-- Read one attribute of a table. -/
def readEntry (pool : Pool) (step : String → σ → Reader σ) (state : σ) : Reader σ := do
  let index ← u2
  let length ← u4
  let name ← pool.utf8 index
  let (next, content) ← (step name state).runOn (← take length.toNat)
  unless content.isEmpty do throw (.unreadBytes name content.remaining)
  return next

theorem read_eq (state : σ) :
    read pool step state = (do fold (readEntry pool step) (← u2).toNat state) := rfl

/-- What a reader makes of the content of the attribute `name`, which it must
    read to its end. -/
def readAll (name : String) (reader : Reader σ) (content : Bytes) : Reader σ := do
  let (next, rest) ← reader.runOn content
  unless rest.isEmpty do throw (.unreadBytes name rest.remaining)
  return next

theorem readAll_eq_ok {reader : Reader σ} {c d : Cursor} :
    readAll name reader content c = .ok t d ↔
      c = d ∧ ∃ rest, reader.runOn content = .ok (t, rest) ∧ rest.isEmpty := by
  unfold readAll
  rw [bind_eq_ok]
  constructor
  · rintro ⟨⟨next, rest⟩, e, hlift, h⟩
    obtain ⟨hrun, rfl⟩ := liftM_eq_ok.mp hlift
    dsimp only at h
    split at h
    next hempty => cases h; exact ⟨rfl, rest, hrun, hempty⟩
    next => exact nomatch (show EStateM.Result.error _ c = .ok t d from h)
  · rintro ⟨rfl, rest, hrun, hempty⟩
    refine ⟨(t, rest), c, liftM_eq_ok.mpr ⟨hrun, rfl⟩, ?_⟩
    dsimp only
    rw [if_pos hempty]
    rfl

theorem readAll_of_error {reader : Reader σ} {cause : Malformed}
    (h : reader.runOn content = .error cause) (c : Cursor) :
    readAll name reader content c = .error cause c := by
  unfold readAll
  rw [h]
  rfl

theorem readAll_of_rest {reader : Reader σ} {rest : Cursor}
    (h : reader.runOn content = .ok (t, rest)) (hrest : ¬ rest.isEmpty) (c : Cursor) :
    readAll name reader content c = .error (.unreadBytes name rest.remaining) c := by
  unfold readAll
  rw [h]
  change (if rest.isEmpty then _ else _ : Reader σ) c = _
  rw [if_neg hrest]
  rfl

theorem readEntry_eq (state : σ) :
    readEntry pool step state = (do
      let index ← u2
      let length ← u4
      let name ← pool.utf8 index
      readAll name (step name state) (← take length.toNat)) := rfl

/-- Tables follow one another if this is so of what is made of the content of
    each attribute. -/
theorem follows_table {τ : Type} {step' : String → τ → Reader τ} {R : σ → τ → Prop}
    {E : Malformed → Prop} (h : ∀ name s t, R s t → ∀ content,
      Follows (readAll name (step name s) content) (readAll name (step' name t) content) R E)
    {s : σ} {t : τ} (hst : R s t) : Follows (read pool step s) (read pool step' t) R E := by
  refine .after fun count => .fold (fun s t hst => ?_) count.toNat hst
  exact .after fun index => .after fun length => .after fun name => .after fun content =>
    h name s t hst content

section
variable {τ : Type} {x : Reader σ} {y : Reader τ} {R : σ → τ → Prop} {E : Malformed → Prop}

/-- What is made of a content by readers that follow one another there. -/
theorem follows_content (name : String)
    (h : Result.Follows (x.runOn content) (y.runOn content) (fun p q => R p.1 q.1 ∧ p.2 = q.2) E) :
    Follows (readAll name x content) (readAll name y content) R E := by
  refine .lift h ?_
  rintro ⟨s, rest⟩ ⟨t, _⟩ ⟨hst, rfl⟩
  exact .require fun _ => .pure hst

/-- What readers that follow one another make of the same content. -/
theorem follows_readAll (h : Follows x y R E) (name : String) (content : Bytes) :
    Follows (readAll name x content) (readAll name y content) R E :=
  follows_content name (h.runOn content)

end

theorem reads_entry (hattr : IsAttr pool w name content)
    (hread : ReadsAt [] [] (step name s) content t) : Reads (readEntry pool step s) w t := by
  obtain ⟨index, rfl, hname, hlength⟩ := hattr
  refine (reads_u2 index).bind ((reads_u4 _).bind (Reads.lift hname ?_))
  have htake := reads_take_of_length hlength.symm
  have hrun : (step name s).runOn content = .ok (t, .between content []) := runOn_of_reads hread
  exact htake.bindDone (Reads.lift hrun (by simp [Reads.pure]))

theorem Attributes.passes (h : Attributes pool step allowed s ws t) :
    Passes (readEntry pool step) s ws t := by
  induction h with
  | nil => exact .nil _
  | cons hattr _ hread _ ih => exact .cons (reads_entry hattr hread) ih

/-- **A table is read as its attributes are.** -/
theorem reads_table (h : Attributes pool step allowed s ws t) (hw : write ws = .ok w) :
    Reads (read pool step s) w t := by
  obtain ⟨count, hcount, hw⟩ := Result.bind_eq_ok.mp hw
  cases hw
  exact (reads_u2 count).bind (reads_fold h.passes (Linking.toNat_of_count hcount))

theorem reads_skipAttribute (hattr : IsAttr pool w name content) :
    Reads ClassFile.skipAttribute w () := by
  obtain ⟨index, rfl, -, hlength⟩ := hattr
  refine (reads_skip (by simp [Bytes.u2])).bind ((reads_u4 _).bind ?_)
  exact reads_skip hlength.symm

theorem Attributes.skips (h : Attributes pool step allowed s ws t) :
    List.Forall₂ (Reads ClassFile.skipAttribute) ws (ws.map fun _ => ()) := by
  rw [List.forall₂_map_right_iff]
  induction h with
  | nil => exact .nil
  | cons hattr _ _ _ ih => exact .cons (reads_skipAttribute hattr) ih

/-- A table is moved over by the lengths of its attributes alone. -/
theorem reads_skipTable (h : Attributes pool step allowed s ws t) (hw : write ws = .ok w) :
    Reads (do let _ ← times (← u2).toNat ClassFile.skipAttribute) w () := by
  obtain ⟨count, hcount, hw⟩ := Result.bind_eq_ok.mp hw
  cases hw
  refine (reads_u2 count).bind (Reads.map (reads_times h.skips ?_))
  rw [Linking.toNat_of_count hcount, List.length_map]

end

/-! ## Writing -/

theorem yields_attr (name : String) (content : Bytes) :
    Yields (attr name content) fun linker w => IsAttr linker.toLinkage.pool w name content := by
  refine Yields.guard fun hlength => (Pool.yields_utf8 name).lift.bind fun index => ?_
  refine .pure fun linker _ hname => ⟨index, by simp, hname, ?_⟩
  rw [UInt32.toNat_ofNat']
  omega

/-- What is written for something that may be absent. -/
def IsOptional {α : Type} (pool : Pool) (name : String) (P : Bytes → α → Prop) (ws : List Bytes) :
    Option α → Prop
  | some a => ∃ w content, ws = [w] ∧ IsAttr pool w name content ∧ P content a
  | none => ws = []

theorem yields_optional {α : Type} {write : α → Linking Bytes} {P : Linker → Bytes → α → Prop}
    (name : String) {a : Option α}
    (h : ∀ b ∈ a, Yields (write b) fun linker content => P linker content b) :
    Yields (optional name write a) fun linker ws =>
      IsOptional linker.toLinkage.pool name (P linker) ws a := by
  cases a with
  | none => exact .pure fun _ _ => rfl
  | some a =>
    refine (h a rfl).bind fun content => (yields_attr name content).bind fun w => ?_
    exact .pure fun linker _ hattr hcontent => ⟨w, content, rfl, hattr, hcontent⟩

/-- Something that may be absent takes its `place` in what is read. -/
theorem IsOptional.attributes {σ α : Type} {pool : Pool} {step : String → σ → Reader σ}
    {allowed : String → Prop} {name : String} {P : Bytes → α → Prop} {ws : List Bytes}
    {a : Option α} (h : IsOptional pool name P ws a) (hallowed : allowed name)
    (place : Option α → σ)
    (hread : ∀ b ∈ a, ∀ content, P content b →
      ReadsAt [] [] (step name (place none)) content (place (some b))) :
    Attributes pool step allowed (place none) ws (place a) := by
  cases a with
  | none => cases h; exact .nil _
  | some a =>
    obtain ⟨w, content, rfl, hattr, hcontent⟩ := h
    exact .single hattr hallowed (hread a rfl content hcontent)

end JvmClass.AttributeTable
