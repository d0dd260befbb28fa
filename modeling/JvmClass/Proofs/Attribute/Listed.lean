/-
  The attributes of a table, one by one.

  * `readRawTable` reads the names and the contents of attributes, by declared
    lengths alone;
  * `Steps`: `step` reads the contents of attributes one after the other, each
    to its end;
  * `read_eq_ok`: reading a table is taking the contents of its attributes and
    reading each of them, and it stops where they end;
  * `guided_table`: a table that follows another one fails for a cause that goes
    with one of the attributes in it.
-/
import JvmClass.Proofs.Attribute.Table
import JvmClass.Proofs.Bytes.Guided

namespace JvmClass

namespace Reader

variable {α : Type}

/-- The reader reads the bytes to their end. -/
def ReadsWhole (reader : Reader α) (bytes : Bytes) (a : α) : Prop :=
  ∃ rest, reader.runOn bytes = .ok (a, rest) ∧ rest.isEmpty

end Reader

namespace AttributeTable

open Reader

/-- Read an attribute by its declared length. -/
def readRawEntry (pool : Pool) : Reader RawAttribute := do
  let index ← u2
  let length ← u4
  let name ← pool.utf8 index
  return ⟨name, ← take length.toNat⟩

/-- Read the names and the contents of the attributes of a table. -/
def readRawTable (pool : Pool) : Reader (List RawAttribute) := do
  times (← u2).toNat (readRawEntry pool)

/-- The contents of attributes are read one after the other, each to its end. -/
inductive Steps {σ : Type} (step : String → σ → Reader σ) : σ → List RawAttribute → σ → Prop where
  | nil (s : σ) : Steps step s [] s
  | cons {s t u : σ} {attr : RawAttribute} {attrs : List RawAttribute}
      (hread : (step attr.name s).ReadsWhole attr.info t) (hrest : Steps step t attrs u) :
      Steps step s (attr :: attrs) u

variable {σ : Type} {pool : Pool} {step : String → σ → Reader σ} {s t : σ}
  {attrs : List RawAttribute} {c d : Cursor}

theorem readRawEntry_eq_ok {attr : RawAttribute} :
    readRawEntry pool c = .ok attr d ↔ ∃ index length c₁ c₂, u2 c = .ok index c₁ ∧
      u4 c₁ = .ok length c₂ ∧ pool.utf8 index = .ok attr.name ∧
      take length.toNat c₂ = .ok attr.info d := by
  constructor
  · intro h
    obtain ⟨index, c₁, hindex, h⟩ := bind_eq_ok.mp h
    obtain ⟨length, c₂, hlength, h⟩ := bind_eq_ok.mp h
    obtain ⟨name, _, hname, h⟩ := bind_eq_ok.mp h
    obtain ⟨hutf8, rfl⟩ := liftM_eq_ok.mp hname
    obtain ⟨content, _, htake, h⟩ := bind_eq_ok.mp h
    cases h
    exact ⟨index, length, c₁, c₂, hindex, hlength, hutf8, htake⟩
  · rintro ⟨index, length, c₁, c₂, hindex, hlength, hutf8, htake⟩
    refine bind_eq_ok.mpr ⟨index, c₁, hindex, bind_eq_ok.mpr ⟨length, c₂, hlength, ?_⟩⟩
    refine bind_eq_ok.mpr ⟨attr.name, c₂, liftM_eq_ok.mpr ⟨hutf8, rfl⟩, ?_⟩
    exact bind_eq_ok.mpr ⟨attr.info, d, htake, rfl⟩

theorem readEntry_of_raw {attr : RawAttribute} (h : readRawEntry pool c = .ok attr d) (s : σ) :
    readEntry pool step s c = readAll attr.name (step attr.name s) attr.info d := by
  obtain ⟨index, length, c₁, c₂, hindex, hlength, hutf8, htake⟩ := readRawEntry_eq_ok.mp h
  rw [readEntry_eq]
  have hname : (liftM (pool.utf8 index) : Reader String) c₂ = .ok attr.name c₂ :=
    liftM_eq_ok.mpr ⟨hutf8, rfl⟩
  simp only [Bind.bind, EStateM.bind, hindex, hlength, hname, htake]

theorem readEntry_eq_ok :
    readEntry pool step s c = .ok t d ↔
      ∃ attr, readRawEntry pool c = .ok attr d ∧ (step attr.name s).ReadsWhole attr.info t := by
  rw [readEntry_eq]
  constructor
  · intro h
    obtain ⟨index, c₁, hindex, h⟩ := bind_eq_ok.mp h
    obtain ⟨length, c₂, hlength, h⟩ := bind_eq_ok.mp h
    obtain ⟨name, _, hname, h⟩ := bind_eq_ok.mp h
    obtain ⟨hutf8, rfl⟩ := liftM_eq_ok.mp hname
    obtain ⟨content, _, htake, h⟩ := bind_eq_ok.mp h
    obtain ⟨rfl, hread⟩ := readAll_eq_ok.mp h
    refine ⟨⟨name, content⟩, readRawEntry_eq_ok.mpr ?_, hread⟩
    exact ⟨index, length, c₁, _, hindex, hlength, hutf8, htake⟩
  · rintro ⟨attr, hraw, hread⟩
    rw [← readEntry_eq, readEntry_of_raw hraw]
    exact readAll_eq_ok.mpr ⟨rfl, hread⟩

theorem fold_readEntry_eq_ok {n : Nat} :
    fold (readEntry pool step) n s c = .ok t d ↔
      ∃ attrs, times n (readRawEntry pool) c = .ok attrs d ∧ Steps step s attrs t := by
  induction n generalizing s c with
  | zero =>
    constructor
    · intro h
      cases h
      exact ⟨[], rfl, .nil _⟩
    · rintro ⟨attrs, htimes, hsteps⟩
      cases htimes
      cases hsteps
      rfl
  | succ n ih =>
    constructor
    · intro h
      obtain ⟨next, e, hentry, h⟩ := bind_eq_ok.mp h
      obtain ⟨attr, hraw, hread⟩ := readEntry_eq_ok.mp hentry
      obtain ⟨attrs, htimes, hsteps⟩ := ih.mp h
      exact ⟨attr :: attrs, times_succ_eq_ok.mpr ⟨attr, e, attrs, hraw, htimes, rfl⟩,
        .cons hread hsteps⟩
    · rintro ⟨_, htimes, hsteps⟩
      obtain ⟨attr, e, attrs, hraw, hmore, rfl⟩ := times_succ_eq_ok.mp htimes
      obtain _ | ⟨hread, hrest⟩ := hsteps
      exact bind_eq_ok.mpr ⟨_, e, readEntry_eq_ok.mpr ⟨attr, hraw, hread⟩,
        ih.mpr ⟨attrs, hmore, hrest⟩⟩

/-- **A table is read by reading the contents of its attributes**, and up to
    where they end. -/
theorem read_eq_ok :
    read pool step s c = .ok t d ↔
      ∃ attrs, readRawTable pool c = .ok attrs d ∧ Steps step s attrs t := by
  rw [read_eq]
  constructor
  · intro h
    obtain ⟨count, e, hcount, h⟩ := bind_eq_ok.mp h
    obtain ⟨attrs, htimes, hsteps⟩ := fold_readEntry_eq_ok.mp h
    exact ⟨attrs, bind_eq_ok.mpr ⟨count, e, hcount, htimes⟩, hsteps⟩
  · rintro ⟨attrs, htable, hsteps⟩
    obtain ⟨count, e, hcount, htimes⟩ := bind_eq_ok.mp htable
    exact bind_eq_ok.mpr ⟨count, e, hcount, fold_readEntry_eq_ok.mpr ⟨attrs, htimes, hsteps⟩⟩

/-- **A table of attributes that follows another one** fails for a cause that goes
    with one of the attributes that are listed there. -/
theorem guided_table {τ : Type} {step' : String → τ → Reader τ} {R : σ → τ → Prop}
    {E : RawAttribute → Malformed → Prop} (h : ∀ (attr : RawAttribute) s t, R s t →
      Follows (readAll attr.name (step attr.name s) attr.info)
        (readAll attr.name (step' attr.name t) attr.info) R (E attr)) {t : τ} (hst : R s t) :
    Guided (read pool step s) (read pool step' t) (readRawTable pool) R
      fun attrs cause => ∃ attr ∈ attrs, E attr cause := by
  rw [read_eq, read_eq]
  refine .after fun count => ?_
  induction count.toNat generalizing s t with
  | zero =>
    intro c u d hrun
    cases hrun
    exact ⟨[], c, rfl, .inl ⟨t, rfl, hst⟩⟩
  | succ n ih =>
    intro c u e hrun
    obtain ⟨next, d, hentry, hrest⟩ := bind_eq_ok.mp hrun
    obtain ⟨attr, hraw, -⟩ := readEntry_eq_ok.mp hentry
    rw [readEntry_of_raw hraw] at hentry
    simp only [fold, Bind.bind, EStateM.bind, readEntry_of_raw hraw t]
    rcases h attr s t hst d next d hentry with ⟨t', ht', hnext⟩ | ⟨cause, f, hcause, hE⟩
    · obtain ⟨attrs, v, htimes, hfollows⟩ := ih hnext d u e hrest
      refine ⟨attr :: attrs, v, times_succ_eq_ok.mpr ⟨attr, d, attrs, hraw, htimes, rfl⟩, ?_⟩
      rw [ht']
      refine hfollows.imp_right ?_
      rintro ⟨cause, f, hcause, other, hother, hE⟩
      exact ⟨cause, f, hcause, other, .tail _ hother, hE⟩
    · obtain ⟨attrs, htimes, -⟩ := fold_readEntry_eq_ok.mp hrest
      refine ⟨attr :: attrs, e, times_succ_eq_ok.mpr ⟨attr, d, attrs, hraw, htimes, rfl⟩, ?_⟩
      exact .inr ⟨cause, f, by rw [hcause], attr, .head _, hE⟩

/-- A table is read up to where the list of its attributes ends. -/
theorem tracks_rawTable : Tracks (read pool step s) (readRawTable pool) fun _ _ => True :=
  tracks_iff.mpr fun _ _ _ h =>
    let ⟨attrs, hattrs, _⟩ := read_eq_ok.mp h
    ⟨attrs, hattrs, trivial⟩

theorem length_of_readRawTable (h : readRawTable pool c = .ok attrs d) : attrs.length ≤ 0xFFFF :=
  (Produces.any.counted c attrs d h).1

namespace Steps

/-- What the content of an attribute preserves, all of them preserve. -/
theorem preserves {I : Nat → σ → Prop}
    (hstep : ∀ n name s, I n s → Produces (step name s) (I (n + 1)))
    (h : Steps step s attrs t) {n : Nat} (hs : I n s) : I (n + attrs.length) t := by
  induction h generalizing n with
  | nil => exact hs
  | cons hread _ ih =>
    obtain ⟨_, hrun, -⟩ := hread
    have hlast := ih ((hstep n _ _ hs).of_runOn hrun)
    rwa [Nat.add_assoc, Nat.add_comm 1] at hlast

theorem filter {keep : RawAttribute → Bool}
    (hskip : ∀ attr ∈ attrs, keep attr = false → ∀ s, Produces (step attr.name s) (· = s))
    (h : Steps step s attrs t) : Steps step s (attrs.filter keep) t := by
  induction h with
  | nil s => exact .nil s
  | @cons s t u attr attrs hread _ ih =>
    have hrest := ih fun attr hattr => hskip attr (List.mem_cons_of_mem _ hattr)
    cases hkeep : keep attr with
    | true =>
      rw [List.filter_cons_of_pos hkeep]
      exact .cons hread hrest
    | false =>
      obtain ⟨_, hrun, -⟩ := hread
      obtain rfl := (hskip attr List.mem_cons_self hkeep s).of_runOn hrun
      rwa [List.filter_cons_of_neg (by simp [hkeep])]

end Steps

end AttributeTable

end JvmClass
