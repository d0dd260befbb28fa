/-
  The walk to the bootstrap method table.

  * `tracks_readFront`: the walk over everything in front of the attributes of
    a class stops where reading it gets to them;
  * `attributes_of_readClass`: from there on both see the same attributes, and
    the walk takes those that hold bootstrap methods;
  * `sound_of_decode`: what is known of every class that was read; if it has
    bootstrap methods, there is room for their table among its attributes.
-/
import JvmClass.Proofs.Attribute.Listed
import JvmClass.Proofs.Bytes.Guided
import JvmClass.Proofs.ClassFile.Decoded
import JvmClass.Proofs.ClassFile.Local

namespace JvmClass

namespace Reader

variable {α β γ δ : Type}

theorem skip_eq_ok {k : Nat} {c d : Cursor} :
    skip k c = .ok () d ↔
      c.position + k ≤ c.bytes.size ∧ d = { c with position := c.position + k } := by
  constructor
  · intro h
    obtain ⟨w, e, htake, h⟩ := bind_eq_ok.mp h
    obtain ⟨hle, -, rfl⟩ := take_eq_ok htake
    cases h
    exact ⟨hle, rfl⟩
  · rintro ⟨hle, rfl⟩
    exact bind_eq_ok.mpr ⟨_, _, take_of_le hle, rfl⟩

theorem skip_of_u2 {c d : Cursor} {w : UInt16} (h : u2 c = .ok w d) : skip 2 c = .ok () d := by
  obtain ⟨n, e, hnumber, h⟩ := bind_eq_ok.mp h
  obtain ⟨bytes, e', htake, hnumber⟩ := bind_eq_ok.mp hnumber
  obtain ⟨hle, -, rfl⟩ := take_eq_ok htake
  cases hnumber
  cases h
  exact skip_eq_ok.mpr ⟨hle, rfl⟩

namespace Follows

variable {x : Reader α} {f : α → Reader γ} {y : Reader δ} {S : γ → δ → Prop}

/-- The last word of those that are moved over. -/
theorem word {g : UInt16 → Reader γ} {l : Unit → Reader δ} (h : ∀ w, Tracks (g w) (l ()) S) :
    Tracks (u2 >>= g) (skip 2 >>= l) S := by
  rw [tracks_iff]
  intro c a e hrun
  obtain ⟨w, d, hw, hg⟩ := bind_eq_ok.mp hrun
  obtain ⟨b, hb, hab⟩ := tracks_iff.mp (h w) d a e hg
  exact ⟨b, bind_eq_ok.mpr ⟨(), d, skip_of_u2 hw, hb⟩, hab⟩

/-- The first word of those that are moved over. -/
theorem words {k : Nat} {g : UInt16 → Reader γ} {l : Unit → Reader δ}
    (h : ∀ w, Tracks (g w) (skip k >>= l) S) : Tracks (u2 >>= g) (skip (k + 2) >>= l) S := by
  rw [tracks_iff]
  intro c a e hrun
  obtain ⟨w, d, hw, hg⟩ := bind_eq_ok.mp hrun
  obtain ⟨b, hb, hab⟩ := tracks_iff.mp (h w) d a e hg
  obtain ⟨⟨⟩, d', hskip, hb⟩ := bind_eq_ok.mp hb
  obtain ⟨-, rfl⟩ := skip_eq_ok.mp (skip_of_u2 hw)
  obtain ⟨hle, rfl⟩ := skip_eq_ok.mp hskip
  refine ⟨b, bind_eq_ok.mpr ⟨(), _, skip_eq_ok.mpr ⟨?_, rfl⟩, ?_⟩, hab⟩
  · dsimp only at hle
    omega
  · rwa [show c.position + (k + 2) = c.position + 2 + k by omega]

theorem still {result : Except Malformed α} (h : ∀ a, Tracks (f a) y S) :
    Tracks ((liftM result : Reader α) >>= f) y S := by
  rw [tracks_iff]
  intro c a e hrun
  obtain ⟨b, d, hresult, hf⟩ := bind_eq_ok.mp hrun
  obtain ⟨-, rfl⟩ := liftM_eq_ok.mp hresult
  exact tracks_iff.mp (h b) c a e hf

end Follows

end Reader

namespace ClassFile

open Reader AttributeTable

variable {linkage : Linkage} {options : DecodeOptions} {pool : Pool}

/-! ## Moving over members -/

theorem tracks_skipAttribute {σ : Type} (step : String → σ → Reader σ) (s : σ) :
    Tracks (readEntry pool step s) skipAttribute fun _ _ => True := by
  rw [readEntry_eq]
  refine .word fun index => .after fun length => .still fun name => ?_
  rw [tracks_iff]
  intro c a e hrun
  obtain ⟨content, d, htake, hread⟩ := bind_eq_ok.mp hrun
  obtain ⟨rfl, -⟩ := readAll_eq_ok.mp hread
  exact ⟨(), bind_eq_ok.mpr ⟨content, d, htake, rfl⟩, trivial⟩

theorem tracks_skipAttributes {σ : Type} (step : String → σ → Reader σ) (n : Nat) (s : σ)
    (done : List Unit) :
    Tracks (fold (readEntry pool step) n s) (timesRev skipAttribute n done) fun _ _ => True := by
  induction n generalizing s done with
  | zero => exact .pure trivial
  | succ n ih => exact (tracks_skipAttribute step s).bind fun t u _ => ih t (u :: done)

/-- The table of attributes of a member, and what is made of it. -/
theorem tracks_skipTable {σ α : Type} {step : String → σ → Reader σ} {s : σ} {f : σ → Reader α}
    (hf : ∀ t, Tracks (f t) (pure ()) fun _ _ => True) :
    Tracks (AttributeTable.read pool step s >>= f)
      (do let _ ← times (← u2).toNat skipAttribute) fun _ _ => True := by
  rw [AttributeTable.read_eq, bind_assoc]
  exact .after fun n => (tracks_skipAttributes step n.toNat s []).bind fun t _ _ => hf t

theorem tracks_readField :
    Tracks (readField linkage) skipMember fun _ _ => True := by
  refine .words fun access => .words fun _ => .still fun name => ?_
  refine .word fun _ => .still fun descriptor => ?_
  exact tracks_skipTable fun ⟨value, shared⟩ => .pure trivial

theorem tracks_readMethod (owner : String) :
    Tracks (readMethod linkage options owner) skipMember fun _ _ => True := by
  refine .words fun access => .words fun _ => .still fun name => ?_
  refine .word fun _ => .still fun descriptor => ?_
  exact tracks_skipTable fun parts => .pure trivial

theorem skip_of_names {n : Nat} {done names : List String} {c d : Cursor}
    (hle : c.position ≤ c.bytes.size)
    (h : timesRev (do pool.className (← u2)) n done c = .ok names d) :
    skip (2 * n) c = .ok () d := by
  induction n generalizing done c with
  | zero =>
    cases h
    exact skip_eq_ok.mpr ⟨hle, rfl⟩
  | succ n ih =>
    obtain ⟨name, e, hname, h⟩ := bind_eq_ok.mp h
    obtain ⟨index, e', hindex, hname⟩ := bind_eq_ok.mp hname
    obtain ⟨-, rfl⟩ := liftM_eq_ok.mp hname
    obtain ⟨hword, rfl⟩ := skip_eq_ok.mp (skip_of_u2 hindex)
    obtain ⟨hrest, rfl⟩ := skip_eq_ok.mp (ih hword h)
    dsimp only at hrest
    refine skip_eq_ok.mpr ⟨by omega, ?_⟩
    rw [show c.position + 2 * (n + 1) = c.position + 2 + 2 * n by omega]

theorem tracks_skipNames {α β : Type} {f : List String → Reader α} {l : Unit → Reader β}
    {S : α → β → Prop} (h : ∀ names, Tracks (f names) (l ()) S) :
    Tracks (Attribute.readClassNames pool >>= f)
      (do let n ← u2; skip (2 * n.toNat) >>= l) S := by
  rw [tracks_iff]
  intro c a e hrun
  obtain ⟨names, d, hnames, hf⟩ := bind_eq_ok.mp hrun
  obtain ⟨n, c', hn, hnames⟩ := bind_eq_ok.mp hnames
  obtain ⟨hle, rfl⟩ := skip_eq_ok.mp (skip_of_u2 hn)
  obtain ⟨b, hb, hab⟩ := tracks_iff.mp (h names) d a e hf
  exact ⟨b, bind_eq_ok.mpr ⟨n, _, hn, bind_eq_ok.mpr ⟨(), d, skip_of_names hle hnames, hb⟩⟩, hab⟩

/-! ## The attributes of a class -/

/-- A class with what its attributes say. -/
def ClassParts.addTo (parts : ClassParts) (front : ClassRecord) : ClassRecord :=
  { front with
    sourceFile := parts.sourceFile
    sourceDebugExtension := parts.sourceDebugExtension
    annotations := parts.shared.annotations
    attributes := parts.shared.attributes }

variable (linkage options) in
/-- Read everything in front of the attributes of a class. -/
def readFront (minorVersion majorVersion : UInt16) : Reader ClassRecord := do
  let access ← u2
  let name ← linkage.pool.className (← u2)
  let superName ← linkage.pool.className? (← u2)
  let interfaces ← Attribute.readClassNames linkage.pool
  let fields ← times (← u2).toNat (readField linkage)
  let methods ← times (← u2).toNat (readMethod linkage options name)
  return {
    minorVersion, majorVersion, access := ⟨access⟩, name, superName, interfaces, fields, methods
    sourceFile := none
    sourceDebugExtension := none
    annotations := .absent
    attributes := [] }

theorem readClass_eq (minorVersion majorVersion : UInt16) :
    readClass linkage options minorVersion majorVersion = (do
      let front ← readFront linkage options minorVersion majorVersion
      return (← readClassParts linkage options).addTo front) := by
  simp only [readClass, readFront, bind_assoc, pure_bind, ClassParts.addTo]

/-- **The walk to the attributes of a class** stops where reading it gets to
    them. -/
theorem tracks_readFront (minorVersion majorVersion : UInt16) :
    Tracks (readFront linkage options minorVersion majorVersion) skipToAttributes
      fun _ _ => True := by
  refine .words fun access => .words fun _ => .still fun name => ?_
  refine .word fun _ => .still fun superName => ?_
  refine tracks_skipNames fun interfaces => .after fun fieldCount => ?_
  refine (tracks_readField.times fieldCount.toNat).bind fun fields _ _ => ?_
  refine .after fun methodCount => ?_
  exact ((tracks_readMethod name).times methodCount.toNat).bind fun methods _ _ => .pure trivial

/-- The attribute holds bootstrap methods. -/
def isBootstraps (attr : RawAttribute) : Bool := attr.name == AttributeName.bootstrapMethods

theorem readClassAttribute_bootstrapMethods (parts : ClassParts) :
    readClassAttribute linkage options AttributeName.bootstrapMethods parts =
      (do skipRest; return parts) := by
  have hshared : Attribute.readShared? linkage.pool AttributeName.bootstrapMethods parts.shared =
      none := Attribute.readShared?_of_notMem (by decide)
  have hfile : AttributeName.bootstrapMethods ≠ AttributeName.sourceFile := by decide
  have hextension : AttributeName.bootstrapMethods ≠ AttributeName.sourceDebugExtension := by decide
  simp [readClassAttribute, hshared, hfile, hextension]

/-- Attributes that hold bootstrap methods do not change what is read of a
    class. -/
theorem steps_filter {attrs : List RawAttribute} {parts last : ClassParts}
    (h : Steps (readClassAttribute linkage options) parts attrs last) :
    Steps (readClassAttribute linkage options) parts (attrs.filter fun attr => !isBootstraps attr)
      last := by
  refine h.filter fun attr _ hkeep parts => ?_
  have hname : attr.name = AttributeName.bootstrapMethods := by simpa [isBootstraps] using hkeep
  rw [hname, readClassAttribute_bootstrapMethods]
  exact .after fun _ => .pure rfl

/-- Read the bootstrap methods in the attributes of a class, as
    `findBootstraps` does once it has walked there. -/
def readRows (pool : Pool) : Reader (Array BootstrapRow) := do
  let tables ← times (← u2).toNat (readBootstrapAttribute pool)
  return tables.flatten.toArray

theorem findBootstraps_eq (pool : Pool) :
    findBootstraps pool = (do skipToAttributes; readRows pool) := rfl

/-- An attribute that holds no bootstrap methods is moved over, and one that
    does is read to its end. -/
theorem of_readBootstrapAttribute {rows : List BootstrapRow} {c d : Cursor}
    (h : readBootstrapAttribute pool c = .ok rows d) :
    ∃ attr, readRawEntry pool c = .ok attr d ∧
      if isBootstraps attr then readBootstraps.ReadsWhole attr.info rows else rows = [] := by
  obtain ⟨index, c₁, hindex, h⟩ := bind_eq_ok.mp h
  obtain ⟨length, c₂, hlength, h⟩ := bind_eq_ok.mp h
  obtain ⟨content, _, htake, h⟩ := bind_eq_ok.mp h
  obtain ⟨name, _, hname, h⟩ := bind_eq_ok.mp h
  obtain ⟨hutf8, rfl⟩ := liftM_eq_ok.mp hname
  have hraw (hd : d = _) : readRawEntry pool c = .ok ⟨name, content⟩ d :=
    readRawEntry_eq_ok.mpr ⟨index, length, c₁, c₂, hindex, hlength, hutf8, hd ▸ htake⟩
  split at h
  next hother =>
    cases h
    exact ⟨⟨name, content⟩, hraw rfl, by simp [isBootstraps, hother]⟩
  next hbootstraps =>
    obtain ⟨rfl, hread⟩ := readAll_eq_ok.mp h
    refine ⟨⟨name, content⟩, hraw rfl, ?_⟩
    rwa [if_pos (by simpa [isBootstraps] using hbootstraps)]

theorem of_readBootstrapAttributes {n : Nat} {found : List (List BootstrapRow)} {c d : Cursor}
    (h : times n (readBootstrapAttribute pool) c = .ok found d) :
    ∃ attrs tables, times n (readRawEntry pool) c = .ok attrs d ∧
      List.Forall₂ (fun attr rows => readBootstraps.ReadsWhole attr.info rows)
        (attrs.filter isBootstraps) tables ∧
      found.flatten = tables.flatten := by
  induction n generalizing found c with
  | zero =>
    cases h
    exact ⟨[], [], rfl, .nil, rfl⟩
  | succ n ih =>
    obtain ⟨rows, e, more, hrows, hmore, rfl⟩ := times_succ_eq_ok.mp h
    obtain ⟨attr, hraw, hread⟩ := of_readBootstrapAttribute hrows
    obtain ⟨attrs, tables, htimes, htables, hflatten⟩ := ih hmore
    have hattrs := times_succ_eq_ok.mpr ⟨attr, e, attrs, hraw, htimes, rfl⟩
    cases hattr : isBootstraps attr with
    | true =>
      rw [hattr, if_pos rfl] at hread
      refine ⟨attr :: attrs, rows :: tables, hattrs, ?_, ?_⟩
      · rw [List.filter_cons_of_pos hattr]
        exact .cons hread htables
      · rw [List.flatten_cons, List.flatten_cons, hflatten]
    | false =>
      rw [hattr, if_neg Bool.false_ne_true] at hread
      refine ⟨attr :: attrs, tables, hattrs, ?_, ?_⟩
      · rwa [List.filter_cons_of_neg (by simp [hattr])]
      · rw [List.flatten_cons, hread, List.nil_append, hflatten]

/-- The bootstrap methods of a class are those in its attributes that hold any,
    one after the other. -/
theorem of_readRows {rows : Array BootstrapRow} {c d : Cursor}
    (h : readRows pool c = .ok rows d) :
    ∃ attrs tables, readRawTable pool c = .ok attrs d ∧
      List.Forall₂ (fun attr rows => readBootstraps.ReadsWhole attr.info rows)
        (attrs.filter isBootstraps) tables ∧
      rows = tables.flatten.toArray := by
  obtain ⟨count, e, hcount, h⟩ := bind_eq_ok.mp h
  obtain ⟨found, _, hfound, h⟩ := bind_eq_ok.mp h
  cases h
  obtain ⟨attrs, tables, htimes, htables, hflatten⟩ := of_readBootstrapAttributes hfound
  exact ⟨attrs, tables, bind_eq_ok.mpr ⟨count, e, hcount, htimes⟩, htables, by rw [hflatten]⟩

/-- **The walk to the bootstrap methods and reading the class see the same
    attributes**, since they get to the table of attributes at the same place;
    and the walk takes those that hold bootstrap methods. -/
theorem attributes_of_readClass {minorVersion majorVersion : UInt16} {rows : Array BootstrapRow}
    {record : ClassRecord} {start c d : Cursor}
    (hrecord : readClass linkage options minorVersion majorVersion start = .ok record c)
    (hrows : findBootstraps linkage.pool start = .ok rows d) :
    ∃ table front parts attrs tables,
      skipToAttributes start = .ok () table ∧
      readFront linkage options minorVersion majorVersion start = .ok front table ∧
      readClassParts linkage options table = .ok parts c ∧
      readRows linkage.pool table = .ok rows c ∧ c = d ∧
      record = parts.addTo front ∧ rows = tables.flatten.toArray ∧
      readRawTable linkage.pool table = .ok attrs c ∧
      Steps (readClassAttribute linkage options) ⟨none, none, .empty⟩ attrs parts ∧
      List.Forall₂ (fun attr rows => readBootstraps.ReadsWhole attr.info rows)
        (attrs.filter isBootstraps) tables := by
  rw [readClass_eq] at hrecord
  rw [findBootstraps_eq] at hrows
  obtain ⟨front, table, hfront, hrecord⟩ := bind_eq_ok.mp hrecord
  obtain ⟨parts, _, hparts, hrecord⟩ := bind_eq_ok.mp hrecord
  cases hrecord
  obtain ⟨⟨⟩, hskip, -⟩ := tracks_iff.mp (tracks_readFront _ _) start front table hfront
  obtain ⟨⟨⟩, _, hskip', hrows⟩ := bind_eq_ok.mp hrows
  cases hskip.symm.trans hskip'
  obtain ⟨attrs, htable, hsteps⟩ := read_eq_ok.mp hparts
  obtain ⟨_, tables, htable', htables, rfl⟩ := of_readRows hrows
  cases htable.symm.trans htable'
  exact ⟨table, front, parts, attrs, tables, hskip, hfront, hparts, hrows, rfl, rfl, rfl, htable,
    hsteps, htables⟩

theorem room_of_readClass {minorVersion majorVersion : UInt16} {rows : Array BootstrapRow}
    {record : ClassRecord} {c d d' : Cursor}
    (hrecord : readClass linkage options minorVersion majorVersion c = .ok record d)
    (hrows : findBootstraps linkage.pool c = .ok rows d') (hsome : rows ≠ #[]) :
    record.number < 0xFFFF := by
  obtain ⟨table, front, parts, attrs, tables, -, -, -, -, -, rfl, rfl, htable, hsteps, htables⟩ :=
    attributes_of_readClass hrecord hrows
  have hstart : ClassSoFar 0 ⟨none, none, .empty⟩ := ⟨Shared.sound_empty _, Nat.le_refl 0⟩
  have hlast := (steps_filter hsteps).preserves
    (fun _ name _ h => produces_readClassAttribute name h) hstart
  have hfound : 0 < (attrs.filter isBootstraps).length := by
    rw [htables.length_eq, List.length_pos_iff]
    rintro rfl
    exact hsome rfl
  have hle := length_of_readRawTable htable
  have hsplit := List.length_eq_length_filter_add (l := attrs) isBootstraps
  have hnumber := hlast.number
  simp only [ClassRecord.number, ClassParts.addTo, Shared.number, Shared.attributes,
    List.length_reverse] at hnumber ⊢
  omega

/-! ## Reading a class -/

theorem readBehind_eq_ok {header : Header} {record : ClassRecord} {c d : Cursor}
    (h : readBehind options header c = .ok record d) :
    ∃ bootstraps e, findBootstraps header.pool c = .ok bootstraps e ∧
      readClass ⟨header.pool, bootstraps⟩ options header.minorVersion header.majorVersion c =
        .ok record d := by
  obtain ⟨start, _, hstart, h⟩ := bind_eq_ok.mp h
  obtain ⟨rfl, rfl⟩ := position_eq_ok hstart
  obtain ⟨bootstraps, e, hbootstraps, h⟩ := bind_eq_ok.mp h
  obtain ⟨⟨⟩, _, hseek, h⟩ := bind_eq_ok.mp h
  obtain ⟨_, e', hclass, h⟩ := bind_eq_ok.mp h
  obtain ⟨left, _, hleft, h⟩ := bind_eq_ok.mp h
  obtain ⟨-, rfl⟩ := remaining_eq_ok hleft
  split at h
  next =>
    cases h
    have hbytes := ((local_findBootstraps header.pool).forward c bootstraps e hbootstraps).1
    have hback : seek c.position e = .ok () c := by
      change EStateM.Result.ok () (⟨e.bytes, c.position⟩ : Cursor) = _
      rw [hbytes]
    cases hback.symm.trans hseek
    exact ⟨bootstraps, e, hbootstraps, hclass⟩
  next => exact nomatch (show EStateM.Result.error _ _ = .ok record d from h)

/-- **What is known of a class that was read**, whatever was left out of it.
    If it is `linked` to bootstrap methods, there is room for their table. -/
theorem sound_of_decode {bytes : Bytes} {record : ClassRecord}
    (h : decode bytes options = .ok record) :
    ∃ linked : Prop, record.Sound linked ∧ (linked → record.number < 0xFFFF) := by
  obtain ⟨header, c, d, -, hbehind⟩ := decode_eq_ok.mp h
  obtain ⟨bootstraps, e, hbootstraps, hclass⟩ := readBehind_eq_ok hbehind
  have hcount : (⟨header.pool, bootstraps⟩ : Linkage).Countable :=
    produces_findBootstraps header.pool c bootstraps e hbootstraps
  refine ⟨bootstraps ≠ #[], ?_, fun hsome => room_of_readClass hclass hbootstraps hsome⟩
  exact produces_readClass hcount _ _ c _ d hclass

end ClassFile

end JvmClass
