/-
  What is entered in the tables of a class file, and in which order.

  * a `Mention` is something in a record that the tables have an entry for;
    `enterAll` enters mentions one after the other;
  * `Halts`: where entering mentions comes to a halt, be it since the pool is
    full or on the way to the next mention;
  * `Enters I step mentions P E`: `step` enters the mentions in their order and
    nothing else, or it fails for a cause that goes with where entering them
    halts.  It follows the structure of steps: `bind`, `guard`, `each`,
    `ofExcept`;
  * `enters_request`, `enters_constant` and `enters_callSite`: what can be linked
    is entered, or the pool is full.
-/
import JvmClass.Attribute.Basic
import JvmClass.Proofs.Linkage.Capacity

namespace JvmClass

/-- Something that the tables of a class file have an entry for. -/
inductive Mention where
  | entry (request : Pool.Request)
  | constant (constant : Constant)
  /-- A call site with its bootstrap method. -/
  | callSite (name descriptor : String) (method : BootstrapMethod)
  /-- The table of the bootstrap methods entered so far, which has a name if it
      has rows. -/
  | bootstraps

namespace Mention

abbrev text (text : String) : Mention := .entry (.utf8 text)

abbrev type (name : String) : Mention := .entry (.classRef name)

/-- The name of the class, if there is one. -/
def type? (name : Option String) : List Mention := name.toList.map type

/-- The text, if there is one. -/
def text? (content : Option String) : List Mention := content.toList.map text

/-- Enter a mention. -/
def enter : Mention → Linking Unit
  | entry request => do let _ ← (liftM request.index : Linking Pool.Index)
  | constant c => do let _ ← Linking.constant c
  | callSite name descriptor method => do
    let index ← Linking.bootstrapMethod method
    let _ ← (liftM (Pool.Intern.invokeDynamic index name descriptor) : Linking Pool.Index)
  | bootstraps => do
    if (← get).rows.toList.isEmpty then return ()
    let _ ← (liftM (Pool.Intern.utf8 AttributeName.bootstrapMethods) : Linking Pool.Index)

end Mention

namespace Linking

/-- Enter mentions one after the other. -/
def enterAll : List Mention → Linking Unit
  | [] => return ()
  | mention :: rest => do
    mention.enter
    enterAll rest

variable {s t : Linker} {first rest : List Mention}

theorem enterAll_append (first rest : List Mention) :
    enterAll (first ++ rest) = (do enterAll first; enterAll rest) := by
  induction first with
  | nil => rfl
  | cons mention first ih => rw [List.cons_append, enterAll, ih, enterAll, bind_assoc]

theorem enterAll_of_ok (h : enterAll first s = .ok () t) :
    enterAll (first ++ rest) s = enterAll rest t := by
  rw [enterAll_append]
  simp only [Bind.bind, EStateM.bind, h]

theorem enterAll_of_error {cause : Invalid} (h : enterAll first s = .error cause t) :
    enterAll (first ++ rest) s = .error cause t := by
  rw [enterAll_append]
  simp only [Bind.bind, EStateM.bind, h]

theorem enterAll_singleton {α : Type} {mention : Mention} {x : Linking α}
    (hx : mention.enter s = (do let _ ← x : Linking Unit) s) :
    enterAll [mention] s =
      match x s with
      | .ok _ t => .ok () t
      | .error cause t => .error cause t := by
  simp only [enterAll, Bind.bind, EStateM.bind, hx, Pure.pure, EStateM.pure]
  cases x s <;> rfl

end Linking

open Linking

/-- Where entering mentions comes to a halt, with the linker as it is then. -/
inductive Halt where
  /-- There is no room in the pool for the next entry. -/
  | full (linker : Linker)
  | reached (linker : Linker)

/-- The linker there. -/
def Halt.linker : Halt → Linker
  | full linker | reached linker => linker

/-- Entering `mentions` in the linker `s` may halt there. -/
inductive Halts (mentions : List Mention) (s : Linker) : Halt → Prop
  | full {t : Linker} (henter : enterAll mentions s = .error .poolFull t)
    (hsize : Pool.Builder.maxSlots ≤ t.pool.size + 1) : Halts mentions s (.full t)
  | reached {before : List Mention} {t : Linker} (hbefore : before <+: mentions)
    (henter : enterAll before s = .ok () t) : Halts mentions s (.reached t)

namespace Halts

variable {s t : Linker} {first rest : List Mention} {halt : Halt}

theorem append (h : Halts first s halt) : Halts (first ++ rest) s halt := by
  cases h with
  | full henter hsize => exact .full (enterAll_of_error henter) hsize
  | reached hbefore henter => exact .reached (hbefore.trans (List.prefix_append ..)) henter

theorem behind (hfirst : enterAll first s = .ok () t) (h : Halts rest t halt) :
    Halts (first ++ rest) s halt := by
  cases h with
  | full henter hsize => exact .full ((enterAll_of_ok hfirst).trans henter) hsize
  | reached hbefore henter =>
    exact .reached ((List.prefix_append_right_inj _).mpr hbefore)
      ((enterAll_of_ok hfirst).trans henter)

theorem start {mentions : List Mention} (s : Linker) : Halts mentions s (.reached s) :=
  .reached (List.nil_prefix) rfl

end Halts

/-- The pool has no room for the next entry. -/
inductive Invalid.PoolFull : Invalid → Halt → Prop
  | intro {linker : Linker} : PoolFull .poolFull (.full linker)

/-- From the linker `s` on, `step` enters the mentions, keeps the invariant `I`
    and returns what satisfies `P`, or it fails as `E` says, with the linker where
    entering them halts. -/
def EntersFrom {α : Type} (s : Linker) (I : Linker → Prop) (step : Linking α)
    (mentions : List Mention) (P : α → Prop) (E : Invalid → Halt → Prop) : Prop :=
  (∀ a t, step s = .ok a t → I t ∧ P a ∧ enterAll mentions s = .ok () t) ∧
    ∀ cause t, step s = .error cause t →
      ∃ halt, halt.linker = t ∧ E cause halt ∧ Halts mentions s halt

/-- The same from any linker with the invariant. -/
def Enters {α : Type} (I : Linker → Prop) (step : Linking α) (mentions : List Mention)
    (P : α → Prop) (E : Invalid → Halt → Prop) : Prop :=
  ∀ s, I s → EntersFrom s I step mentions P E

variable {α β : Type} {I : Linker → Prop} {x : Linking α} {f : α → Linking β}
  {first rest mentions : List Mention} {P Q : α → Prop} {R : β → Prop}
  {E F : Invalid → Halt → Prop}

namespace EntersFrom

variable {s : Linker}

theorem congr {y : Linking α} (hx : EntersFrom s I x mentions P E) (h : y s = x s) :
    EntersFrom s I y mentions P E := by
  rwa [EntersFrom, h]

/-- A failure is one where entering the mentions halts. -/
theorem located (hx : EntersFrom s I x mentions P E)
    (h : ∀ cause halt, Halts mentions s halt → E cause halt → F cause halt) :
    EntersFrom s I x mentions P F := by
  refine ⟨hx.1, fun cause t hrun => ?_⟩
  obtain ⟨halt, ht, hcause, hhalts⟩ := hx.2 cause t hrun
  exact ⟨halt, ht, h cause halt hhalts hcause, hhalts⟩

theorem causes (hx : EntersFrom s I x mentions P E) (h : ∀ cause halt, E cause halt → F cause halt) :
    EntersFrom s I x mentions P F :=
  hx.located fun cause halt _ => h cause halt

theorem pure {a : α} (hs : I s) (h : P a) : EntersFrom s I (Pure.pure a) [] P E := by
  refine ⟨fun b t hrun => ?_, nofun⟩
  cases hrun
  exact ⟨hs, h, rfl⟩

theorem throw {cause : Invalid} (h : E cause (.reached s)) :
    EntersFrom s I (MonadExcept.throw cause : Linking α) mentions P E := by
  refine ⟨nofun, fun cause' t hrun => ?_⟩
  cases hrun
  exact ⟨_, rfl, h, .start s⟩

theorem bind (hx : EntersFrom s I x first P E)
    (hf : ∀ a t, x s = .ok a t → I t → P a → EntersFrom t I (f a) rest R E) :
    EntersFrom s I (x >>= f) (first ++ rest) R E := by
  obtain ⟨hok, herror⟩ := hx
  simp only [EntersFrom, Bind.bind, EStateM.bind]
  cases hrun : x s with
  | ok a t =>
    obtain ⟨ht, ha, henter⟩ := hok a t hrun
    obtain ⟨hok', herror'⟩ := hf a t hrun ht ha
    refine ⟨fun b u hlast => ?_, fun cause u hlast => ?_⟩
    · obtain ⟨hu, hb, hrest⟩ := hok' b u hlast
      exact ⟨hu, hb, (enterAll_of_ok henter).trans hrest⟩
    · obtain ⟨halt, hu, hcause, hhalts⟩ := herror' cause u hlast
      exact ⟨halt, hu, hcause, hhalts.behind henter⟩
  | error cause t =>
    refine ⟨nofun, fun cause' u hlast => ?_⟩
    cases hlast
    obtain ⟨halt, ht, hcause, hhalts⟩ := herror cause t hrun
    exact ⟨halt, ht, hcause, hhalts.append⟩

theorem last (hx : EntersFrom s I x mentions P E)
    (hf : ∀ a t, x s = .ok a t → I t → P a → EntersFrom t I (f a) [] R E) :
    EntersFrom s I (x >>= f) mentions R E := by
  have h := hx.bind hf
  rwa [List.append_nil] at h

theorem guard {c : Prop} [Decidable c] {cause : Invalid} {k : β → Linking α}
    (hcause : c → E cause (.reached s)) (h : ¬ c → EntersFrom s I x mentions P E) :
    EntersFrom s I (if c then MonadExcept.throw cause >>= k else x) mentions P E := by
  split
  next hc => exact throw (hcause hc)
  next hc => exact h hc

theorem ofExcept {result : Except Invalid α} (hs : I s) (hok : ∀ a, result = .ok a → P a)
    (herror : ∀ cause, result = .error cause → E cause (.reached s)) :
    EntersFrom s I (liftM result : Linking α) [] P E := by
  cases result with
  | ok a => exact pure hs (hok a rfl)
  | error cause => exact throw (herror cause rfl)

theorem lift {result : Except Invalid α}
    (hok : ∀ a, result = .ok a → EntersFrom s I (f a) mentions R E)
    (herror : ∀ cause, result = .error cause → E cause (.reached s)) :
    EntersFrom s I ((liftM result : Linking α) >>= f) mentions R E := by
  cases result with
  | ok a => exact hok a rfl
  | error cause => exact throw (herror cause rfl)

theorem single {mention : Mention} (hx : mention.enter s = (do let _ ← x : Linking Unit) s)
    (hok : ∀ a t, x s = .ok a t → I t)
    (herror : ∀ cause t, x s = .error cause t → Linker.Full cause t) :
    EntersFrom s I x [mention] (fun _ => True) Invalid.PoolFull := by
  refine ⟨fun a t hrun => ⟨hok a t hrun, trivial, ?_⟩, fun cause t hrun => ?_⟩
  · rw [enterAll_singleton hx, hrun]
  · obtain ⟨rfl, hsize⟩ := herror cause t hrun
    exact ⟨.full t, rfl, .intro, .full (by rw [enterAll_singleton hx, hrun]) hsize⟩

end EntersFrom

namespace Enters

theorem mono (hx : Enters I x mentions P E) (h : ∀ a, P a → Q a) : Enters I x mentions Q E :=
  fun s hs => ⟨fun a t hrun => ((hx s hs).1 a t hrun).imp_right (And.imp_left (h a)), (hx s hs).2⟩

theorem causes (hx : Enters I x mentions P E) (h : ∀ cause halt, E cause halt → F cause halt) :
    Enters I x mentions P F :=
  fun s hs => (hx s hs).causes h

theorem bind (hx : Enters I x first P E) (hf : ∀ a, P a → Enters I (f a) rest R E) :
    Enters I (x >>= f) (first ++ rest) R E :=
  fun s hs => (hx s hs).bind fun a t _ ht ha => hf a ha t ht

theorem after (hx : Enters I x first P E) (hf : ∀ a, Enters I (f a) rest R E) :
    Enters I (x >>= f) (first ++ rest) R E :=
  hx.bind fun a _ => hf a

/-- A first step that enters nothing. -/
theorem silent (hx : Enters I x [] P E) (hf : ∀ a, P a → Enters I (f a) mentions R E) :
    Enters I (x >>= f) mentions R E :=
  hx.bind hf

theorem last (hx : Enters I x mentions P E) (hf : ∀ a, P a → Enters I (f a) [] R E) :
    Enters I (x >>= f) mentions R E :=
  fun s hs => (hx s hs).last fun a t _ ht ha => hf a ha t ht

theorem pure {a : α} (h : P a) : Enters I (Pure.pure a) [] P E := fun _ hs => .pure hs h

theorem map {g : α → β} (hx : Enters I x mentions P E) (h : ∀ a, P a → R (g a)) :
    Enters I (g <$> x) mentions R E := by
  rw [map_eq_pure_bind]
  exact hx.last fun a ha => .pure (h a ha)

theorem guard {c : Prop} [Decidable c] {cause : Invalid} {k : β → Linking α}
    (hcause : c → ∀ s, E cause (.reached s)) (h : ¬ c → Enters I x mentions P E) :
    Enters I (if c then MonadExcept.throw cause >>= k else x) mentions P E :=
  fun s hs => .guard (fun hc => hcause hc s) fun hc => h hc s hs

theorem ofExcept {result : Except Invalid α} (hok : ∀ a, result = .ok a → P a)
    (herror : ∀ cause, result = .error cause → ∀ s, E cause (.reached s)) :
    Enters I (liftM result : Linking α) [] P E :=
  fun s hs => .ofExcept hs hok fun cause hcause => herror cause hcause s

theorem bindOk {result : Except Invalid α} {a : α} (h : result = .ok a)
    (hf : Enters I (f a) mentions R E) :
    Enters I ((liftM result : Linking α) >>= f) mentions R E := by
  subst h
  exact hf

theorem count_eq_ok {n : Nat} (h : n ≤ 0xFFFF) (what : String) :
    ∃ word, Linking.count n what = .ok word :=
  ⟨UInt16.ofNat n, if_pos h⟩

theorem countOr {n : Nat} {what : String}
    (h : 0xFFFF < n → ∀ s, E (.tooMany n what) (.reached s)) :
    Enters I (liftM (Linking.count n what) : Linking UInt16) [] (fun _ => True) E := by
  refine ofExcept (fun _ _ => trivial) fun cause hcause => ?_
  unfold Linking.count at hcause
  split at hcause
  next => exact nomatch hcause
  next hmany => cases hcause; exact h (Nat.not_le.mp hmany)

theorem count {n : Nat} (h : n ≤ 0xFFFF) (what : String) :
    Enters I (liftM (Linking.count n what) : Linking UInt16) [] (fun _ => True) E :=
  countOr fun hmany => absurd h (Nat.not_le.mpr hmany)

section
variable {write : α → Linking β} {of : α → List Mention} {items : List α}

theorem eachRev (h : ∀ a ∈ items, Enters I (write a) (of a) (fun _ => True) E) (done : List β) :
    Enters I (Linking.eachRev write done items) (items.flatMap of)
      (fun bs => bs.length = done.length + items.length) E := by
  induction items generalizing done with
  | nil => exact pure List.length_reverse
  | cons a items ih =>
    rw [List.forall_mem_cons] at h
    rw [List.flatMap_cons]
    refine h.1.after fun b => (ih h.2 (b :: done)).mono fun bs hbs => ?_
    rw [hbs, List.length_cons, List.length_cons]
    omega

theorem each (h : ∀ a ∈ items, Enters I (write a) (of a) (fun _ => True) E) :
    Enters I (Linking.each write items) (items.flatMap of)
      (fun bs => bs.length = items.length) E :=
  (eachRev h []).mono fun _ hbs => by rw [hbs, List.length_nil, Nat.zero_add]

end

theorem counted {write : α → Linking Bytes} {of : α → List Mention} {items : List α}
    {what : String} (hcount : items.length ≤ 0xFFFF)
    (h : ∀ a ∈ items, Enters I (write a) (of a) (fun _ => True) E) :
    Enters I (do
      let count ← (liftM (Linking.count items.length what) : Linking UInt16)
      return Bytes.u2 count ++ (← Linking.each write items).flatten) (items.flatMap of)
      (fun _ => True) E :=
  (count hcount what).silent fun _ _ => (each h).last fun _ _ => pure trivial

theorem single {mention : Mention} (hx : mention.enter = (do let _ ← x))
    (h : Attempt I x (fun _ => True) Linker.Full) :
    Enters I x [mention] (fun _ => True) Invalid.PoolFull :=
  fun s hs => .single (congrFun hx s) (fun a t hrun => ((h s hs).1 a t hrun).1) (h s hs).2

end Enters

/-! ## What can be linked -/

section
variable {linked : Prop}

theorem enters_request (request : Pool.Request) (h : request.bootstrap? = none) :
    Enters (Linker.Tidy linked) (liftM request.index : Linking Pool.Index) [.entry request]
      (fun _ => True) Invalid.PoolFull :=
  .single rfl (attempt_request request h)

theorem enters_text (text : String) :
    Enters (Linker.Tidy linked) (liftM (Pool.Intern.utf8 text) : Linking Pool.Index)
      [.text text] (fun _ => True) Invalid.PoolFull :=
  enters_request (.utf8 text) rfl

theorem enters_type (name : String) :
    Enters (Linker.Tidy linked) (liftM (Pool.Intern.classRef name) : Linking Pool.Index)
      [.type name] (fun _ => True) Invalid.PoolFull :=
  enters_request (.classRef name) rfl

theorem enters_text? (text : Option String) :
    Enters (Linker.Tidy linked) (liftM (Pool.Intern.utf8? text) : Linking Pool.Index)
      (Mention.text? text) (fun _ => True) Invalid.PoolFull := by
  cases text with
  | none => exact .pure trivial
  | some text => exact enters_text text

theorem enters_type? (name : Option String) :
    Enters (Linker.Tidy linked) (liftM (Pool.Intern.classRef? name) : Linking Pool.Index)
      (Mention.type? name) (fun _ => True) Invalid.PoolFull := by
  cases name with
  | none => exact .pure trivial
  | some name => exact enters_type name

theorem enters_constant {c : Constant} (h : c.Linkable linked) :
    Enters (Linker.Tidy linked) (constant c) [.constant c] (fun _ => True) Invalid.PoolFull :=
  .single rfl (attempt_constant c h)

theorem enters_callSite (name descriptor : String) {method : BootstrapMethod}
    (h : method.Linkable linked) :
    Enters (Linker.Tidy linked) (do
      let index ← bootstrapMethod method
      liftM (Pool.Intern.invokeDynamic index name descriptor))
      [.callSite name descriptor method] (fun _ => True) Invalid.PoolFull := by
  refine .single ?_ (attempt_invokeDynamic name descriptor h)
  rw [bind_assoc]
  rfl

end

/-! ## Growing tables -/

theorem Mention.yields_enter (mention : Mention) : Yields mention.enter fun _ _ => True := by
  cases mention with
  | entry request => exact request.yields_index.lift.bind fun _ => .pure fun _ _ _ => trivial
  | constant c => exact (yields_constant c).bind fun _ => .pure fun _ _ _ => trivial
  | callSite name descriptor method =>
    refine (yields_holdsRow method).bind fun index => ?_
    refine (Pool.Request.invokeDynamic index name descriptor).yields_index.lift.bind fun _ => ?_
    exact .pure fun _ _ _ _ => trivial
  | bootstraps =>
    have hget : Yields (get : Linking Linker) fun _ _ => True := by
      intro s linker t hvalid hrun
      cases hrun
      exact ⟨hvalid, Growing.refl _, fun _ _ _ => trivial⟩
    refine hget.bind fun linker => .ite (fun _ => .pure fun _ _ _ => trivial) fun _ => ?_
    refine (Pool.yields_utf8 AttributeName.bootstrapMethods).lift.bind fun _ => ?_
    exact .pure fun _ _ _ _ => trivial

theorem Linking.yields_enterAll (mentions : List Mention) :
    Yields (enterAll mentions) fun _ _ => True := by
  induction mentions with
  | nil => exact .pure fun _ _ => trivial
  | cons mention rest ih =>
    exact mention.yields_enter.bind fun _ => ih.mono fun _ _ _ _ _ => trivial

end JvmClass
