/-
  What a linker under construction holds.

  * `Linker.Valid`: its pool is in order and every remembered row is where it
    is said to be; steps only add entries and rows;
  * `Yields.lift` and `Yields.ofExcept` are the steps that concern the pool
    alone, or nothing at all;
  * `Yields.each`: what a step yields for the items of a list.
-/
import JvmClass.Linkage.Builder
import JvmClass.Proofs.Pool.Builder

namespace JvmClass

/-- The linkage with what was added so far. -/
def Linker.toLinkage (linker : Linker) : Linkage := ⟨linker.pool.toPool, linker.rows⟩

/-- The pool is in order and the remembered indices lead to their rows. -/
structure Linker.Valid (linker : Linker) : Prop where
  pool : linker.pool.Valid
  size_le : linker.rows.size ≤ 0x10000
  found : ∀ (row : BootstrapRow) (index : UInt16), linker.rowIndices[row]? = some index →
    linker.rows[index.toNat]? = some row

theorem Linker.valid_empty : Linker.empty.Valid where
  pool := Pool.Builder.valid_empty
  size_le := by decide
  found _ _ h := by simp [Linker.empty] at h

/-- A linker with the same rows is in order as well if its pool is. -/
theorem Linker.Valid.of_pool {s t : Linker} (h : s.Valid) (hpool : t.pool.Valid)
    (hrows : t.rows = s.rows) (hindices : t.rowIndices = s.rowIndices) : t.Valid where
  pool := hpool
  size_le := by
    rw [hrows]
    exact h.size_le
  found := by
    rw [hrows, hindices]
    exact h.found

instance : Growing Linker where
  Valid := Linker.Valid
  Extends l m :=
    l.pool.entries.toList <+: m.pool.entries.toList ∧ l.rows.toList <+: m.rows.toList
  refl _ := ⟨List.prefix_refl _, List.prefix_refl _⟩
  trans h k := ⟨h.1.trans k.1, h.2.trans k.2⟩

namespace Linking

theorem toNat_of_count {n : Nat} {what : String} {word : UInt16}
    (h : Linking.count n what = .ok word) : word.toNat = n := by
  unfold Linking.count at h
  split at h
  next hle =>
    cases h
    rw [UInt16.toNat_ofNat']
    omega
  next => exact nomatch h

/-! ## Runs -/

section
variable {α β : Type} {s t u : Linker} {a : α} {b : β}

theorem bind_eq_ok {x : Linking α} {f : α → Linking β} :
    (x >>= f) s = .ok b u ↔ ∃ a t, x s = .ok a t ∧ f a t = .ok b u := by
  simp only [Bind.bind, EStateM.bind]
  cases x s <;> simp

theorem liftM_eq_ok {result : Except Invalid α} :
    (liftM result : Linking α) s = .ok a t ↔ result = .ok a ∧ t = s := by
  cases result with
  | ok b =>
    change EStateM.Result.ok b s = .ok a t ↔ _
    simp only [EStateM.Result.ok.injEq, Except.ok.injEq]
    exact and_congr_right fun _ => eq_comm
  | error cause =>
    change EStateM.Result.error cause s = .ok a t ↔ _
    simp

theorem lift_eq_ok {step : Pool.Interning α} :
    (liftM step : Linking α) s = .ok a t ↔
      step s.pool = .ok a t.pool ∧ t.rows = s.rows ∧ t.rowIndices = s.rowIndices := by
  obtain ⟨pool, rows, rowIndices⟩ := s
  obtain ⟨pool', rows', rowIndices'⟩ := t
  change ofInterning step ⟨pool, rows, rowIndices⟩ = _ ↔ _
  simp only [ofInterning]
  cases step pool with
  | ok b next =>
    simp only [EStateM.Result.ok.injEq, Linker.mk.injEq, and_assoc,
      @eq_comm _ rows', @eq_comm _ rowIndices']
  | error cause next => simp

theorem lift_eq_error {step : Pool.Interning α} {cause : Invalid}
    (h : (liftM step : Linking α) s = .error cause t) : step s.pool = .error cause t.pool := by
  obtain ⟨pool, rows, rowIndices⟩ := s
  change ofInterning step ⟨pool, rows, rowIndices⟩ = _ at h
  simp only [ofInterning] at h
  cases hstep : step pool with
  | ok b next =>
    rw [hstep] at h
    cases h
  | error cause' next =>
    rw [hstep] at h
    cases h
    rfl

end

end Linking

namespace Yields

variable {α β : Type}

theorem lift {step : Pool.Interning α} {P : Pool.Builder → α → Prop} (h : Yields step P) :
    Yields (liftM step : Linking α) fun linker a => P linker.pool a := by
  intro s a t hvalid hrun
  obtain ⟨hstep, hrows, hindices⟩ := Linking.lift_eq_ok.mp hrun
  obtain ⟨hnext, hle, hpost⟩ := h s.pool a t.pool hvalid.pool hstep
  have hle' : Growing.Extends s t := ⟨hle, hrows ▸ List.prefix_refl _⟩
  exact ⟨hvalid.of_pool hnext hrows hindices, hle', fun final hfinal hlater =>
    hpost final.pool hfinal.pool hlater.1⟩

theorem ofExcept (result : Except Invalid α) :
    Yields (liftM result : Linking α) fun _ a => result = .ok a := by
  cases result with
  | ok a => exact .pure fun _ _ => rfl
  | error cause => exact .throw

theorem bindOk {result : Except Invalid α} {f : α → Linking β} {R : Linker → β → Prop}
    (h : ∀ a, result = .ok a → Yields (f a) R) : Yields ((liftM result : Linking α) >>= f) R := by
  cases result with
  | ok a => exact h a rfl
  | error cause =>
    exact fun s b t _ hrun => nomatch (show EStateM.Result.error cause s = .ok b t from hrun)

theorem count (n : Nat) (what : String) :
    Yields (liftM (Linking.count n what) : Linking UInt16) fun _ word => word.toNat = n :=
  (ofExcept _).mono fun _ _ _ h => Linking.toNat_of_count h

theorem eachRev {step : α → Linking β} {P : Linker → β → α → Prop} (items : List α)
    (h : ∀ a ∈ items, Yields (step a) fun linker b => P linker b a) (done : List β) :
    Yields (Linking.eachRev step done items) fun linker bs =>
      ∃ later, bs = done.reverse ++ later ∧ List.Forall₂ (P linker) later items := by
  induction items generalizing done with
  | nil => exact .pure fun _ _ => ⟨[], by simp, .nil⟩
  | cons a items ih =>
    refine (h a (.head _)).bind fun b => ?_
    refine (ih (fun a ha => h a (.tail _ ha)) (b :: done)).mono ?_
    rintro linker bs - ⟨later, rfl, hlater⟩ hb
    exact ⟨b :: later, by simp, .cons hb hlater⟩

theorem each {step : α → Linking β} {P : Linker → β → α → Prop} {items : List α}
    (h : ∀ a ∈ items, Yields (step a) fun linker b => P linker b a) :
    Yields (Linking.each step items) fun linker bs => List.Forall₂ (P linker) bs items :=
  (eachRev items h []).mono fun _ _ _ ⟨_, hbs, hlater⟩ => by simpa [hbs] using hlater

/-- A counted list of things, each of which is read as it was written. -/
theorem counted {write : α → Linking Bytes} {reader : Linker → Reader α} {items : List α}
    {what : String}
    (h : ∀ a ∈ items, Yields (write a) fun linker w => Reader.Reads (reader linker) w a) :
    Yields (do
      let count ← (liftM (Linking.count items.length what) : Linking UInt16)
      return Bytes.u2 count ++ (← Linking.each write items).flatten) fun linker w =>
        Reader.Reads (do Reader.times (← Reader.u2).toNat (reader linker)) w items := by
  refine (count _ _).bind fun count => (each h).bind fun ws => ?_
  exact .pure fun linker _ hws hcount => (Reader.reads_u2 count).bind (Reader.reads_times hws hcount)

end Yields

namespace Linking

theorem row_eq (row : BootstrapRow) (linker : Linker) :
    Linking.row row linker =
      match linker.rowIndices[row]? with
      | some index => .ok index linker
      | none =>
        match Linking.count linker.rows.size "bootstrap methods" with
        | .ok index =>
          .ok index ⟨linker.pool, linker.rows.push row, linker.rowIndices.insert row index⟩
        | .error cause => .error cause linker := by
  have hget : (get : Linking Linker) linker = .ok linker linker := rfl
  simp only [Linking.row, Bind.bind, EStateM.bind, hget]
  cases linker.rowIndices[row]? with
  | some index => rfl
  | none => cases Linking.count linker.rows.size "bootstrap methods" <;> rfl

/-- **The index of a row leads to it** from then on. -/
theorem yields_row (row : BootstrapRow) :
    Yields (Linking.row row) fun linker index =>
      linker.toLinkage.bootstraps[index.toNat]? = some row := by
  intro linker index next hvalid hrun
  have hlater : ∀ next : Linker, next.rows[index.toNat]? = some row →
      ∀ final : Linker, next.rows.toList <+: final.rows.toList →
        final.toLinkage.bootstraps[index.toNat]? = some row := by
    rintro next hnext final ⟨added, hadded⟩
    rw [← Array.getElem?_toList] at hnext
    rw [Linker.toLinkage, ← Array.getElem?_toList, ← hadded,
      List.getElem?_append_left (List.getElem?_eq_some_iff.mp hnext).1, hnext]
  rw [row_eq] at hrun
  split at hrun
  next found hfound =>
    cases hrun
    exact ⟨hvalid, Growing.refl _, fun final _ hle =>
      hlater linker (hvalid.found row _ hfound) final hle.2⟩
  next hfound =>
    split at hrun
    next count hcount =>
      cases hrun
      have hsize := toNat_of_count hcount
      have hlt := index.toNat_lt
      have hpushed : (linker.rows.push row)[index.toNat]? = some row := by simp [hsize]
      refine ⟨⟨hvalid.pool, ?_, ?_⟩, ⟨List.prefix_refl _, by simp⟩, fun final _ hle =>
        hlater ⟨_, _, _⟩ hpushed final hle.2⟩
      · simp only [Array.size_push]; omega
      · intro other index' hother
        rw [Std.HashMap.getElem?_insert] at hother
        split at hother
        next heq =>
          obtain rfl : row = other := by simpa using heq
          obtain rfl : index = index' := by simpa using hother
          exact hpushed
        next =>
          have hold := hvalid.found other index' hother
          have hbound := (Array.getElem?_eq_some_iff.mp hold).1
          rw [Array.getElem?_push_lt hbound]
          simpa [Array.getElem?_eq_getElem hbound] using hold
    next => exact nomatch hrun

/-! ## Steps for the items of a list -/

section
variable {α β γ : Type} {step : α → Linking β} {other : γ → Linking β}

theorem forall₂_of_eachRev {R : α → β → Prop} {items : List α} {done bs : List β} {s t : Linker}
    (h : eachRev step done items s = .ok bs t)
    (hstep : ∀ a ∈ items, ∀ s b t, step a s = .ok b t → R a b) :
    ∃ later, bs = done.reverse ++ later ∧ List.Forall₂ R items later := by
  induction items generalizing done s with
  | nil =>
    cases h
    exact ⟨[], (List.append_nil _).symm, .nil⟩
  | cons a items ih =>
    obtain ⟨b, u, hb, hrest⟩ := bind_eq_ok.mp h
    obtain ⟨later, rfl, hlater⟩ := ih hrest fun a ha => hstep a (.tail _ ha)
    refine ⟨b :: later, ?_, .cons (hstep a (.head _) s b u hb) hlater⟩
    rw [List.reverse_cons, List.append_assoc, List.singleton_append]

/-- What every run of a step gives, the steps for the items of a list give. -/
theorem forall₂_of_each {R : α → β → Prop} {items : List α} {bs : List β} {s t : Linker}
    (h : each step items s = .ok bs t)
    (hstep : ∀ a ∈ items, ∀ s b t, step a s = .ok b t → R a b) : List.Forall₂ R items bs := by
  obtain ⟨later, rfl, hlater⟩ := forall₂_of_eachRev h hstep
  exact hlater

theorem length_of_each {items : List α} {bs : List β} {s t : Linker}
    (h : each step items s = .ok bs t) : bs.length = items.length :=
  (forall₂_of_each (R := fun _ _ => True) h fun _ _ _ _ _ _ => trivial).length_eq.symm

theorem eachRev_map {f : γ → α} {items : List γ} (h : ∀ c ∈ items, step (f c) = other c)
    (done : List β) : eachRev step done (items.map f) = eachRev other done items := by
  induction items generalizing done with
  | nil => rfl
  | cons c items ih =>
    simp only [List.map_cons, eachRev, h c (.head _)]
    congr 1; funext b
    exact ih (fun c hc => h c (.tail _ hc)) _

theorem each_map {f : γ → α} {items : List γ} (h : ∀ c ∈ items, step (f c) = other c) :
    each step (items.map f) = each other items :=
  eachRev_map h []

end

end Linking

end JvmClass
