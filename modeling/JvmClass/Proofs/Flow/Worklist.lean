/-
  What the interpretation of a method body keeps.

  * `Run.loop_induction`: what every visit keeps holds in the end, when no
    instruction is left in the queue;
  * `Body.Invariant`: what holds of all entries, and what an entry keeps of the
    states that were merged into it;
  * `Run.Sound`: it holds of the entries of a run, and instructions that are not
    in the queue are settled: they run, and their successors were entered with
    what they pass on; one pass keeps that (`Run.Sound.pass`), so does a visit;
  * `finished_of_run`: in the end all instructions that were reached are
    settled, and the largest stack covers what they leave (`tops_of_run`).
-/
import JvmClass.Flow.Worklist
import JvmClass.Proofs.Flow.Merge

namespace JvmClass.Flow

/-! ## The queue -/

namespace Queue

theorem toList_push (queue : Queue) (label : Label) :
    (queue.push label).toList = queue.toList ++ [label] := by
  simp [toList, push]

theorem toList_of_pop? {queue next : Queue} {label : Label} (h : queue.pop? = some (label, next)) :
    queue.toList = label :: next.toList := by
  obtain ⟨front, back⟩ := queue
  unfold pop? at h
  dsimp only at h
  split at h
  next => cases h; rfl
  next =>
    split at h
    next hback => cases h; simp [toList, hback]
    next => exact nomatch h

theorem toList_of_pop?_none {queue : Queue} (h : queue.pop? = none) : queue.toList = [] := by
  obtain ⟨front, back⟩ := queue
  unfold pop? at h
  dsimp only at h
  split at h
  next => exact nomatch h
  next =>
    split at h
    next => exact nomatch h
    next hback => simpa [toList] using hback

end Queue

/-- What every visit keeps holds in the end, when the queue is empty. -/
theorem Run.loop_induction {body : Body} {P : Run → Prop}
    (hvisit : ∀ run index queue next, P run → run.queue.pop? = some (index, queue) →
      visit body index { run with queue := queue } = .ok next → P next)
    {fuel : Nat} {run final : Run} (hrun : P run) (h : loop body fuel run = .ok final) :
    P final ∧ final.queue.toList = [] := by
  induction fuel generalizing run with
  | zero =>
    unfold loop at h
    split at h
    next hempty => cases h; exact ⟨hrun, Queue.toList_of_pop?_none hempty⟩
    next => exact nomatch h
    next heq => exact nomatch heq
  | succ fuel ih =>
    unfold loop at h
    split at h
    next hempty => cases h; exact ⟨hrun, Queue.toList_of_pop?_none hempty⟩
    next heq => exact nomatch heq
    next index queue _ hpop heq =>
      obtain rfl := Nat.succ.inj heq
      obtain ⟨next, hnext, hrest⟩ := Result.bind_eq_ok.mp h
      exact ih (hvisit run index queue next hrun hpop hnext) hrest

/-! ## Entries -/

/-- The entry of an instruction, if it was reached. -/
def Run.entryAt (run : Run) (index : Label) : Option FlowState := run.entries[index]?.join

theorem Run.lt_of_entryAt (run : Run) {index : Label} {state : FlowState}
    (h : run.entryAt index = some state) : index < run.entries.size := by
  rw [entryAt, Option.join_eq_some_iff] at h
  exact (Array.getElem?_eq_some_iff.mp h).1

/-- Whether an instruction is marked as one in the queue. -/
def Run.Queued (run : Run) (index : Label) : Prop := run.queued[index]? = some true

/-- The entry of an instruction keeps `A` of a state that was passed on to it. -/
def Run.Keeps (run : Run) (A : FlowState → FlowState → Prop) (edge : Label × FlowState) : Prop :=
  ∃ t, run.entryAt edge.1 = some t ∧ A t edge.2

/-- What passes make of a run: entries keep what they kept, and an instruction
    whose entry changed is in the queue. -/
structure Run.Grows (A : FlowState → FlowState → Prop) (run next : Run) : Prop where
  maxStack : next.maxStack = run.maxStack
  keeps : ∀ edge, run.Keeps A edge → next.Keeps A edge
  idle : ∀ i, ¬ next.Queued i → ¬ run.Queued i ∧ next.entryAt i = run.entryAt i

theorem Run.Grows.refl (A : FlowState → FlowState → Prop) (run : Run) : run.Grows A run :=
  ⟨rfl, fun _ h => h, fun _ h => ⟨h, rfl⟩⟩

theorem Run.Grows.trans {A : FlowState → FlowState → Prop} {run next final : Run}
    (h : run.Grows A next) (h' : next.Grows A final) : run.Grows A final where
  maxStack := h'.maxStack.trans h.maxStack
  keeps edge hedge := h'.keeps edge (h.keeps edge hedge)
  idle i hidle := by
    obtain ⟨hnext, hentry'⟩ := h'.idle i hidle
    obtain ⟨hrun, hentry⟩ := h.idle i hnext
    exact ⟨hrun, hentry'.trans hentry⟩

theorem Run.pass_cases {hierarchy : Hierarchy} {run next : Run} {target : Label} {incoming : FlowState}
    (h : pass hierarchy run (target, incoming) = .ok next) :
    ∃ state news, mergeEntry hierarchy (run.entryAt target) incoming = .ok (state, news) ∧
      ((news = false ∧ next = run) ∨
        (news = true ∧ next.maxStack = run.maxStack ∧
          next.entries = run.entries.setIfInBounds target (some state) ∧
          ((run.Queued target ∧ next.queue = run.queue ∧ next.queued = run.queued) ∨
            (¬ run.Queued target ∧ next.queue = run.queue.push target ∧
              next.queued = run.queued.setIfInBounds target true)))) := by
  obtain ⟨entries, queue, queued, maxStack⟩ := run
  unfold pass at h
  dsimp only at h
  split at h
  next => exact nomatch h
  next state hmerge => cases h; exact ⟨state, false, hmerge, .inl ⟨rfl, rfl⟩⟩
  next state hmerge =>
    refine ⟨state, true, hmerge, .inr ?_⟩
    split at h
    next hqueued => cases h; exact ⟨rfl, rfl, rfl, .inl ⟨hqueued, rfl, rfl⟩⟩
    next hqueued => cases h; exact ⟨rfl, rfl, rfl, .inr ⟨hqueued, rfl, rfl⟩⟩

/-- What `visit` does: it passes on what the instruction leaves, if that was
    reached, and takes its mark away. -/
theorem Run.visit_cases {body : Body} {run next : Run} {index : Label} {queue : Queue}
    (h : visit body index { run with queue := queue } = .ok next) :
    (∃ before instruction after edges, run.entryAt index = some before ∧
        body.instructions[index]? = some instruction ∧
        body.execute index instruction before = .ok after ∧
        body.successors index instruction before after = .ok edges ∧
        edges.foldlM (pass body.hierarchy) ⟨run.entries, queue, run.queued.setIfInBounds index false,
          max run.maxStack (Body.stackAfter instruction after)⟩ = .ok next) ∨
      (∀ before instruction, run.entryAt index = some before →
          body.instructions[index]? ≠ some instruction) ∧
        next = ⟨run.entries, queue, run.queued.setIfInBounds index false, run.maxStack⟩ := by
  unfold visit at h
  dsimp only at h
  split at h
  next before instruction hbefore hinstruction =>
    obtain ⟨after, hexecute, hrest⟩ := Result.bind_eq_ok.mp h
    obtain ⟨edges, hedges, hpasses⟩ := Result.bind_eq_ok.mp hrest
    exact .inl ⟨before, instruction, after, edges, hbefore, hinstruction, hexecute, hedges, hpasses⟩
  next hnone => cases h; exact .inr ⟨hnone, rfl⟩

/-! ## The invariant -/

/-- What holds of all entries (`P`, with the largest stack so far), and what an
    entry keeps of the states that were merged into it (`A`). -/
structure Body.Invariant (body : Body) (P : Nat → Label → FlowState → Prop)
    (A : FlowState → FlowState → Prop) : Prop where
  mono : ∀ {m n i s}, m ≤ n → P m i s → P n i s
  merge : ∀ {m i s w t}, P m i s → P m i w → mergeState body.hierarchy s w = .ok t → P m i t
  step : ∀ {m i instruction s after edges}, body.instructions[i]? = some instruction → P m i s →
    body.execute i instruction s = .ok after →
    body.successors i instruction s after = .ok edges →
    ∀ edge ∈ edges, edge.1 < body.instructions.size ∧
      P (max m (Body.stackAfter instruction after)) edge.1 edge.2
  self : ∀ {m i w}, P m i w → A w w
  absorb : ∀ {m i s w t}, P m i s → P m i w → mergeState body.hierarchy s w = .ok t → A t w
  keep : ∀ {m i s w t v}, P m i s → P m i w → mergeState body.hierarchy s w = .ok t → A s v → A t v

/-- The instruction runs from the state `before`, and its successors keep `A` of
    what it passes on. -/
def Run.Settled (body : Body) (A : FlowState → FlowState → Prop) (run : Run) (index : Label)
    (before : FlowState) : Prop :=
  ∃ instruction after edges, body.instructions[index]? = some instruction ∧
    body.execute index instruction before = .ok after ∧
    body.successors index instruction before after = .ok edges ∧ ∀ edge ∈ edges, run.Keeps A edge

/-- The invariant holds of all entries; the instructions in `pending` apart,
    those that were reached and are not in the queue are settled. -/
structure Run.Sound (body : Body) (P : Nat → Label → FlowState → Prop)
    (A : FlowState → FlowState → Prop) (pending : Label → Prop) (run : Run) : Prop where
  entries : run.entries.size = body.instructions.size
  queued : run.queued.size = body.instructions.size
  holds : ∀ i s, run.entryAt i = some s → P run.maxStack i s
  queue : ∀ i, run.Queued i → i ∈ run.queue.toList
  settled : ∀ i s, run.entryAt i = some s → ¬ run.Queued i → ¬ pending i → run.Settled body A i s

section
variable {body : Body} {P : Nat → Label → FlowState → Prop} {A : FlowState → FlowState → Prop}
  {pending : Label → Prop} {run next : Run}

theorem Run.Settled.grows {i : Label} {s : FlowState} (h : run.Settled body A i s)
    (hgrows : run.Grows A next) : next.Settled body A i s := by
  obtain ⟨instruction, after, edges, hinstruction, hexecute, hedges, hkeeps⟩ := h
  exact ⟨instruction, after, edges, hinstruction, hexecute, hedges,
    fun edge hmem => hgrows.keeps edge (hkeeps edge hmem)⟩

theorem Run.entryAt_set {target i : Label} {state : FlowState} (hlt : target < run.entries.size)
    (h : next.entries = run.entries.setIfInBounds target (some state)) :
    next.entryAt i = if target = i then some state else run.entryAt i := by
  unfold entryAt
  rw [h, Array.getElem?_setIfInBounds]
  split
  next => rfl
  next => rfl

theorem Run.queued_of_pass {target : Label} (hlt : target < run.queued.size)
    (h : (run.Queued target ∧ next.queue = run.queue ∧ next.queued = run.queued) ∨
      (¬ run.Queued target ∧ next.queue = run.queue.push target ∧
        next.queued = run.queued.setIfInBounds target true)) :
    next.queued.size = run.queued.size ∧
      (∀ i, next.Queued i ↔ i = target ∨ run.Queued i) ∧
      ∀ i, (run.Queued i → i ∈ run.queue.toList) → next.Queued i → i ∈ next.queue.toList := by
  rcases h with ⟨hqueued, hqueue, hmarks⟩ | ⟨-, hqueue, hmarks⟩
  · have hsame (i : Label) : next.Queued i ↔ run.Queued i := by rw [Queued, Queued, hmarks]
    refine ⟨by rw [hmarks], fun i => ?_, fun i hbefore hi => ?_⟩
    · rw [hsame]
      exact ⟨.inr, fun h => h.elim (fun heq => heq ▸ hqueued) id⟩
    · rw [hqueue]
      exact hbefore ((hsame i).mp hi)
  · have hset (i : Label) : next.Queued i ↔ i = target ∨ run.Queued i := by
      rw [Queued, Queued, hmarks, Array.getElem?_setIfInBounds]
      split
      next heq => simp [heq]
      next hne => simp [Ne.symm hne]
    refine ⟨by rw [hmarks, Array.size_setIfInBounds], hset, fun i hbefore hi => ?_⟩
    rw [hqueue, Queue.toList_push]
    rcases (hset i).mp hi with rfl | hold
    · exact List.mem_append_right _ (.head _)
    · exact List.mem_append_left _ (hbefore hold)

/-- What comes out of a merge, for an entry that was there or not. -/
theorem Body.Invariant.entry (hI : body.Invariant P A) {m : Nat} {target : Label}
    {entry : Option FlowState} {incoming state : FlowState} {news : Bool}
    (hentry : ∀ s, entry = some s → P m target s) (hincoming : P m target incoming)
    (h : mergeEntry body.hierarchy entry incoming = .ok (state, news)) :
    P m target state ∧ A state incoming ∧ ∀ s, entry = some s → ∀ v, A s v → A state v := by
  rcases mergeEntry_eq_ok h with ⟨rfl, rfl, -⟩ | ⟨existing, rfl, hmerged, -⟩
  · exact ⟨hincoming, hI.self hincoming, nofun⟩
  · have hexisting := hentry existing rfl
    refine ⟨hI.merge hexisting hincoming hmerged, hI.absorb hexisting hincoming hmerged, ?_⟩
    rintro s ⟨⟩ v hv
    exact hI.keep hexisting hincoming hmerged hv

/-- **A pass keeps the invariant**, and its target keeps what is passed on. -/
theorem Run.Sound.pass (hI : body.Invariant P A) (hrun : run.Sound body P A pending)
    {target : Label} {incoming : FlowState} (hincoming : P run.maxStack target incoming)
    (htarget : target < body.instructions.size)
    (h : Run.pass body.hierarchy run (target, incoming) = .ok next) :
    next.Sound body P A pending ∧ run.Grows A next ∧ next.Keeps A (target, incoming) := by
  obtain ⟨state, news, hmerge, hcases⟩ := pass_cases h
  obtain ⟨hstate, habsorbs, hkeeps⟩ := hI.entry (hrun.holds target) hincoming hmerge
  rcases hcases with ⟨rfl, rfl⟩ | ⟨-, hstack, hentries, hqueue⟩
  · -- Without news, the entry is what came out of the merge.
    rcases mergeEntry_eq_ok hmerge with ⟨-, -, hnews⟩ | ⟨existing, hsome, -, hnews⟩
    · exact nomatch hnews
    · obtain rfl : state = existing := by simpa using hnews.symm
      exact ⟨hrun, .refl A next, state, hsome, habsorbs⟩
  · have hlt : target < run.entries.size := hrun.entries ▸ htarget
    have hentry (i : Label) := entryAt_set (i := i) hlt hentries
    obtain ⟨hsize, hqueued, hmem⟩ := queued_of_pass (hrun.queued ▸ htarget) hqueue
    have hgrows : run.Grows A next := by
      refine ⟨hstack, ?_, ?_⟩
      · rintro ⟨i, w⟩ ⟨s, hs, hsw⟩
        by_cases heq : target = i
        · subst heq
          exact ⟨state, by rw [hentry, if_pos rfl], hkeeps s hs w hsw⟩
        · exact ⟨s, by rw [hentry, if_neg heq]; exact hs, hsw⟩
      · intro i hidle
        have hne : target ≠ i := fun heq => hidle ((hqueued i).mpr (.inl heq.symm))
        refine ⟨fun h => hidle ((hqueued i).mpr (.inr h)), ?_⟩
        rw [hentry, if_neg hne]
    refine ⟨⟨?_, hsize.trans hrun.queued, ?_, ?_, ?_⟩, hgrows, state, ?_, habsorbs⟩
    · rw [hentries, Array.size_setIfInBounds, hrun.entries]
    · intro i s hs
      rw [hentry i] at hs
      rw [hstack]
      split at hs
      next heq => cases hs; exact heq ▸ hstate
      next => exact hrun.holds i s hs
    · intro i hi
      exact hmem i (fun hbefore => hrun.queue i hbefore) hi
    · intro i s hs hidle hpending
      obtain ⟨hbefore, hsame⟩ := hgrows.idle i hidle
      exact (hrun.settled i s (hsame ▸ hs) hbefore hpending).grows hgrows
    · rw [hentry, if_pos rfl]

/-- Several passes keep the invariant, and their targets keep what is passed
    on. -/
theorem Run.Sound.passes (hI : body.Invariant P A) {edges : List (Label × FlowState)}
    (hrun : run.Sound body P A pending)
    (hedges : ∀ edge ∈ edges, edge.1 < body.instructions.size ∧ P run.maxStack edge.1 edge.2)
    (h : edges.foldlM (Run.pass body.hierarchy) run = .ok next) :
    next.Sound body P A pending ∧ run.Grows A next ∧ ∀ edge ∈ edges, next.Keeps A edge := by
  induction edges generalizing run with
  | nil =>
    cases h
    exact ⟨hrun, .refl A next, nofun⟩
  | cons edge edges ih =>
    obtain ⟨middle, hpass, hrest⟩ := Result.bind_eq_ok.mp h
    obtain ⟨⟨htarget, hholds⟩, hedges⟩ := List.forall_mem_cons.mp hedges
    obtain ⟨hmiddle, hgrows, hkept⟩ := hrun.pass hI hholds htarget hpass
    rw [← hgrows.maxStack] at hedges
    obtain ⟨hnext, hgrows', hkeeps⟩ := ih hmiddle hedges hrest
    refine ⟨hnext, hgrows.trans hgrows', ?_⟩
    exact List.forall_mem_cons.mpr ⟨hgrows'.keeps edge hkept, hkeeps⟩

/-! ## Visits -/

theorem Run.queued_clear (run : Run) (index i : Label) :
    (run.queued.setIfInBounds index false)[i]? = some true ↔ i ≠ index ∧ run.Queued i := by
  rw [Array.getElem?_setIfInBounds]
  split
  next heq => split <;> simp [heq]
  next hne => simp [Ne.symm hne, Queued]

/-- A run from whose queue an instruction was taken; it is pending. -/
theorem Run.Sound.take (hrun : run.Sound body P A fun _ => False) {index : Label} {queue : Queue}
    (hpop : run.queue.pop? = some (index, queue)) :
    Run.Sound body P A (· = index)
      { run with queue := queue, queued := run.queued.setIfInBounds index false } := by
  have hmark := run.queued_clear index
  refine ⟨hrun.entries, by rw [Array.size_setIfInBounds, hrun.queued], hrun.holds, ?_, ?_⟩
  · intro i hi
    obtain ⟨hne, hqueued⟩ := (hmark i).mp hi
    have hmem := hrun.queue i hqueued
    rw [Queue.toList_of_pop? hpop] at hmem
    exact (List.mem_cons.mp hmem).resolve_left hne
  · intro i s hs hidle hne
    exact hrun.settled i s hs (fun hqueued => hidle ((hmark i).mpr ⟨hne, hqueued⟩)) id

theorem Run.Sound.raise (hI : body.Invariant P A) (hrun : run.Sound body P A pending)
    {maxStack : Nat} (hle : run.maxStack ≤ maxStack) :
    Run.Sound body P A pending { run with maxStack := maxStack } :=
  ⟨hrun.entries, hrun.queued, fun i s hs => hI.mono hle (hrun.holds i s hs), hrun.queue,
    hrun.settled⟩

/-- What a visit does to a sound run: the instruction apart, it stays sound; the
    largest stack is raised, and if the instruction was reached, it covers what
    the instruction leaves, which is passed on. -/
theorem Run.Sound.visit_cases (hI : body.Invariant P A) (hrun : run.Sound body P A fun _ => False)
    {index : Label} {queue : Queue} (hpop : run.queue.pop? = some (index, queue))
    (h : Run.visit body index { run with queue := queue } = .ok next) :
    next.Sound body P A (· = index) ∧ ∃ maxStack, run.maxStack ≤ maxStack ∧
      Run.Grows A ⟨run.entries, queue, run.queued.setIfInBounds index false, maxStack⟩ next ∧
      ∀ before, run.entryAt index = some before → ∃ instruction after edges,
        body.instructions[index]? = some instruction ∧
        body.execute index instruction before = .ok after ∧
        body.successors index instruction before after = .ok edges ∧
        Body.stackAfter instruction after ≤ maxStack ∧ ∀ edge ∈ edges, next.Keeps A edge := by
  have htaken := hrun.take hpop
  rcases Run.visit_cases h with
    ⟨before, instruction, after, edges, hbefore, hinstruction, hexecute, hedges, hpasses⟩ | ⟨hnone, rfl⟩
  · -- The largest stack is raised first, so that it covers what is passed on.
    have hraised := htaken.raise hI (Nat.le_max_left run.maxStack (Body.stackAfter instruction after))
    have hholds := hI.step hinstruction (hrun.holds index before hbefore) hexecute hedges
    obtain ⟨hnext, hgrows, hkeeps⟩ := hraised.passes hI hholds hpasses
    refine ⟨hnext, _, Nat.le_max_left .., hgrows, fun other hother => ?_⟩
    cases hother.symm.trans hbefore
    exact ⟨instruction, after, edges, hinstruction, hexecute, hedges, Nat.le_max_right .., hkeeps⟩
  · refine ⟨htaken, _, Nat.le_refl _, .refl A _, fun before hbefore => ?_⟩
    have hlt : index < body.instructions.size := hrun.entries ▸ run.lt_of_entryAt hbefore
    exact absurd (Array.getElem?_eq_getElem hlt) (hnone before _ hbefore)

/-- **A visit keeps the invariant**, and entries keep what they kept. -/
theorem Run.Sound.visit (hI : body.Invariant P A) (hrun : run.Sound body P A fun _ => False)
    {index : Label} {queue : Queue} (hpop : run.queue.pop? = some (index, queue))
    (h : Run.visit body index { run with queue := queue } = .ok next) :
    next.Sound body P A (fun _ => False) ∧ ∀ edge, run.Keeps A edge → next.Keeps A edge := by
  obtain ⟨hnext, maxStack, -, hgrows, hvisited⟩ := hrun.visit_cases hI hpop h
  refine ⟨{ hnext with settled := ?_ }, hgrows.keeps⟩
  intro i s hs hidle _
  by_cases heq : i = index
  · -- Its entry is the one that it was run from, or it would be in the queue again.
    subst heq
    obtain ⟨-, hsame⟩ := hgrows.idle i hidle
    obtain ⟨instruction, after, edges, hinstruction, hexecute, hedges, -, hkeeps⟩ :=
      hvisited s (hsame.symm.trans hs)
    exact ⟨instruction, after, edges, hinstruction, hexecute, hedges, hkeeps⟩
  · exact hnext.settled i s hs hidle heq

/-- The largest stack covers what the instructions leave that were reached and
    are not in the queue. -/
def Run.Tops (body : Body) (run : Run) : Prop :=
  ∀ i s, run.entryAt i = some s → ¬ run.Queued i → ∀ instruction after,
    body.instructions[i]? = some instruction → body.execute i instruction s = .ok after →
      Body.stackAfter instruction after ≤ run.maxStack

theorem Run.Sound.tops_visit (hI : body.Invariant P A) (hrun : run.Sound body P A fun _ => False)
    (htops : run.Tops body) {index : Label} {queue : Queue}
    (hpop : run.queue.pop? = some (index, queue))
    (h : Run.visit body index { run with queue := queue } = .ok next) : next.Tops body := by
  obtain ⟨-, maxStack, hle, hgrows, hvisited⟩ := hrun.visit_cases hI hpop h
  intro i s hs hidle instruction after hinstruction hexecute
  obtain ⟨hbefore, hsame⟩ := hgrows.idle i hidle
  have hentry : run.entryAt i = some s := hsame.symm.trans hs
  rw [hgrows.maxStack]
  by_cases heq : i = index
  · subst heq
    obtain ⟨_, _, edges, hinstruction', hexecute', -, htop, -⟩ := hvisited s hentry
    cases hinstruction.symm.trans hinstruction'
    cases hexecute.symm.trans hexecute'
    exact htop
  · have hidle' : ¬ run.Queued i := by
      rwa [Queued, Array.getElem?_setIfInBounds_ne (Ne.symm heq)] at hbefore
    exact Nat.le_trans (htops i s hentry hidle' instruction after hinstruction hexecute) hle

/-! ## Runs -/

theorem getElem?_setFirst {α : Type} {n : Nat} {a b : α} {i : Nat} :
    ((Array.replicate n b).setIfInBounds 0 a)[i]? =
      if i < n then some (if i = 0 then a else b) else none := by
  rw [Array.getElem?_setIfInBounds, Array.size_replicate]
  by_cases hzero : 0 = i
  · subst hzero; rfl
  · rw [if_neg hzero, Array.getElem?_replicate, if_neg (Ne.symm hzero)]

theorem Run.entryAt_start {count : Nat} {initial : FlowState} (i : Label) :
    (Run.start count initial).entryAt i = if i < count ∧ i = 0 then some initial else none := by
  rw [entryAt, start, getElem?_setFirst]
  by_cases hlt : i < count
  · rw [if_pos hlt]
    by_cases hzero : i = 0
    · rw [if_pos hzero, if_pos ⟨hlt, hzero⟩]
      rfl
    · rw [if_neg hzero, if_neg fun h => hzero h.2]
      rfl
  · rw [if_neg hlt, if_neg fun h => hlt h.1]
    rfl

theorem Run.queued_start {count : Nat} {initial : FlowState} (i : Label) :
    (Run.start count initial).Queued i ↔ i < count ∧ i = 0 := by
  rw [Queued, start, getElem?_setFirst]
  by_cases hlt : i < count <;> simp [hlt]

theorem Run.sound_start {initial : FlowState} (hinitial : P 0 0 initial) :
    (Run.start body.instructions.size initial).Sound body P A fun _ => False := by
  refine ⟨by simp [start], by simp [start], ?_, ?_, ?_⟩
  · intro i s hs
    rw [entryAt_start] at hs
    split at hs
    next hfirst => cases hs; rw [hfirst.2]; exact hinitial
    next => exact nomatch hs
  · intro i hi
    obtain ⟨-, rfl⟩ := (queued_start i).mp hi
    exact .head _
  · intro i s hs hidle _
    rw [entryAt_start] at hs
    split at hs
    next hfirst => exact absurd ((queued_start i).mpr hfirst) hidle
    next => exact nomatch hs

theorem Run.Sound.idle_of_empty (hrun : run.Sound body P A pending)
    (hempty : run.queue.toList = []) (i : Label) : ¬ run.Queued i := by
  intro hqueued
  have hmem := hrun.queue i hqueued
  rw [hempty] at hmem
  exact nomatch hmem

/-- A run that has come to its end: the first instruction was entered with
    `initial`, and all instructions that were reached are settled. -/
structure Run.Finished (body : Body) (P : Nat → Label → FlowState → Prop)
    (A : FlowState → FlowState → Prop) (initial : FlowState) (run : Run) : Prop where
  entries : run.entries.size = body.instructions.size
  start : 0 < body.instructions.size → run.Keeps A (0, initial)
  holds : ∀ i s, run.entryAt i = some s → P run.maxStack i s
  settled : ∀ i s, run.entryAt i = some s → run.Settled body A i s

/-- **In the end the invariant holds and all instructions that were reached are
    settled.** -/
theorem finished_of_run (hI : body.Invariant P A) {initial : FlowState} (hinitial : P 0 0 initial)
    {final : Run} (h : Flow.run body initial = .ok final) :
    final.Finished body P A initial := by
  have hstart : 0 < body.instructions.size →
      (Run.start body.instructions.size initial).Keeps A (0, initial) := by
    intro hpos
    exact ⟨initial, by rw [Run.entryAt_start, if_pos ⟨hpos, rfl⟩], hI.self hinitial⟩
  obtain ⟨⟨hsound, hkept⟩, hdone⟩ := Run.loop_induction
    (P := fun run => run.Sound body P A (fun _ => False) ∧
      (0 < body.instructions.size → run.Keeps A (0, initial)))
    (fun run index queue next hrun hpop hvisit => by
      obtain ⟨hnext, hgrows⟩ := hrun.1.visit hI hpop hvisit
      exact ⟨hnext, fun hpos => hgrows _ (hrun.2 hpos)⟩)
    ⟨Run.sound_start hinitial, hstart⟩ h
  exact ⟨hsound.entries, hkept, hsound.holds, fun i s hs =>
    hsound.settled i s hs (hsound.idle_of_empty hdone i) id⟩

/-- **In the end the largest stack covers what the instructions leave that were
    reached.** -/
theorem tops_of_run (hI : body.Invariant P A) {initial : FlowState} (hinitial : P 0 0 initial)
    {final : Run} (h : Flow.run body initial = .ok final) {i : Label} {s after : FlowState}
    (hs : final.entryAt i = some s) {instruction : Instruction}
    (hinstruction : body.instructions[i]? = some instruction)
    (hexecute : body.execute i instruction s = .ok after) :
    Body.stackAfter instruction after ≤ final.maxStack := by
  have hstart : (Run.start body.instructions.size initial).Tops body := by
    intro i s hs hidle
    rw [Run.entryAt_start] at hs
    split at hs
    next hfirst => exact absurd ((Run.queued_start i).mpr hfirst) hidle
    next => exact nomatch hs
  obtain ⟨⟨hsound, htops⟩, hdone⟩ := Run.loop_induction
    (P := fun run => run.Sound body P A (fun _ => False) ∧ run.Tops body)
    (fun run index queue next hrun hpop hvisit =>
      ⟨(hrun.1.visit hI hpop hvisit).1, hrun.1.tops_visit hI hrun.2 hpop hvisit⟩)
    ⟨Run.sound_start hinitial, hstart⟩ h
  exact htops i s hs (hsound.idle_of_empty hdone i) instruction after hinstruction hexecute

end

end JvmClass.Flow
