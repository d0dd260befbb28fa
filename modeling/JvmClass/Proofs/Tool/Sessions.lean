/-
  Class files that are made one after another.

  * `Makes`: of each input a class file is made and saved, before the next one;
  * `makes_of_performAll`: stages that are carried out to the end do so, and
    `Makes.writes` says which files there are then;
  * `Makes.unique`: where something is made that stays the same (`Settled`), equal
    inputs give equal class files, although the files that super classes are
    looked up in can change in between (`settled_reencode`).
-/
import JvmClass.Proofs.ClassFile.Rewriting
import JvmClass.Proofs.ClassPath.Known
import JvmClass.Proofs.Files.Writing
import JvmClass.Tool.Run

namespace JvmClass.Tool

/-! ## Carrying out stages -/

section
variable {workspace : Workspace} {printed : String}

theorem perform_print (line : String) (rest : List Action) :
    (perform .kept workspace (.print line :: rest)).run printed =
      (perform .kept workspace rest).run (printed ++ line ++ "\n") := rfl

theorem perform_write (directory name : String) (content : Bytes) (rest : List Action) :
    (perform .kept workspace (.write directory name content :: rest)).run printed =
      match save workspace directory name content with
      | .ok workspace => (perform .kept workspace rest).run printed
      | .error failure => ((workspace, some failure), printed) := by
  change (match save workspace directory name content with
    | .ok workspace => _
    | .error failure => _ : StateM String (Workspace × Option Failure)).run printed = _
  cases save workspace directory name content <;> rfl

theorem perform_prints_write (lines : List String) (directory name : String) (content : Bytes) :
    ((perform .kept workspace (lines.map .print ++ [.write directory name content])).run printed).1 =
      match save workspace directory name content with
      | .ok workspace => (workspace, none)
      | .error failure => (workspace, some failure) := by
  induction lines generalizing printed with
  | nil =>
    rw [List.map_nil, List.nil_append, perform_write]
    cases save workspace directory name content <;> rfl
  | cons line lines ih =>
    rw [List.map_cons, List.cons_append, perform_print]
    exact ih

theorem performAll_of_performed {session : Session} {stage : Stage} {text : String}
    (h : (perform .kept session.workspace (stage session).1).run printed =
      ((workspace, none), text)) (rest : List Stage) :
    (performAll .kept session (stage :: rest)).run printed =
      (performAll .kept ⟨workspace, (stage session).2⟩ rest).run text := by
  rw [performAll, StateT.run_bind, h]
  rfl

theorem performAll_of_failed {session : Session} {stage : Stage} {failure : Failure}
    {text : String} (h : (perform .kept session.workspace (stage session).1).run printed =
      ((workspace, some failure), text)) (rest : List Stage) :
    (performAll .kept session (stage :: rest)).run printed =
      ((workspace, some failure), text) := by
  rw [performAll, StateT.run_bind, h]
  rfl

end

/-! ## Making class files -/

section
variable (output : String) (make : Session → Input → Bytes → Prop) (learn : Session → Input → Known)

/-- Class files are made of inputs, one after the other: each is saved below a
    directory before the next one is made. -/
inductive Makes : Session → List (Input × Bytes) → Workspace → Prop
  | nil {session} : Makes session [] session.workspace
  | cons {session input bytes workspace classes last} (hmake : make session input bytes)
      (hsave : save session.workspace output input.name bytes = .ok workspace)
      (hrest : Makes ⟨workspace, learn session input⟩ classes last) :
    Makes session ((input, bytes) :: classes) last

/-- A stage makes a class file and saves it, unless it fails. -/
def StageMakes (stage : Input → Stage) : Prop :=
  ∀ input session, (∃ failure known, stage input session = ([.fail failure], known)) ∨
    ∃ (lines : List String) (bytes : Bytes), make session input bytes ∧
      stage input session = (lines.map .print ++ [.write output input.name bytes],
        learn session input)

end

/-- The names under which the class file of an input is written. -/
def placeOf (workspace : Workspace) (output : String) (input : Input) : List String :=
  Path.names workspace.here (Path.join output input.name)

theorem writes_save {workspace after : Workspace} {directory name : String} {content : Bytes}
    (h : save workspace directory name content = .ok after) :
    Workspace.Writes [(Path.names workspace.here (Path.join directory name), content)]
      workspace after := by
  unfold save at h
  dsimp only at h
  split at h
  next => exact nomatch h
  next between hdirectories =>
    split at h
    next => exact nomatch h
    next hwrite =>
      obtain rfl := Except.ok.inj h
      have hbetween := Workspace.writes_createDirectories hdirectories
      have hafter := Workspace.writes_write hwrite
      rw [hbetween.here] at hafter
      exact hbetween.append hafter

variable {output : String} {make : Session → Input → Bytes → Prop}
  {learn : Session → Input → Known} {session : Session} {classes : List (Input × Bytes)}
  {last : Workspace}

/-- **Stages that are carried out to the end make a class file of every input.** -/
theorem makes_of_performAll {stage : Input → Stage} (hstage : StageMakes output make learn stage)
    {inputs : List Input} {printed : String}
    (h : ((performAll .kept session (inputs.map stage)).run printed).1 = (last, none)) :
    ∃ classes : List (Input × Bytes), classes.map Prod.fst = inputs ∧
      Makes output make learn session classes last := by
  induction inputs generalizing session printed with
  | nil =>
    obtain ⟨rfl, -⟩ := Prod.mk.inj h
    exact ⟨[], rfl, .nil⟩
  | cons input inputs ih =>
    rw [List.map_cons] at h
    rcases hrun : (perform .kept session.workspace (stage input session).1).run printed with
      ⟨⟨workspace, _ | failure⟩, text⟩
    · rw [performAll_of_performed hrun] at h
      rcases hstage input session with ⟨failure, known, heq⟩ | ⟨lines, bytes, hmake, heq⟩
      · rw [heq] at hrun
        exact nomatch (Prod.mk.inj (Prod.mk.inj hrun).1).2
      · rw [heq] at h hrun
        obtain ⟨classes, rfl, hclasses⟩ := ih h
        refine ⟨(input, bytes) :: classes, rfl, .cons hmake ?_ hclasses⟩
        have hperform :=
          @perform_prints_write session.workspace printed lines output input.name bytes
        rw [hrun] at hperform
        split at hperform
        next after hsave => rw [hsave, (Prod.mk.inj hperform).1]
        next => exact nomatch (Prod.mk.inj hperform).2
    · rw [performAll_of_failed hrun] at h
      exact nomatch (Prod.mk.inj h).2

/-- The class files are written, each where its name leads to, and nothing else
    is. -/
theorem Makes.writes (h : Makes output make learn session classes last) :
    Workspace.Writes (classes.map fun c => (placeOf session.workspace output c.1, c.2))
      session.workspace last := by
  induction h with
  | nil => exact .nil
  | cons _ hsave _ ih =>
    have hfirst := writes_save hsave
    simp only [placeOf, hfirst.here] at ih ⊢
    exact hfirst.append ih

theorem Makes.exists_make (h : Makes output make learn session classes last) :
    ∀ c ∈ classes, ∃ session, make session c.1 c.2 := by
  induction h with
  | nil => exact nofun
  | cons hmake _ _ ih => exact List.forall_mem_cons.mpr ⟨⟨_, hmake⟩, ih⟩

/-! ## Equal inputs -/

/-- What is made of some bytes stays the same: what is learned in making it is all
    that it depends on. -/
structure Settled (make : Session → Input → Bytes → Prop) (learn : Session → Input → Known) :
    Prop where
  kept : ∀ (session : Session) (input : Input), session.known.Within (learn session input)
  same : ∀ {session : Session} {input : Input} {bytes : Bytes} {later : Session} {other : Input}
    {bytes' : Bytes}, make session input bytes → (learn session input).Within later.known → other.bytes = input.bytes →
      make later other bytes' → bytes' = bytes

theorem Makes.eq_of_within (hsettled : Settled make learn) {first : Session} {input : Input}
    {bytes : Bytes} (hmake : make first input bytes)
    (h : Makes output make learn session classes last)
    (hwithin : (learn first input).Within session.known) :
    ∀ c ∈ classes, c.1.bytes = input.bytes → c.2 = bytes := by
  induction h with
  | nil => exact nofun
  | cons hnext _ _ ih =>
    refine List.forall_mem_cons.mpr ⟨fun heq => hsettled.same hmake hwithin heq hnext, ?_⟩
    exact ih (hwithin.trans (hsettled.kept _ _))

/-- **Equal inputs give equal class files.** -/
theorem Makes.unique (hsettled : Settled make learn)
    (h : Makes output make learn session classes last) :
    ∀ c ∈ classes, ∀ d ∈ classes, c.1.bytes = d.1.bytes → c.2 = d.2 := by
  induction h with
  | nil => exact nofun
  | cons hmake _ hrest ih =>
    have hlater := hrest.eq_of_within hsettled hmake (.refl _)
    refine List.forall_mem_cons.mpr ⟨List.forall_mem_cons.mpr ⟨fun _ => rfl, ?_⟩, ?_⟩
    · exact fun d hd heq => (hlater d hd heq.symm).symm
    · exact fun c hc => List.forall_mem_cons.mpr ⟨hlater c hc, ih c hc⟩

theorem settled_strip : Settled (fun _ input bytes => ClassFile.stripDebug input.bytes = .ok bytes)
    fun session _ => session.known where
  kept session _ := .refl session.known
  same h _ heq h' := by
    rw [heq, h] at h'
    exact (Except.ok.inj h').symm

theorem reencode_congr {decode : DecodeOptions} {encode : EncodeOptions} {hierarchy other : Hierarchy}
    {input next : Input} (heq : next.bytes = input.bytes)
    (h : hierarchy.Agrees other (reencodeQuestions decode encode hierarchy input)) {bytes bytes' : Bytes}
    (hbytes : reencode decode encode hierarchy input = .ok bytes)
    (hbytes' : reencode decode encode other next = .ok bytes') : bytes' = bytes := by
  unfold reencodeQuestions at h
  unfold reencode at hbytes hbytes'
  rw [heq] at hbytes'
  cases hdecode : ClassFile.decode input.bytes decode with
  | error cause =>
    rw [hdecode] at hbytes
    exact nomatch hbytes
  | ok record =>
    simp only [hdecode] at h hbytes hbytes'
    rw [ClassFile.encode_congr h] at hbytes'
    split at hbytes
    next => exact nomatch hbytes
    next content hencode =>
      simp only [hencode] at hbytes'
      split at hbytes
      next hreads =>
        rw [if_pos hreads] at hbytes'
        exact (Except.ok.inj hbytes').symm.trans (Except.ok.inj hbytes)
      next => exact nomatch hbytes

/-- **What becomes of a class does not change**, whatever was written in
    between. -/
theorem settled_reencode (decode : DecodeOptions) (encode : EncodeOptions) (places : List Place) :
    Settled
      (fun session input bytes =>
        reencode decode encode (session.hierarchy places) input = .ok bytes)
      fun session input => session.learn places
        (reencodeQuestions decode encode (session.hierarchy places) input) where
  kept session input := by
    obtain ⟨contents, hcontents⟩ := ClassPath.exists_offers_ofPlaces session.workspace places
    exact (Known.learned_learn (ClassPath.ends_retrieve hcontents session.known) _).kept
  same {session input bytes later other bytes'} h hwithin heq h' := by
    obtain ⟨contents, hcontents⟩ := ClassPath.exists_offers_ofPlaces session.workspace places
    exact reencode_congr heq
      (Known.agrees_learn (ClassPath.ends_retrieve hcontents session.known) hwithin) h h'

end JvmClass.Tool
