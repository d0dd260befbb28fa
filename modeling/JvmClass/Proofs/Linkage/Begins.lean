/-
  What indices stand for where two class files begin their tables alike.

  * `Linkage.Referent` is what an index of a constant pool stands for, with all
    that it refers to, and `Linkage.referent` resolves an index of any kind;
  * `Linkage.Begins`: the tables of a class file are an initial part of those of
    another one;
  * `referent_of_begins`: what an index stands for in the initial part, it
    stands for in the whole;
  * `begins_of_enterAll`: the tables of some mentions are an initial part of the
    tables of more.
-/
import JvmClass.Linkage.Table
import JvmClass.Proofs.Linkage.Mentions
import JvmClass.Proofs.Result

namespace JvmClass

namespace Result

variable {ε α β : Type}

/-- What the first of two steps returns the second one returns as well, if that
    is so of their parts. -/
theorem bind_grows {x y : Except ε α} {f g : α → Except ε β} {b : β}
    (h : x >>= f = .ok b) (hx : ∀ a, x = .ok a → y = .ok a)
    (hf : ∀ a, f a = .ok b → g a = .ok b) : y >>= g = .ok b := by
  obtain ⟨a, ha, hb⟩ := bind_eq_ok.mp h
  exact bind_eq_ok.mpr ⟨a, hx a ha, hf a hb⟩

theorem mapM_grows {step other : α → Except ε β} {items : List α} {results : List β}
    (h : items.mapM step = .ok results) (hstep : ∀ a b, step a = .ok b → other a = .ok b) :
    items.mapM other = .ok results :=
  mapM_eq_ok.mpr ((mapM_eq_ok.mp h).imp hstep)

end Result

namespace Linkage

/-- What an index of a constant pool stands for. -/
inductive Referent where
  | text (text : String)
  | constant (constant : Constant)
  | member (ref : MemberRef)
  | nameAndType (name descriptor : String)
  | callSite (name descriptor : String) (bootstrap : BootstrapMethod)
  | module (name : String)
  | package (name : String)

/-- What the index of an entry stands for, with all that it refers to. -/
def referent (linkage : Linkage) (index : Pool.Index) : Except Malformed Referent := do
  match ← linkage.pool.get index with
  | .utf8 text => return .text text
  | .fieldRef .. | .methodRef .. | .interfaceMethodRef .. =>
    return .member (← linkage.pool.member index)
  | .nameAndType .. =>
    let (name, descriptor) ← linkage.pool.nameAndType index
    return .nameAndType name descriptor
  | .invokeDynamic bootstrap nameAndType =>
    let (name, descriptor) ← linkage.pool.nameAndType nameAndType
    return .callSite name descriptor (← linkage.bootstrapMethod bootstrap)
  | .module name => return .module (← linkage.pool.utf8 name)
  | .package name => return .package (← linkage.pool.utf8 name)
  | _ => return .constant (← linkage.constant index)

/-- The tables of a class file are an initial part of those of another one. -/
structure Begins (small large : Linkage) : Prop where
  entries : small.pool.entries.toList <+: large.pool.entries.toList
  bootstraps : small.bootstraps.toList <+: large.bootstraps.toList

theorem getElem?_of_initial {α : Type} {small large : Array α} (h : small.toList <+: large.toList)
    {i : Nat} {a : α} (ha : small[i]? = some a) : large[i]? = some a := by
  rw [← Array.getElem?_toList] at ha ⊢
  obtain ⟨added, hadded⟩ := h
  rw [← hadded, List.getElem?_append_left (List.getElem?_eq_some_iff.mp ha).1, ha]

section
variable {small large : Linkage} (h : small.Begins large)
include h

theorem get_of_begins {index : Pool.Index} {entry : Pool.Entry}
    (hget : small.pool.get index = .ok entry) : large.pool.get index = .ok entry := by
  unfold Pool.get at hget ⊢
  split at hget
  next => exact nomatch hget
  next => exact nomatch hget
  next found hreserved hfound =>
    rw [getElem?_of_initial h.entries hfound]
    cases hget
    split
    next heq => exact nomatch heq
    next heq => exact (hreserved (Option.some.inj heq)).elim
    next heq => cases heq; rfl

theorem utf8_of_begins {index : Pool.Index} {text : String}
    (hutf8 : small.pool.utf8 index = .ok text) : large.pool.utf8 index = .ok text :=
  Result.bind_grows hutf8 (fun _ => get_of_begins h) fun _ htext => htext

theorem className_of_begins {index : Pool.Index} {name : String}
    (hname : small.pool.className index = .ok name) : large.pool.className index = .ok name := by
  refine Result.bind_grows hname (fun _ => get_of_begins h) fun entry hentry => ?_
  cases entry with
  | classRef inner => exact utf8_of_begins h hentry
  | _ => exact nomatch hentry

theorem nameAndType_of_begins {index : Pool.Index} {pair : String × String}
    (hpair : small.pool.nameAndType index = .ok pair) :
    large.pool.nameAndType index = .ok pair := by
  refine Result.bind_grows hpair (fun _ => get_of_begins h) fun entry hentry => ?_
  cases entry with
  | nameAndType name descriptor =>
    refine Result.bind_grows hentry (fun _ => utf8_of_begins h) fun _ hrest => ?_
    exact Result.bind_grows hrest (fun _ => utf8_of_begins h) fun _ hdone => hdone
  | _ => exact nomatch hentry

theorem member_of_begins {index : Pool.Index} {ref : MemberRef}
    (hmember : small.pool.member index = .ok ref) : large.pool.member index = .ok ref := by
  have hresolve {owner nameAndType : Pool.Index} {field interface : Bool}
      (hrun : Pool.member.resolve small.pool owner nameAndType field interface = .ok ref) :
      Pool.member.resolve large.pool owner nameAndType field interface = .ok ref := by
    refine Result.bind_grows hrun (fun _ => nameAndType_of_begins h) fun _ hrest => ?_
    exact Result.bind_grows hrest (fun _ => className_of_begins h) fun _ hdone => hdone
  refine Result.bind_grows hmember (fun _ => get_of_begins h) fun entry hentry => ?_
  cases entry with
  | fieldRef | methodRef | interfaceMethodRef => exact hresolve hentry
  | _ => exact nomatch hentry

theorem handle_of_begins {index : Pool.Index} {handle : Handle}
    (hhandle : small.handle index = .ok handle) : large.handle index = .ok handle := by
  refine Result.bind_grows hhandle (fun _ => get_of_begins h) fun entry hentry => ?_
  cases entry with
  | methodHandle kind ref =>
    dsimp only at hentry ⊢
    split at hentry
    next hkind =>
      rw [if_pos hkind]
      exact Result.bind_grows hentry (fun _ => member_of_begins h) fun _ hdone => hdone
    next => exact nomatch hentry
  | _ => exact nomatch hentry

theorem constantWith_of_begins {resolve resolve' : UInt16 → Except Malformed BootstrapMethod}
    (hresolve : ∀ row method, resolve row = .ok method → resolve' row = .ok method)
    {index : Pool.Index} {c : Constant} (hc : small.constantWith resolve index = .ok c) :
    large.constantWith resolve' index = .ok c := by
  refine Result.bind_grows hc (fun _ => get_of_begins h) fun entry hentry => ?_
  cases entry with
  | integer | float | long | double => exact hentry
  | string | classRef | methodType =>
    exact Result.bind_grows hentry (fun _ => utf8_of_begins h) fun _ hdone => hdone
  | methodHandle => exact Result.bind_grows hentry (fun _ => handle_of_begins h) fun _ hdone => hdone
  | dynamic bootstrap nameAndType =>
    refine Result.bind_grows hentry (fun _ => nameAndType_of_begins h) fun _ hrest => ?_
    exact Result.bind_grows hrest (hresolve bootstrap) fun _ hdone => hdone
  | _ => exact nomatch hentry

theorem bootstrapWithin_of_begins {depth : Nat} {index : UInt16} {method : BootstrapMethod}
    (hmethod : small.bootstrapWithin depth index = .ok method) :
    large.bootstrapWithin depth index = .ok method := by
  induction depth generalizing index method with
  | zero => exact nomatch hmethod
  | succ depth ih =>
    unfold bootstrapWithin at hmethod ⊢
    split at hmethod
    next => exact nomatch hmethod
    next row hrow =>
      simp only [getElem?_of_initial h.bootstraps hrow]
      refine Result.bind_grows hmethod (fun arguments harguments => ?_) fun _ hrest => ?_
      · exact Result.mapM_grows harguments fun _ _ => constantWith_of_begins h fun _ _ => ih
      · exact Result.bind_grows hrest (fun _ => handle_of_begins h) fun _ hdone => hdone

theorem constant_of_begins {index : Pool.Index} {c : Constant}
    (hc : small.constant index = .ok c) : large.constant index = .ok c :=
  constantWith_of_begins h (fun _ _ => bootstrapWithin_of_begins h) hc

/-- **What an index stands for in an initial part of the tables, it stands for in
    the whole.** -/
theorem referent_of_begins {index : Pool.Index} {referent : Referent}
    (hreferent : small.referent index = .ok referent) : large.referent index = .ok referent := by
  refine Result.bind_grows hreferent (fun _ => get_of_begins h) fun entry hentry => ?_
  cases entry with
  | utf8 => exact hentry
  | fieldRef | methodRef | interfaceMethodRef =>
    exact Result.bind_grows hentry (fun _ => member_of_begins h) fun _ hdone => hdone
  | nameAndType =>
    exact Result.bind_grows hentry (fun _ => nameAndType_of_begins h) fun _ hdone => hdone
  | invokeDynamic bootstrap nameAndType =>
    refine Result.bind_grows hentry (fun _ => nameAndType_of_begins h) fun _ hrest => ?_
    exact Result.bind_grows hrest (fun _ => bootstrapWithin_of_begins h) fun _ hdone => hdone
  | module | package => exact Result.bind_grows hentry (fun _ => utf8_of_begins h) fun _ hdone => hdone
  | reserved | integer | float | long | double | classRef | string | methodHandle | methodType
  | dynamic => exact Result.bind_grows hentry (fun _ => constant_of_begins h) fun _ hdone => hdone

end

/-- The tables of the first mentions are an initial part of those of all. -/
theorem begins_of_enterAll {front mentions : List Mention} {s t : Linker}
    (hfront : front <+: mentions) (hs : Linking.enterAll front .empty = .ok () s)
    (ht : Linking.enterAll mentions .empty = .ok () t) : s.toLinkage.Begins t.toLinkage := by
  obtain ⟨rest, rfl⟩ := hfront
  obtain ⟨hvalid, -, -⟩ := Linking.yields_enterAll front .empty () s Linker.valid_empty hs
  rw [Linking.enterAll_of_ok hs] at ht
  obtain ⟨-, ⟨hentries, hrows⟩, -⟩ := Linking.yields_enterAll rest s () t hvalid ht
  exact ⟨hentries, hrows⟩

end Linkage

end JvmClass
