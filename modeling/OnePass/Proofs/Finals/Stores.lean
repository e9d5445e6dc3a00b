import OnePass.Proofs.Bodies.Complete
import OnePass.Proofs.Layout.Action
import Mathlib.Data.List.Perm.Subperm

/-! # Stores

A store is an instruction that changes a local variable or a field. `Session.stores` lists the
stores of all methods of a session, finished or open, each with its method. The order does not
matter: what is compared are numbers, by the relation `List.Subperm`.

Opening and closing methods and types adds no store. A method keeps its stores when it is finished,
except that a branch that is tied to its label may overwrite one. So the module holds no more stores
than the session did (`Session.gives_finish_stores`). -/

namespace OnePass

open List

/-! ## Code -/

/-- What an instruction stores to. -/
inductive Stored where
  | loc (index : UInt16)
  | field (ref : MemberRef)
  deriving DecidableEq

/-- What an instruction stores to, if it is a store. -/
def Instruction.stored? (instruction : Instruction) : Option Stored :=
  match instruction.opcode, instruction.operand with
  | .stloc, .loc index => some (.loc index)
  | .stfld, .field ref => some (.field ref)
  | .stsfld, .field ref => some (.field ref)
  | _, _ => none

/-- The stores of some code. -/
def storesIn (code : List Instruction) : List Stored := code.filterMap (·.stored?)

@[simp]
theorem storesIn_append (code more : List Instruction) :
    storesIn (code ++ more) = storesIn code ++ storesIn more :=
  filterMap_append

theorem storesIn_cons (instruction : Instruction) (code : List Instruction) :
    storesIn (instruction :: code) = instruction.stored?.toList ++ storesIn code := by
  rw [storesIn, filterMap_cons]
  cases instruction.stored? <;> rfl

theorem storesIn_sublist {code more : List Instruction} (part : code.Sublist more) :
    (storesIn code).Sublist (storesIn more) :=
  part.filterMap _

theorem storesIn_modify (target : UInt32) (code : List Instruction) (position : Nat) :
    (storesIn (code.modify position fun i => { i with operand := .target target })).Sublist
    (storesIn code) := by
  have branch (instruction : Instruction) : { instruction with operand := .target target }.stored? =
      none := by
    unfold Instruction.stored?
    split <;> simp_all
  induction code generalizing position with
  | nil => simp [storesIn]
  | cons instruction rest ih =>
    cases position with
    | zero =>
      rw [modify_zero_cons, storesIn_cons, branch]
      exact storesIn_sublist (sublist_cons_self instruction rest)
    | succ position =>
      rw [modify_succ_cons, storesIn_cons, storesIn_cons]
      exact (ih position).append_left _

/-- The number of stores to a place, whichever methods they belong to. -/
def storesTo (stored : Stored) (stores : List (MethodSlot × Stored)) : Nat :=
  stores.countP (·.2 == stored)

namespace MethodDraft

theorem gives_resolveFixups (labels : List (String × UInt32)) (fixups : List Fixup)
    (code : List Instruction) : Gives (resolveFixups labels fixups code) fun (later, _) =>
      (storesIn later).Sublist (storesIn code) := by
  induction fixups generalizing code with
  | nil => exact List.Sublist.refl _
  | cons fixup rest ih =>
    rw [resolveFixups]
    split
    · rw [gives_bind]
      exact ih code
    · rename_i target _
      split
      · exact (ih _).imp fun _ part => part.trans (storesIn_modify target code fixup.position)
      · exact gives_error

/-- The stores of an open method. -/
def stores (method : MethodDraft) : List (MethodSlot × Stored) :=
  (storesIn method.code).map (method.slot, ·)

end MethodDraft

/-- The stores of a finished method. -/
def MethodBody.stores (body : MethodBody) : List (MethodSlot × Stored) :=
  (storesIn body.code).map (body.slot, ·)

theorem MethodDraft.gives_finish_stores (method : MethodDraft) :
    Gives method.finish fun (body, _) => body.slot = method.slot ∧
      body.stores.Sublist method.stores := by
  rw [finish, gives_bind]
  exact (gives_resolveFixups _ _ _).imp fun _ part => ⟨rfl, part.map _⟩

/-! ## Types -/

namespace TypeDraft

variable {draft : TypeDraft}

/-- The stores of the methods of a type, finished or open. -/
def stores (draft : TypeDraft) : List (MethodSlot × Stored) :=
  draft.bodies.flatMap (·.stores) ++ draft.openMethods.flatMap (·.stores)

/-- The methods of a type, finished or open. -/
def slots (draft : TypeDraft) : List MethodSlot := draft.signatures.map (·.slot)

theorem mem_slots {store : MethodSlot × Stored} (here : store ∈ draft.stores) :
    store.1 ∈ draft.slots := by
  simp only [stores, MethodBody.stores, MethodDraft.stores, mem_append, mem_flatMap, mem_map] at here
  simp only [slots, signatures, MethodBody.signature, MethodDraft.signature, map_append, map_map,
    mem_append, mem_map, Function.comp_apply]
  rcases here with ⟨body, inBodies, stored, -, rfl⟩ | ⟨method, inOpen, stored, -, rfl⟩
  · exact .inl ⟨body, inBodies, rfl⟩
  · exact .inr ⟨method, inOpen, rfl⟩

/-- Methods are finished, and nothing else happens to the methods of the type. -/
structure Shrinks (draft changed : TypeDraft) : Prop where
  slots : changed.slots = draft.slots
  stores : changed.stores.Subperm draft.stores
  openMethods : changed.openMethods ⊆ draft.openMethods

theorem Shrinks.refl (draft : TypeDraft) : draft.Shrinks draft := ⟨rfl, .refl _, List.Subset.refl _⟩

theorem gives_finishAll_stores (methods : List MethodDraft) :
    Gives (finishAll methods) fun (bodies, _) =>
      (bodies.flatMap (·.stores)).Sublist (methods.flatMap (·.stores)) := by
  induction methods with
  | nil => exact List.Sublist.refl _
  | cons method rest ih =>
    rw [finishAll, gives_bind]
    refine method.gives_finish_stores.imp ?_
    rintro ⟨body, _⟩ ⟨_, first⟩
    rw [gives_bind]
    exact ih.imp fun _ others => first.append others

theorem gives_closeMethod_shrinks (draft : TypeDraft) :
    Gives draft.closeMethod fun (closed, _) => draft.Shrinks closed := by
  have renews := draft.gives_closeMethod
  rw [closeMethod] at renews ⊢
  split at renews
  · exact .refl draft
  · rename_i method rest current
    rw [gives_bind] at renews ⊢
    refine (renews.and method.gives_finish_stores).imp ?_
    rintro ⟨body, _⟩ ⟨same, _, part⟩
    refine ⟨?_, ?_, ?_⟩
    · exact congrArg (map (·.slot)) same.signatures
    · simp only [stores, current, flatMap_append, flatMap_cons, flatMap_nil, append_nil,
        append_assoc]
      exact ((part.append (List.Sublist.refl _)).append_left _).subperm
    · rw [current]
      exact subset_cons_self method rest

theorem gives_closeMethods_shrinks (draft : TypeDraft) :
    Gives draft.closeMethods fun (closed, _) => draft.Shrinks closed := by
  have renews := draft.gives_closeMethods
  rw [closeMethods, gives_bind] at renews ⊢
  refine (renews.and (gives_finishAll_stores _)).imp ?_
  rintro ⟨bodies, _⟩ ⟨⟨same, _⟩, part⟩
  refine ⟨?_, ?_, ?_⟩
  · exact congrArg (map (·.slot)) same.signatures
  · simp only [stores, flatMap_append, flatMap_nil, append_nil]
    exact (part.append_left _).subperm
  · exact nil_subset _

theorem gives_close_shrinks (draft : TypeDraft) (table : SymbolTable) (namespaces : List String) :
    Gives (draft.close table namespaces) fun (closed, _) => draft.Shrinks closed := by
  rw [close]
  split
  · exact .refl draft
  · rw [gives_bind]
    refine draft.gives_closeMethods_shrinks.imp ?_
    rintro ⟨closed, _⟩ shrinks
    refine gives_bind_ok fun _ _ => ?_
    exact gives_bind_ok fun _ _ => ⟨shrinks.slots, shrinks.stores, shrinks.openMethods⟩

end TypeDraft

/-! ## Sessions -/

/-- The stores of a module. -/
def CompiledModule.stores (compiled : CompiledModule) : List (MethodSlot × Stored) :=
  compiled.types.flatMap fun type => type.bodies.flatMap (·.stores)

namespace Session

variable {session later : Session}

/-- The stores of all methods, finished or open. -/
def stores (session : Session) : List (MethodSlot × Stored) := session.drafts.flatMap (·.stores)

/-- All methods, finished or open. -/
def slots (session : Session) : List MethodSlot := session.drafts.flatMap (·.slots)

theorem slots_perm (session : Session) :
    session.slots.Perm (session.bodies.map (·.slot) ++ session.openMethods.map (·.slot)) := by
  have each (draft : TypeDraft) : draft.slots = draft.bodies.map (·.slot) ++ draft.openMethods.map
      (·.slot) := by
    rw [TypeDraft.slots, TypeDraft.signatures, map_append, map_map, map_map]
    rfl
  rw [slots, bodies, openMethods, map_flatMap, map_flatMap]
  simp only [each]
  exact (flatMap_append_perm ..).symm

theorem mem_slots {store : MethodSlot × Stored} (here : store ∈ session.stores) :
    store.1 ∈ session.slots := by
  obtain ⟨draft, inDrafts, inDraft⟩ := mem_flatMap.mp here
  exact mem_flatMap.mpr ⟨draft, inDrafts, draft.mem_slots inDraft⟩

theorem slot_mem {method : MethodDraft} (isOpen : method ∈ session.openMethods) :
    method.slot ∈ session.slots := by
  obtain ⟨draft, inDrafts, inDraft⟩ := mem_flatMap.mp isOpen
  refine mem_flatMap.mpr ⟨draft, inDrafts, mem_map.mpr ⟨method.signature, ?_, rfl⟩⟩
  exact mem_append_right _ (mem_map.mpr ⟨method, inDraft, rfl⟩)

theorem stores_set {index : Nat} {draft changed : TypeDraft}
    (here : session.drafts[index]? = some draft) (fewer : changed.stores.Subperm draft.stores) :
    ((session.drafts.set index changed).flatMap (·.stores)).Subperm session.stores := by
  obtain ⟨before, after, drafts, sets⟩ := exists_around here
  rw [sets, stores, drafts]
  simp only [flatMap_append, flatMap_cons]
  rw [subperm_append_left, subperm_append_right]
  exact fewer

/-- What can happen to the methods of a session apart from their code: some are finished, others are
opened. -/
structure Switches (session later : Session) : Prop where
  slots : session.slots.Subperm later.slots
  stores : later.stores.Subperm session.stores
  openMethods : ∀ method ∈ later.openMethods, method ∈ session.openMethods ∨
    method.locals = [] ∧ (method.slot :: session.slots).Subperm later.slots

instance : IsPreorder Session Switches where
  refl session := ⟨.refl _, .refl _, fun _ isOpen => .inl isOpen⟩
  trans session later last first second := by
    refine ⟨first.slots.trans second.slots, second.stores.trans first.stores, fun method isOpen => ?_⟩
    rcases second.openMethods method isOpen with inLater | ⟨blank, fresh⟩
    · rcases first.openMethods method inLater with inFirst | ⟨blank, fresh⟩
      · exact .inl inFirst
      · exact .inr ⟨blank, fresh.trans second.slots⟩
    · exact .inr ⟨blank, ((subperm_cons _).mpr first.slots).trans fresh⟩

theorem Switches.of_drafts_eq (same : later.drafts = session.drafts) : session.Switches later := by
  refine ⟨?_, ?_, fun method isOpen => .inl ?_⟩
  · rw [Session.slots, Session.slots, same]
  · rw [Session.stores, Session.stores, same]
  · rwa [Session.openMethods, same] at isOpen

theorem switches_of_shrinks {index : Nat} {draft changed : TypeDraft}
    (here : session.drafts[index]? = some draft) (shrinks : draft.Shrinks changed)
    (replaced : later.drafts = session.drafts.set index changed) : session.Switches later := by
  have fewer := stores_set here shrinks.stores
  rw [← replaced] at fewer
  obtain ⟨before, after, drafts, sets⟩ := exists_around here
  rw [sets] at replaced
  refine ⟨?_, fewer, fun method isOpen => .inl ?_⟩
  · simp only [Session.slots, drafts, replaced, flatMap_append, flatMap_cons, shrinks.slots]
    exact .refl _
  · simp only [Session.openMethods, drafts, replaced, flatMap_append, flatMap_cons,
      mem_append] at isOpen ⊢
    exact isOpen.imp_right (Or.imp_left fun inChanged => shrinks.openMethods inChanged)

theorem switches_closeAt (session : Session) (index : Nat) (namespaces : List String) :
    Gives (session.closeAt index namespaces) fun (later, _) => session.Switches later := by
  rw [closeAt, gives_bind]
  refine gives_draft.imp fun draft here => ?_
  rw [gives_bind]
  exact (draft.gives_close_shrinks _ _).imp fun _ shrinks => switches_of_shrinks here shrinks rfl

theorem switches_closeEach (namespaces : List String) (indices : List Nat) (session : Session) :
    Gives (closeEach namespaces indices session) fun (later, _) => session.Switches later := by
  induction indices generalizing session with
  | nil => exact refl_of Switches session
  | cons index rest ih =>
    rw [closeEach, gives_bind]
    refine (session.switches_closeAt index namespaces).imp ?_
    rintro ⟨next, _⟩ first
    rw [gives_bind]
    exact (ih next).imp fun _ others => trans_of Switches first others

theorem gives_finishMain_stores (draft : TypeDraft) :
    Gives (finishMain draft) fun (closed, _) => closed.stores.Subperm draft.stores := by
  rw [finishMain, gives_bind]
  refine (TypeDraft.gives_finishAll_stores _).imp ?_
  rintro ⟨bodies, _⟩ part
  have returns (method : MethodDraft) : (method.emit .ret).stores = method.stores := by
    simp [MethodDraft.stores, MethodDraft.emit, MethodDraft.append, storesIn, Instruction.stored?]
  have split : draft.openMethods = draft.openMethods.dropLast ++
      draft.openMethods.getLast?.toList := by
    cases last : draft.openMethods.getLast? with
    | none => simp [getLast?_eq_none_iff.mp last]
    | some method => exact (dropLast_append_getLast? method last).symm
  have main : (draft.openMethods.getLast?.toList.map (·.emit .ret)).flatMap (·.stores) =
      draft.openMethods.getLast?.toList.flatMap (·.stores) := by
    cases draft.openMethods.getLast? <;> simp [returns]
  simp only [gives_pure, TypeDraft.stores, flatMap_append, main, append_assoc]
  rw [split, flatMap_append, ← split]
  exact ((part.append_right _).append_left _).subperm

theorem gives_finishDefault_stores (session : Session) (namespaces : List String) :
    Gives (session.finishDefault namespaces) fun (later, _) =>
      later.stores.Subperm session.stores := by
  rw [finishDefault]
  split
  · exact .refl _
  · rename_i index _
    rw [gives_bind]
    refine gives_draft.imp fun draft here => ?_
    split
    · exact .refl _
    have closes (changed : TypeDraft) (fewer : changed.stores.Subperm draft.stores) :
        Gives ((session.setDraft index changed).closeAt index namespaces) fun outcome =>
          outcome.1.stores.Subperm session.stores :=
      (switches_closeAt _ index namespaces).imp fun _ switches =>
        switches.stores.trans (stores_set here fewer)
    rw [closeDefault]
    split
    · rw [gives_bind]
      refine (gives_finishMain_stores draft).imp ?_
      rintro ⟨changed, _⟩ fewer
      rw [gives_bind]
      exact (closes changed fewer).imp fun _ stores => stores
    · rw [gives_bind, gives_ok, gives_bind]
      exact (closes draft (.refl _)).imp fun _ stores => stores

theorem stores_bodies_sublist (drafts : List TypeDraft) :
    ((drafts.map fun draft : TypeDraft => (⟨draft.id, draft.bodies⟩ : ModuleType)).flatMap
      fun type => type.bodies.flatMap (·.stores)).Sublist (drafts.flatMap (·.stores)) := by
  induction drafts with
  | nil => exact List.Sublist.refl _
  | cons draft drafts ih => exact (sublist_append_left _ _).append ih

theorem gives_finish_stores (session : Session) (namespaces : List String) :
    Gives (session.finish namespaces) fun (compiled, _) => compiled.stores.Subperm session.stores := by
  rw [finish]
  refine gives_bind_ok fun dropped _ => ?_
  rw [gives_bind]
  refine (session.gives_finishDefault_stores namespaces).imp ?_
  rintro ⟨first, _⟩ fewer
  rw [gives_bind]
  refine (switches_closeEach namespaces _ first).imp ?_
  rintro ⟨second, _⟩ closing
  rw [gives_bind]
  refine (switches_closeEach namespaces _ second).imp ?_
  rintro ⟨last, _⟩ rest
  -- First the implicit class is closed, then the types that are open, then each draft once more.
  have inSession : last.stores.Subperm session.stores :=
    (rest.stores.trans closing.stores).trans fewer
  have kept := (withoutDraft_sublist dropped last.drafts).flatMap (·.stores)
  have inModule := ((stores_bodies_sublist _).trans kept).subperm.trans inSession
  dsimp only
  split
  · exact inModule
  · exact gives_bind_ok fun _ _ => inModule

end Session

end OnePass
