import OnePass.Proofs.Bodies.Signature
import OnePass.Proofs.Outline.Declaration

/-! # Drafts account for their definitions

A declared type is kept twice while it is read: its definition in the symbol table says what members
it has, and its draft holds the methods that were opened. Both grow with every declaration, each in
its own order.

A draft accounts for a definition if its methods, finished or open, have the signatures that the
definition lists, each of them once. `Session.Accounted` says this of all drafts, and
`Session.Acts.accounted` that no action of the compiler breaks it. -/

namespace OnePass

open List SymbolTable

/-! ## Drafts -/

/-- The signature of a finished method. -/
def MethodBody.signature (body : MethodBody) : Signature := ⟨body.slot, body.params.map (·.type)⟩

/-- The signature of a method so far. -/
def MethodDraft.signature (method : MethodDraft) : Signature :=
  ⟨method.slot, method.params.map (·.type)⟩

theorem MethodDraft.gives_finish (method : MethodDraft) :
    Gives method.finish fun (body, _) => body.signature = method.signature := by
  rw [finish]
  exact gives_bind_ok fun _ _ => rfl

namespace TypeDraft

variable {draft changed : TypeDraft} {defined : List Signature}

/-- The signatures of the methods of a draft, finished or open. -/
def signatures (draft : TypeDraft) : List Signature :=
  draft.bodies.map (·.signature) ++ draft.openMethods.map (·.signature)

/-- The methods of the draft are those that are defined, each once. A closed draft has finished
them, and a draft without members has none. -/
structure Accounts (draft : TypeDraft) (defined : List Signature) : Prop where
  signatures : draft.signatures.Perm defined
  closed : draft.isOpen = false → draft.openMethods = []
  empty : draft.isEmpty = true → draft.signatures = []

/-- A change of a draft that leaves its signatures alone. -/
structure Renews (draft changed : TypeDraft) : Prop where
  id : changed.id = draft.id
  signatures : changed.signatures = draft.signatures
  members : changed.members = draft.members
  closed : (draft.isOpen = false → draft.openMethods = []) → changed.isOpen = false →
    changed.openMethods = []

theorem Renews.refl (draft : TypeDraft) : draft.Renews draft :=
  ⟨rfl, rfl, rfl, fun finished => finished⟩

theorem Renews.isEmpty (renews : draft.Renews changed) : changed.isEmpty = draft.isEmpty := by
  rw [TypeDraft.isEmpty, TypeDraft.isEmpty, renews.members]

theorem addMember_isEmpty (draft : TypeDraft) : draft.addMember.isEmpty = false := by
  simp [TypeDraft.isEmpty, addMember]

theorem Accounts.isEmpty_eq_false (accounts : draft.Accounts defined) {method : MethodDraft}
    (inside : method ∈ draft.openMethods) : draft.isEmpty = false := by
  by_contra hasNone
  have none : draft.signatures = [] := accounts.empty (by simpa using hasNone)
  have signed : method.signature ∈ draft.signatures := mem_append_right _ (mem_map_of_mem inside)
  simp [none] at signed

theorem Renews.accounts (renews : draft.Renews changed) (accounts : draft.Accounts defined) :
    changed.Accounts defined where
  signatures := renews.signatures ▸ accounts.signatures
  closed := renews.closed accounts.closed
  empty isEmpty := by
    rw [renews.isEmpty] at isEmpty
    rw [renews.signatures]
    exact accounts.empty isEmpty

theorem Accounts.addMethod (accounts : draft.Accounts defined) (isOpen : draft.isOpen = true)
    {method : MethodDraft} {later : List Signature}
    (added : later.Perm (method.signature :: defined)) :
    (draft.addMember.openMethod method).Accounts later where
  signatures := by
    have moved : (draft.addMember.openMethod method).signatures.Perm
        (method.signature :: draft.signatures) :=
      perm_middle
    exact (moved.trans (accounts.signatures.cons _)).trans added.symm
  closed isClosed := absurd (isOpen.symm.trans isClosed) (by decide)
  empty isEmpty := by cases draft.addMember_isEmpty.symm.trans isEmpty

theorem signatures_setMethod (distinct : (draft.signatures.map (·.slot)).Nodup)
    {method longer : MethodDraft} {rest : List MethodDraft}
    (current : draft.openMethods = method :: rest) {type : TypeId}
    (grown : longer.signature = method.signature.extend method.slot type) :
    (draft.setMethod longer).signatures = draft.signatures.map (·.extend method.slot type) := by
  have apart : ∀ signature ∈ draft.bodies.map (·.signature) ++ rest.map (·.signature),
      signature.slot ≠ method.slot := by
    intro signature here same
    rw [signatures, current, map_cons, map_append, map_cons, nodup_middle,
      ← map_append] at distinct
    exact (nodup_cons.mp distinct).1 (mem_map.mpr ⟨signature, here, same⟩)
  obtain ⟨inBodies, inRest⟩ := forall_mem_append.mp apart
  rw [signatures, signatures, setMethod, current, tail_cons, map_cons, map_cons, map_append,
    map_cons, Signature.map_extend_of_ne inBodies, Signature.map_extend_of_ne inRest, grown]

theorem Accounts.addParam (accounts : draft.Accounts defined)
    (distinct : (defined.map (·.slot)).Nodup) (isOpen : draft.isOpen = true)
    {method longer : MethodDraft} {rest : List MethodDraft}
    (current : draft.openMethods = method :: rest) {type : TypeId}
    (grown : longer.signature = method.signature.extend method.slot type) :
    (draft.setMethod longer).Accounts (defined.map (·.extend method.slot type)) := by
  have signatures := signatures_setMethod ((accounts.signatures.map _).nodup_iff.mpr distinct)
    current grown
  refine ⟨?_, fun isClosed => absurd (isOpen.symm.trans isClosed) (by decide), fun isEmpty => ?_⟩
  · rw [signatures]
    exact accounts.signatures.map _
  · rw [signatures, accounts.empty isEmpty, map_nil]

theorem outline_renews (draft : TypeDraft) : draft.outline.Renews draft where
  id := rfl
  signatures := by simp [signatures, outline, MethodDraft.outline, MethodDraft.signature,
    Function.comp_def]
  members := rfl
  closed finished isClosed := by simpa [outline] using finished isClosed

theorem renews_outline (draft : TypeDraft) : draft.Renews draft.outline where
  id := rfl
  signatures := (outline_renews draft).signatures.symm
  members := rfl
  closed finished isClosed := by simpa [outline] using finished isClosed

theorem amend_renews {name : String}
    (named : draft.Names name changed) : draft.Renews changed := by
  rcases named with extended | implemented
  · obtain ⟨-, rfl⟩ : _ ∧ { draft with baseName := some name } =
      changed := by simpa [extend] using extended
    exact ⟨rfl, rfl, rfl, fun finished => finished⟩
  · obtain ⟨-, rfl⟩ : _ ∧ { draft with interfaceNames := draft.interfaceNames ++ [name] } = changed := by
      simpa [implement] using implemented
    exact ⟨rfl, rfl, rfl, fun finished => finished⟩

theorem beginBody_renews (owner : BlockOwner) (draft : TypeDraft) :
    draft.Renews (Compile.beginBody owner draft) := by
  unfold Compile.beginBody
  split
  · exact ⟨rfl, rfl, rfl, fun finished => finished⟩
  · rename_i method rest current
    refine ⟨rfl, ?_, rfl, fun finished isClosed => ?_⟩
    · rw [signatures, signatures, current]
      rfl
    · cases current.symm.trans (finished isClosed)
  · exact .refl draft

/-! ### Closing -/

theorem gives_closeMethod (draft : TypeDraft) : Gives draft.closeMethod fun (closed, _) =>
      draft.Renews closed := by
  rw [closeMethod]
  split
  · exact .refl draft
  · rename_i method rest current
    rw [gives_bind]
    refine method.gives_finish.imp fun (body, _) same => ⟨rfl, ?_, rfl, fun finished isClosed => ?_⟩
    · simp [signatures, current, same]
    · cases current.symm.trans (finished isClosed)

theorem gives_finishAll (methods : List MethodDraft) :
    Gives (finishAll methods) fun (bodies, _) => bodies.map (·.signature) = methods.map
    (·.signature) := by
  induction methods with
  | nil => rfl
  | cons method rest ih =>
    rw [finishAll, gives_bind]
    refine method.gives_finish.imp fun (body, _) first => ?_
    rw [gives_bind]
    refine ih.imp fun (bodies, _) others => ?_
    exact cons_eq_cons.mpr ⟨first, others⟩

theorem gives_closeMethods (draft : TypeDraft) :
    Gives draft.closeMethods fun (closed, _) => draft.Renews closed ∧ closed.openMethods = [] := by
  rw [closeMethods, gives_bind]
  refine (gives_finishAll _).imp fun (bodies, _) same => ⟨⟨rfl, ?_, rfl, fun _ _ => rfl⟩, rfl⟩
  simp [signatures, same]

theorem gives_resolveBase (id : TypeId) (namespaces : List String) (table : SymbolTable)
    (name : Option String) : Gives (resolveBase id namespaces table name) fun (later, _) =>
      table.Derives id later := by
  rw [resolveBase.eq_def]
  split
  · exact .refl id table
  · split
    · exact .refl id table
    · refine gives_bind_ok fun type _ => ?_
      split
      · exact .refl id table
      · rw [gives_bind]
        refine gives_update.imp fun later updated => ?_
        exact derives_modify updated fun _ => ⟨_, _, rfl⟩

theorem gives_resolveInterfaces (id : TypeId) (namespaces : List String) (table : SymbolTable)
    (names : List String) :
    Gives (resolveInterfaces id namespaces table names) fun (later, _) => table.Derives id later := by
  induction names generalizing table with
  | nil => exact .refl id table
  | cons name rest ih =>
    rw [resolveInterfaces]
    split
    · rw [gives_bind]
      exact ih table
    · rename_i interface _
      refine gives_bind_ok fun type _ => ?_
      split
      · rw [gives_bind]
        refine gives_update.imp fun next updated => (ih next).imp fun (later, _) rest => ?_
        refine SymbolTable.Derives.trans (derives_modify updated fun type => ?_) rest
        rw [addInterface]
        split <;> exact ⟨_, _, rfl⟩
      · rw [gives_bind]
        exact ih table

theorem gives_close (draft : TypeDraft) (table : SymbolTable) (namespaces : List String) :
    Gives (draft.close table namespaces) fun (closed, later, _) =>
      draft.Renews closed ∧ closed.isOpen = false ∧ table.Derives draft.id later := by
  rw [close]
  split
  · rename_i isClosed
    exact ⟨.refl draft, by simpa using isClosed, .refl _ _⟩
  · rw [gives_bind]
    refine draft.gives_closeMethods.imp fun (closed, _) ⟨renews, finished⟩ => ?_
    rw [gives_bind]
    refine (gives_resolveBase _ _ _ _).imp fun (next, _) based => ?_
    rw [gives_bind]
    refine (gives_resolveInterfaces _ _ _ _).imp fun (later, _) interfaces => ?_
    exact ⟨⟨renews.id, renews.signatures, renews.members, fun _ _ => finished⟩, rfl,
      based.trans interfaces⟩

end TypeDraft

/-! ## Sessions -/

/-- Every definition of the program has one draft, which accounts for it, and the program starts at
a method that is marked as its start. -/
structure Session.Accounted (session : Session) : Prop where
  distinct : (session.drafts.map (·.id)).Nodup
  accounts : ∀ draft ∈ session.drafts, ∃ type, session.table.types[draft.id]? = some type ∧
    draft.Accounts (type.signatures draft.id)
  declared : ∀ (id : TypeId) (type : TypeDef), session.table.types[id]? = some type →
    type.origin = .declared → id ∈ session.drafts.map (·.id)
  entryPoint : ∀ ref ∈ session.entryPoint, session.table.StartsAt ref ∧
    ref.owner ∈ session.drafts.map (·.id)

namespace Session

variable {session later : Session} {draft changed : TypeDraft} {index : Nat}

theorem gives_draft : Gives (session.draft index) fun draft =>
      session.drafts[index]? = some draft := by
  rw [draft]
  split
  · assumption
  · exact gives_error

theorem getElem?_setDraft {index place : Nat} {draft changed other : TypeDraft}
    (here : session.drafts[index]? = some draft)
    (there : (session.setDraft index changed).drafts[place]? = some other) :
    index = place ∧ changed = other ∨ index ≠ place ∧ session.drafts[place]? = some other := by
  have inRange := (List.getElem?_eq_some_iff.mp here).1
  by_cases same : index = place
  · exact .inl ⟨same, by simpa [setDraft, ← same, inRange] using there⟩
  · exact .inr ⟨same, by simpa [setDraft, same] using there⟩

/-- A draft that keeps its definition leaves the definitions of the drafts as they are. -/
theorem ids_setDraft (here : session.drafts[index]? = some draft)
    (id : changed.id = draft.id) : (session.setDraft index changed).drafts.map (·.id) =
      session.drafts.map (·.id) := by
  obtain ⟨inRange, rfl⟩ := List.getElem?_eq_some_iff.mp here
  rw [setDraft, map_set, id, ← map_set, set_getElem_self]

theorem mem_ids_setDraft (here : session.drafts[index]? = some draft)
    (id : changed.id = draft.id) : draft.id ∈ (session.setDraft index changed).drafts.map (·.id) := by
  rw [ids_setDraft here id]
  exact mem_map_of_mem (mem_of_getElem? here)

namespace Accounted

variable (accounted : session.Accounted) {table : SymbolTable} {index : Nat} {draft : TypeDraft}

include accounted

theorem congr (table : later.table = session.table) (drafts : later.drafts = session.drafts)
    (entryPoint : later.entryPoint = session.entryPoint) : later.Accounted := by
  obtain ⟨distinct, accounts, declared, starts⟩ := accounted
  constructor <;> simpa only [table, drafts, entryPoint]

theorem starting {ref : MemberRef} (starts : session.table.StartsAt ref)
    (inside : ref.owner ∈ session.drafts.map (·.id)) :
    { session with entryPoint := some ref }.Accounted :=
  { accounted with
    entryPoint := by
      rintro _ ⟨⟩
      exact ⟨starts, inside⟩ }

theorem place_eq {index place : Nat} {draft other : TypeDraft}
    (here : session.drafts[index]? = some draft) (there : session.drafts[place]? = some other)
    (same : draft.id = other.id) : index = place := by
  have inRange : index < (session.drafts.map (·.id)).length := by
    rw [length_map]
    exact (List.getElem?_eq_some_iff.mp here).1
  refine (getElem?_inj inRange accounted.distinct).mp ?_
  rw [getElem?_map, getElem?_map, here, there, Option.map_some, Option.map_some, same]

/-- One draft is changed together with its definition. The others belong to other definitions. -/
theorem replace (here : session.drafts[index]? = some draft) (changed : TypeDraft)
    (id : changed.id = draft.id) {revised : List Signature → List Signature → Prop}
    (revises : session.table.Revises draft.id revised table)
    (accounts : ∀ (type : TypeDef) (after : List Signature),
      draft.Accounts (type.signatures draft.id) → revised (type.signatures draft.id) after →
        changed.Accounts after) :
    { session.setDraft index changed with table := table }.Accounted := by
  have ids := ids_setDraft here id
  refine ⟨?_, fun other inside => ?_, fun other type found origin => ?_, fun ref isEntry => ?_⟩
  · show ((session.setDraft index changed).drafts.map (·.id)).Nodup
    rw [ids]
    exact accounted.distinct
  · -- Either this is the changed draft, or a draft whose definition was not touched.
    obtain ⟨place, there⟩ := List.mem_iff_getElem?.mp inside
    rcases getElem?_setDraft here there with ⟨-, rfl⟩ | ⟨apart, there⟩
    · obtain ⟨type, found, before⟩ := accounted.accounts draft (List.mem_of_getElem? here)
      obtain ⟨later, foundLater, changes⟩ := revises.this type found
      rw [id]
      exact ⟨later, foundLater, accounts type _ before changes⟩
    · obtain ⟨type, found, before⟩ := accounted.accounts other (List.mem_of_getElem? there)
      have different : draft.id ≠ other.id := fun same => apart (accounted.place_eq here there same)
      exact ⟨type, (revises.others _ different).trans found, before⟩
  · show other ∈ (session.setDraft index changed).drafts.map (·.id)
    rw [ids]
    by_cases same : draft.id = other
    · rw [← same]
      exact List.mem_map_of_mem (List.mem_of_getElem? here)
    · exact accounted.declared other type ((revises.others _ same).symm.trans found) origin
  · show _ ∧ _ ∈ (session.setDraft index changed).drafts.map (·.id)
    rw [ids]
    obtain ⟨starts, inside⟩ := accounted.entryPoint ref isEntry
    exact ⟨revises.fills.startsAt starts, inside⟩

theorem setDraft (here : session.drafts[index]? = some draft)
    (renews : draft.Renews changed) : (session.setDraft index changed).Accounted :=
  accounted.replace here changed renews.id (.refl _ _) fun _ _ before same =>
    same ▸ renews.accounts before

theorem gives_modifyType {change : TypeDraft → TypeDraft}
    (renews : ∀ draft : TypeDraft, draft.Renews (change draft)) :
    Gives (session.modifyType change) Accounted := by
  refine gives_of_modifyType (fun _ => accounted) fun index draft current => ?_
  exact accounted.setDraft (current?_eq_some current).2.1 (renews _)

theorem of_outline (same : later.outline = session.outline) : later.Accounted := by
  have table : later.outline.table = session.outline.table := congrArg Session.table same
  have entryPoint : later.outline.entryPoint = session.outline.entryPoint :=
    congrArg Session.entryPoint same
  have drafts : later.drafts.map (·.outline) = session.drafts.map (·.outline) :=
    congrArg Session.drafts same
  have ids : later.drafts.map (·.id) = session.drafts.map (·.id) := by
    have mapped := congrArg (map (·.id)) drafts
    rwa [map_map, map_map] at mapped
  refine ⟨ids ▸ accounted.distinct, fun draft here => ?_, ?_, ?_⟩
  · -- The draft from before and this one have their outline in common, and each accounts for as much as that.
    have inOutline : draft.outline ∈ session.drafts.map (·.outline) := drafts ▸ mem_map_of_mem here
    obtain ⟨before, there, alike⟩ := mem_map.mp inOutline
    obtain ⟨type, found, accounts⟩ := accounted.accounts before there
    have sameId : before.outline.id = draft.outline.id := congrArg TypeDraft.id alike
    have inBetween := before.renews_outline.accounts accounts
    rw [alike, show before.id = draft.id from sameId] at inBetween
    refine ⟨type, ?_, draft.outline_renews.accounts inBetween⟩
    show later.outline.table.types[draft.outline.id]? = some type
    rw [table, ← sameId]
    exact found
  · show ∀ (id : TypeId) (type : TypeDef), later.outline.table.types[id]? = some type → _
    rw [table, ids]
    exact accounted.declared
  · show ∀ ref ∈ later.outline.entryPoint, later.outline.table.StartsAt ref ∧ _
    rw [table, entryPoint, ids]
    exact accounted.entryPoint

/-- Definitions are added at the end, and a draft for each that is declared. -/
theorem append {added : List TypeDef} (types : table.types = session.table.types ++ added)
    (fresh : List TypeDraft) (distinct : (fresh.map (·.id)).Nodup)
    (accounts : ∀ draft ∈ fresh, session.table.types.length ≤ draft.id ∧
      ∃ type, table.types[draft.id]? = some type ∧ draft.Accounts (type.signatures draft.id))
    (declared : ∀ (id : TypeId) (type : TypeDef), session.table.types.length ≤ id →
      table.types[id]? = some type → type.origin = .declared → id ∈ fresh.map (·.id)) :
    { session with table := table, drafts := session.drafts ++ fresh }.Accounted := by
  have agree : ∀ {id : TypeId} {type : TypeDef}, session.table.types[id]? = some type →
      table.types[id]? = some type := by
    intro id type found
    rw [types, List.getElem?_append_left (List.getElem?_eq_some_iff.mp found).1, found]
  refine ⟨?_, fun draft here => ?_, fun id type found origin => ?_, fun ref isEntry => ?_⟩
  · -- The definition of an old draft was in the table, that of a fresh one is behind its end.
    rw [List.map_append]
    refine List.nodup_append.mpr ⟨accounted.distinct, distinct, ?_⟩
    rintro _ isOld _ isFresh rfl
    obtain ⟨draft, inside, rfl⟩ := List.mem_map.mp isOld
    obtain ⟨other, here, same⟩ := List.mem_map.mp isFresh
    obtain ⟨type, found, -⟩ := accounted.accounts draft inside
    have isNew : session.table.types.length ≤ draft.id := same ▸ (accounts other here).1
    exact absurd (List.getElem?_eq_some_iff.mp found).1 (Nat.not_lt.mpr isNew)
  · rcases List.mem_append.mp here with isOld | isFresh
    · obtain ⟨type, found, before⟩ := accounted.accounts draft isOld
      exact ⟨type, agree found, before⟩
    · exact (accounts draft isFresh).2
  · rw [List.map_append, List.mem_append]
    by_cases isOld : id < session.table.types.length
    · have before : session.table.types[id]? = some type := by
        rw [← List.getElem?_append_left isOld, ← types]
        exact found
      exact .inl (accounted.declared id type before origin)
    · exact .inr (declared id type (Nat.le_of_not_lt isOld) found origin)
  · obtain ⟨⟨type, found, method, here, marked⟩, inside⟩ := accounted.entryPoint ref isEntry
    refine ⟨⟨type, agree found, method, here, marked⟩, ?_⟩
    rw [List.map_append]
    exact List.mem_append_left _ inside

theorem define {type : TypeDef} (bare : type.methods = [] ∧ type.ctors = []) :
    Gives (session.table.define type) fun (id, table) =>
      ({ session with table := table, drafts := session.drafts ++ [{ id := id }] } :
        Session).Accounted := by
  rw [SymbolTable.define]
  split
  · exact gives_error
  · refine accounted.append rfl _ (nodup_singleton _) (fun draft here => ?_)
      fun id other isNew found _ => ?_
    · obtain rfl := mem_singleton.mp here
      refine ⟨le_rfl, type, getElem?_concat_length, ?_, fun _ => rfl, fun _ => rfl⟩
      rw [TypeDef.signatures_eq_nil.mpr bare]
      exact .nil
    · have inRange := (List.getElem?_eq_some_iff.mp found).1
      rw [length_append, length_singleton] at inRange
      have isNext : id = session.table.types.length := Nat.le_antisymm (Nat.le_of_lt_succ inRange) isNew
      simp [isNext]

theorem includeModule {image : ModuleImage} {ids : List TypeId}
    (registered : image.register session.table = .ok (ids, table)) :
    { session with table := table }.Accounted := by
  obtain ⟨added, types, resolves⟩ := (ModuleImage.installed_of_register registered).types
  have none : ∀ (id : TypeId) (type : TypeDef), session.table.types.length ≤ id →
      table.types[id]? = some type → type.origin = .declared → id ∈ ([] : List TypeDraft).map (·.id) := by
    intro id type isNew found origin
    rw [types, getElem?_append_right isNew] at found
    obtain ⟨image, -, means⟩ := exists_mem_of_forall₂ resolves (mem_of_getElem? found)
    cases means.origin.symm.trans origin
  exact (accounted.append types [] nodup_nil (forall_mem_nil _) none).congr rfl
    (append_nil _).symm rfl

theorem addMethod (here : session.drafts[index]? = some draft)
    (isOpen : draft.isOpen = true) {method : MethodDraft}
    (revises : session.table.Revises draft.id
      (fun before after => after.Perm (method.signature :: before)) table) :
    { session.setDraft index (draft.addMember.openMethod method) with table := table }.Accounted := by
  refine accounted.replace here (draft.addMember.openMethod method) rfl revises
      fun _ _ before added => ?_
  exact before.addMethod isOpen added

theorem gives_openMethod (name : String) (result : TypeId) (kind : FuncKind)
    (visibility : Visibility) (attrs : MethodAttrs) :
    Gives (session.openMethod name result kind visibility attrs) fun (_, later) =>
      later.Accounted := by
  refine gives_of_openMethod fun index draft _ isStatic slot table current _ _ added => ?_
  obtain ⟨-, here, isOpen⟩ := current?_eq_some current
  obtain ⟨revises, marks⟩ := (gives_addFunction _ _ _ _ _ _ _).of_ok added
  -- Whether the method is static does not matter for its signature.
  generalize isMethod : ({ slot := slot, isStatic := _ } : MethodDraft) = method
  have signature : method.signature = ⟨slot, []⟩ := isMethod ▸ rfl
  rw [← signature] at revises
  have opened := accounted.addMethod here isOpen revises
  -- The entry point is the new method, if it is marked as such.
  cases slot with
  | ctor _ => exact opened.congr rfl rfl rfl
  | method ref =>
    obtain ⟨-, owner, marks⟩ := marks
    by_cases marked : attrs.entryPoint = true
    · have starts := startsAt_iff.mpr ⟨_, marks, marked⟩
      refine (opened.starting starts ?_).congr rfl rfl (by simp [entryAfter, marked])
      rw [owner]
      exact mem_ids_setDraft here rfl
    · refine opened.congr rfl rfl ?_
      simp [entryAfter, marked, Session.setDraft]

theorem owner_eq (here : session.drafts[index]? = some draft)
    {method : MethodDraft} (isOpen : method ∈ draft.openMethods) : method.slot.owner = draft.id := by
  obtain ⟨definition, -, accounts⟩ := accounted.accounts draft (mem_of_getElem? here)
  have inside : method.signature ∈ draft.signatures := mem_append_right _ (mem_map_of_mem isOpen)
  exact definition.owner_of_mem_signatures (accounts.signatures.subset inside)

theorem gives_declareParam (name : String) (type : TypeId) :
    Gives (session.declareParam name type) fun (_, later) => later.Accounted := by
  refine gives_of_declareParam fun index draft method rest _ longer table current openMethods
    declared added => ?_
  obtain ⟨-, here, isOpen⟩ := current?_eq_some current
  have grows : Gives (method.declareParam name type) fun outcome =>
      outcome.2.signature = method.signature.extend method.slot type := by
    rw [MethodDraft.declareParam]
    split
    · exact gives_error
    · simp [MethodDraft.signature, Signature.extend]
  have revises := (gives_addParam method.slot type).of_ok added
  -- The current method is one of those that its type accounts for, so it is a method of this type.
  rw [accounted.owner_eq here (openMethods ▸ mem_cons_self)] at revises
  refine accounted.replace here (draft.setMethod longer) rfl revises fun definition _ before same =>
    same ▸ ?_
  exact before.addParam (TypeDef.slots_signatures ▸ TypeDef.nodup_slots) isOpen openMethods
    (grows.of_ok declared)

theorem gives_declareField (name : String) (type : TypeId) (isFinal : Bool) :
    Gives (session.declareField name type isFinal) fun (_, later) => later.Accounted := by
  refine gives_of_declareField fun index draft field ref table current added => ?_
  obtain ⟨-, here, -⟩ := current?_eq_some current
  have revises := (gives_addField _).of_ok added
  refine accounted.replace here draft.addMember rfl revises fun _ _ before same => same ▸ ?_
  refine ⟨before.signatures, before.closed, fun isEmpty => ?_⟩
  cases draft.addMember_isEmpty.symm.trans isEmpty

theorem gives_closeMethod : Gives session.closeMethod fun (later, _) => later.Accounted := by
  refine gives_of_closeMethod (fun _ => accounted) fun index draft current => ?_
  exact draft.gives_closeMethod.imp fun (closed, _) renews =>
    accounted.setDraft (current?_eq_some current).2.1 renews

theorem gives_declareType (name space : String) (kind : ClassKind) (visibility : Visibility) :
    Gives (session.declareType name space kind visibility) fun (_, later) => later.Accounted := by
  rw [Session.declareType, gives_bind]
  exact (accounted.define ⟨rfl, rfl⟩).imp fun _ declared => declared.congr rfl rfl rfl

end Accounted

/-! ### Closing -/

/-- Types are closed: each draft was in its place before, with the same members, and a closed one
stays closed. -/
structure Closes (session later : Session) : Prop where
  accounted : session.Accounted → later.Accounted
  table : session.table.Fills later.table
  fields : later.table.types.map (·.fields) = session.table.types.map (·.fields)
  ids : later.drafts.map (·.id) = session.drafts.map (·.id)
  defaultType : later.defaultType = session.defaultType
  drafts : ∀ (index : Nat) (closed : TypeDraft), later.drafts[index]? = some closed →
    ∃ draft, session.drafts[index]? = some draft ∧ closed.members = draft.members ∧
      (draft.isOpen = false → closed.isOpen = false)

theorem Closes.refl (session : Session) : session.Closes session :=
  ⟨fun accounted => accounted, .refl _, rfl, rfl, rfl, fun _ draft here =>
    ⟨draft, here, rfl, fun isClosed => isClosed⟩⟩

theorem Closes.trans {last : Session} (first : session.Closes later) (second : later.Closes last) :
    session.Closes last := by
  refine ⟨fun accounted => second.accounted (first.accounted accounted),
    first.table.trans second.table, second.fields.trans first.fields, second.ids.trans first.ids,
      second.defaultType.trans first.defaultType,
    fun index closed here => ?_⟩
  obtain ⟨between, there, members, stays⟩ := second.drafts index closed here
  obtain ⟨draft, before, membersBefore, staysBefore⟩ := first.drafts index between there
  exact ⟨draft, before, members.trans membersBefore, fun isClosed => stays (staysBefore isClosed)⟩

theorem closes_replace {table : SymbolTable}
    (here : session.drafts[index]? = some draft) (id : changed.id = draft.id)
    (members : changed.members = draft.members)
    (stays : draft.isOpen = false → changed.isOpen = false) (fills : session.table.Fills table)
    (fields : table.types.map (·.fields) = session.table.types.map (·.fields))
    (accounted : session.Accounted → { session.setDraft index changed with table := table }.Accounted) :
    session.Closes { session.setDraft index changed with table := table } := by
  refine ⟨accounted, fills, fields, ids_setDraft here id, rfl, fun place closed there => ?_⟩
  rcases getElem?_setDraft here there with ⟨rfl, rfl⟩ | ⟨-, there⟩
  · exact ⟨draft, here, members, stays⟩
  · exact ⟨closed, there, rfl, fun isClosed => isClosed⟩

theorem gives_closeAt (session : Session) (index : Nat) (namespaces : List String) :
    Gives (session.closeAt index namespaces) fun (later, _) =>
      session.Closes later ∧ ∀ draft, later.drafts[index]? = some draft → draft.isOpen = false := by
  rw [closeAt, gives_bind]
  refine gives_draft.imp fun draft here => ?_
  rw [gives_bind]
  refine (draft.gives_close session.table namespaces).imp fun (closed, table, _) ⟨renews, isClosed,
    derives⟩ => ?_
  have stays : draft.isOpen = false → closed.isOpen = false := fun _ => isClosed
  refine ⟨closes_replace here renews.id renews.members stays derives.revises.fills derives.fields
    fun accounted => ?_, fun final there => ?_⟩
  · exact accounted.replace here closed renews.id derives.revises fun _ _ before same =>
      same ▸ renews.accounts before
  · rcases getElem?_setDraft here there with ⟨-, rfl⟩ | ⟨apart, -⟩
    · exact isClosed
    · exact absurd rfl apart

theorem gives_closeType (namespaces : List String) (accounted : session.Accounted) :
    Gives (session.closeType namespaces) fun (later, _) => later.Accounted := by
  rw [closeType]
  split
  · exact accounted
  · rename_i index rest _
    have outer : { session with openTypes := rest }.Accounted := accounted.congr rfl rfl rfl
    exact (Session.gives_closeAt _ index namespaces).imp fun _ closes => closes.1.accounted outer

theorem Acts.accounted {including : Bool} (acts : session.Acts including later)
    (accounted : session.Accounted) : later.Accounted := by
  cases acts with
  | code same => exact accounted.of_outline same
  | setConstant | setOutput | addScriptFunction => exact accounted.congr rfl rfl rfl
  | includeModule _ registered => exact accounted.includeModule registered
  | amend here named => exact accounted.setDraft here (TypeDraft.amend_renews named)
  | declareType declared => exact (accounted.gives_declareType _ _ _ _).of_ok declared
  | announce noted =>
    have renews : ∀ draft : TypeDraft, draft.Renews { draft with initializing := true } :=
      fun _ => ⟨rfl, rfl, rfl, fun finished => finished⟩
    exact (accounted.gives_modifyType renews).of_ok noted
  | beginBody _ begun =>
    exact (accounted.gives_modifyType (TypeDraft.beginBody_renews _)).of_ok begun
  | openMethod opened => exact (accounted.gives_openMethod _ _ _ _ _).of_ok opened
  | declareParam declared => exact (accounted.gives_declareParam _ _).of_ok declared
  | declareField declared => exact (accounted.gives_declareField _ _ _).of_ok declared
  | closeMethod closed => exact accounted.gives_closeMethod.of_ok closed
  | closeType closed => exact (gives_closeType _ accounted).of_ok closed

/-! ## New sessions -/

theorem Accounted.openDefault (accounted : session.Accounted) (empty : session.drafts = []) :
    session.openDefault.Accounted := by
  rw [Session.openDefault]
  split
  · exact accounted
  · rename_i id table defined
    refine ((accounted.define ⟨rfl, rfl⟩).of_ok defined).congr rfl ?_ rfl
    rw [empty]
    rfl

theorem Accounted.gives_openMain (accounted : session.Accounted)
    (isOpen : ∀ draft ∈ session.drafts, draft.isOpen = true) : Gives session.openMain Accounted := by
  rw [openMain]
  split
  · exact accounted
  · rename_i draft rest drafts
    have here : session.drafts[0]? = some draft := by rw [drafts, getElem?_cons_zero]
    rw [gives_bind]
    refine (gives_addMethod mainDef).imp fun (ref, table) ⟨revises, owner, marks⟩ => ?_
    let main : MethodDraft := { slot := .method ref, isStatic := true, paramsOpen := false }
    have opened : { session.setDraft 0 (draft.addMember.openMethod main) with table := table }.Accounted :=
      accounted.addMethod here (isOpen draft (mem_of_getElem? here)) revises
    refine (opened.starting (startsAt_iff.mpr ⟨_, marks, rfl⟩) ?_).congr rfl ?_ rfl
    · rw [owner]
      exact mem_ids_setDraft here rfl
    · show _ = session.drafts.set 0 _
      rw [drafts, set_cons_zero]

/-- A new session has a draft for the implicit class, if there is one. -/
theorem gives_create (options : BuildOptions) (autoName : Bool) :
    Gives (create options autoName) Accounted := by
  let start := blank options autoName
  have accounted : start.Accounted := by
    refine ⟨nodup_nil, forall_mem_nil _, fun id type found origin => ?_, fun _ => nofun⟩
    have host : ∀ type ∈ Host.table.types, type.origin ≠ .declared := by decide
    exact absurd origin (host type (mem_of_getElem? found))
  rw [create]
  split
  · exact accounted.openDefault rfl
  · refine (accounted.openDefault rfl).gives_openMain fun draft here => ?_
    rw [openDefault] at here
    split at here
    · cases here
    · obtain rfl := mem_singleton.mp here
      rfl
  · exact accounted

end Session

end OnePass
