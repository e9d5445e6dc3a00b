import OnePass.Proofs.Bodies.Complete
import OnePass.Proofs.Names

/-! # Closed types are sealed

A declared type is reached in several ways: by the stack of open types, by the position of the
implicit class, by its id in the symbol table and by the methods that are open in it. Only the first
two lead to a change, and only while the type is open.

* `Session.Moves` — what an action can do to the declared types, said once for all actions.
* `Session.Seals` — the closed types are as they were.

The main statement is `closed_types_are_sealed`: from the state in which a type is closed up to the
module at the end of the build, neither the type nor its definition changes. -/

namespace OnePass

open List SymbolTable

theorem TypeDraft.eq_of_outline {draft other : TypeDraft} (finished : draft.openMethods = [])
    (alike : other.outline = draft.outline) : other = draft := by
  have methods : other.openMethods = [] := by
    have mapped : other.openMethods.map (·.outline) = draft.openMethods.map (·.outline) :=
      congrArg TypeDraft.openMethods alike
    rwa [finished, map_nil, map_eq_nil_iff] at mapped
  cases draft
  cases other
  cases finished
  cases methods
  exact alike

theorem TypeDraft.closeMethod_isOpen (draft : TypeDraft) :
    Gives draft.closeMethod fun (later, _) => later.isOpen = draft.isOpen := by
  rw [closeMethod]
  split
  · rfl
  · exact gives_bind_ok fun _ _ => rfl

theorem Compile.beginBody_isOpen (owner : BlockOwner) (draft : TypeDraft) :
    (beginBody owner draft).isOpen = draft.isOpen := by
  unfold beginBody
  split <;> rfl

theorem TypeDraft.close_of_closed {draft : TypeDraft} (isClosed : draft.isOpen = false)
    (table : SymbolTable) (namespaces : List String) :
    draft.close table namespaces = .ok (draft, table, []) := by
  simp [close, isClosed]

/-! ## What an action can do -/

/-- What an action can do to the declared types and their definitions. -/
inductive Session.Moves (including : Bool) (session later : Session) : Prop
  /-- code is emitted -/
  | code (same : later.outline = session.outline)
  /-- an open type changes, and no definition but its own; the innermost open type may close, others
  stay open -/
  | change {place : Nat} {draft changed : TypeDraft} (here : session.drafts[place]? = some draft)
      (isOpen : draft.isOpen = true) (drafts : later.drafts = session.drafts.set place changed)
      (id : changed.id = draft.id)
      (empty : changed.isEmpty = true → draft.isEmpty = true ∧
        later.table.types[draft.id]?.map (·.fields) = session.table.types[draft.id]?.map (·.fields))
      (others : ∀ other, draft.id ≠ other → later.table.types[other]? = session.table.types[other]?)
      (fills : session.table.Fills later.table)
      (sameDefault : later.defaultType = session.defaultType)
      (openTypes : session.openTypes = place :: later.openTypes ∨
        changed.isOpen = true ∧ later.openTypes = session.openTypes)
  /-- types and definitions are added -/
  | add (drafts : session.drafts <+: later.drafts) (types : session.table.types <+: later.table.types)
      (continues : session.table.Continues including later.table)
      (declared : ∀ draft ∈ later.drafts, draft ∈ session.drafts ∨
        ∃ type, later.table.types[draft.id]? = some type ∧ type.origin = .declared ∧ type.fields = [])
      (sameDefault : later.defaultType = session.defaultType)
      (openTypes : ∀ place ∈ later.openTypes, place ∈ session.openTypes ∨ session.drafts.length ≤ place)

namespace Session

variable {including : Bool} {session later : Session}

theorem exists_place_of_currentType {type : TypeDraft}
    (current : session.currentType? = .ok (some type)) : ∃ place :
    Nat, session.drafts[place]? = some type ∧ type.isOpen = true := by
  obtain ⟨index, found⟩ := currentType?_eq_some current
  exact ⟨index, (current?_eq_some found).2⟩

/-- Where code was emitted, the drafts have the outlines that they had. -/
theorem getElem?_of_outline (same : later.outline = session.outline) {place : Nat}
    {draft : TypeDraft} (here : session.drafts[place]? = some draft) :
    ∃ other, later.drafts[place]? = some other ∧ other.outline = draft.outline := by
  have drafts : later.drafts.map (·.outline) = session.drafts.map (·.outline) :=
    congrArg Session.drafts same
  refine Option.map_eq_some_iff.mp ?_
  rw [← getElem?_map, drafts, getElem?_map, here, Option.map_some]

theorem Moves.nothing (drafts : later.drafts = session.drafts) (table : later.table = session.table)
    (sameDefault : later.defaultType = session.defaultType)
    (openTypes : later.openTypes ⊆ session.openTypes) : session.Moves including later :=
  .add (drafts ▸ List.prefix_rfl) (table ▸ List.prefix_rfl) (table ▸ .refl _)
    (fun _ here => .inl (drafts ▸ here)) sameDefault fun _ here => .inl (openTypes here)

theorem moves_modifyType {change : TypeDraft → TypeDraft}
    (renews : ∀ draft : TypeDraft, draft.Renews (change draft))
    (stays : ∀ draft, (change draft).isOpen = draft.isOpen) :
    Gives (session.modifyType change) fun later => session.Moves including later := by
  refine gives_of_modifyType (fun _ => .nothing rfl rfl rfl (List.Subset.refl _))
    fun index draft current => ?_
  obtain ⟨-, here, isOpen⟩ := current?_eq_some current
  refine .change here isOpen rfl (renews _).id (fun isEmpty => ?_) (fun _ _ => rfl) (.refl _) rfl
    (.inr ⟨(stays _).trans isOpen, rfl⟩)
  exact ⟨(renews _).isEmpty.symm.trans isEmpty, rfl⟩

theorem moves_amend {index : Nat} {draft changed : TypeDraft} {name : String}
    (here : session.drafts[index]? = some draft)
    (named : draft.Names name changed) :
    session.Moves including (session.setDraft index changed) := by
  obtain ⟨isOpen, stays, -⟩ := TypeDraft.methods_of_named named
  have renews := TypeDraft.amend_renews named
  refine .change here isOpen rfl renews.id (fun isEmpty => ?_) (fun _ _ => rfl) (.refl _) rfl
    (.inr ⟨stays.trans isOpen, rfl⟩)
  exact ⟨renews.isEmpty.symm.trans isEmpty, rfl⟩

theorem moves_declareType (name space : String) (kind : ClassKind) (visibility : Visibility) :
    Gives (session.declareType name space kind visibility) fun (_, later) =>
      session.Moves including later := by
  rw [declareType, gives_bind]
  refine ((gives_self _).and (continues_define including ⟨rfl, .inl rfl⟩)).imp ?_
  rintro ⟨id, table⟩ ⟨defined, continues⟩
  rw [define] at defined
  split at defined
  · cases defined
  · cases defined
    -- The draft is put behind the others, and so is the definition.
    refine .add (prefix_append _ _) (prefix_append _ _) continues (fun draft here => ?_) rfl
      fun place here => ?_
    · refine (mem_append.mp here).imp_right fun isNew => ?_
      obtain rfl := mem_singleton.mp isNew
      exact ⟨_, getElem?_concat_length, rfl, rfl⟩
    · rcases mem_cons.mp here with rfl | earlier
      · exact .inr le_rfl
      · exact .inl earlier

theorem moves_includeModule {image : ModuleImage} {ids : List TypeId} {table : SymbolTable}
    (registered : image.register session.table = .ok (ids, table)) :
    session.Moves true { session with table := table } := by
  obtain ⟨added, types, -⟩ := (ModuleImage.installed_of_register registered).types
  exact .add prefix_rfl (types ▸ prefix_append _ _) (continues_register registered)
    (fun _ => .inl) rfl fun _ => .inl

theorem moves_openMethod (name : String) (result : TypeId) (kind : FuncKind)
    (visibility : Visibility) (attrs : MethodAttrs) :
    Gives (session.openMethod name result kind visibility attrs) fun (_, later) =>
      session.Moves including later := by
  refine gives_of_openMethod fun index draft _ _ slot table current _ _ added => ?_
  obtain ⟨-, here, isOpen⟩ := current?_eq_some current
  obtain ⟨revises, -⟩ := (gives_addFunction _ _ _ _ _ _ _).of_ok added
  refine .change here isOpen rfl rfl (fun isEmpty => ?_) revises.others revises.fills rfl
    (.inr ⟨isOpen, rfl⟩)
  cases draft.addMember_isEmpty.symm.trans isEmpty

theorem Accounted.moves_declareParam (accounted : session.Accounted) (name : String)
    (type : TypeId) : Gives (session.declareParam name type) fun (_, later) =>
      session.Moves including later := by
  refine gives_of_declareParam fun index draft method rest _ longer table current
    openMethods _ added => ?_
  obtain ⟨-, here, isOpen⟩ := current?_eq_some current
  have revises := (gives_addParam method.slot type).of_ok added
  -- The definition that gets the parameter is that of the owner of the method, which is the current
  -- type.
  have inside : method ∈ draft.openMethods := openMethods ▸ mem_cons_self
  rw [accounted.owner_eq here inside] at revises
  obtain ⟨definition, -, accounts⟩ := accounted.accounts draft (mem_of_getElem? here)
  refine .change here isOpen rfl rfl (fun isEmpty => ?_) revises.others revises.fills rfl
    (.inr ⟨isOpen, rfl⟩)
  cases (accounts.isEmpty_eq_false inside).symm.trans isEmpty

theorem moves_declareField (name : String) (type : TypeId) (isFinal : Bool) :
    Gives (session.declareField name type isFinal) fun (_, later) =>
      session.Moves including later := by
  refine gives_of_declareField fun index draft field ref table current added => ?_
  obtain ⟨-, here, isOpen⟩ := current?_eq_some current
  have revises := (gives_addField _).of_ok added
  refine .change here isOpen rfl rfl (fun isEmpty => ?_) revises.others revises.fills rfl
    (.inr ⟨isOpen, rfl⟩)
  cases draft.addMember_isEmpty.symm.trans isEmpty

theorem moves_closeMethod : Gives session.closeMethod fun (later, _) =>
      session.Moves including later := by
  refine gives_of_closeMethod (fun _ => .nothing rfl rfl rfl (List.Subset.refl _))
    fun index draft current => ?_
  obtain ⟨-, here, isOpen⟩ := current?_eq_some current
  refine (draft.closeMethod_isOpen.and draft.gives_closeMethod).imp ?_
  rintro ⟨closed, _⟩ ⟨stays, renews⟩
  refine .change here isOpen rfl renews.id (fun isEmpty => ?_) (fun _ _ => rfl) (.refl _) rfl
    (.inr ⟨stays.trans isOpen, rfl⟩)
  exact ⟨renews.isEmpty.symm.trans isEmpty, rfl⟩

theorem moves_closeType (namespaces : List String) :
    Gives (session.closeType namespaces) fun (later, _) => session.Moves including later := by
  rw [closeType]
  split
  · exact .nothing rfl rfl rfl (List.Subset.refl _)
  · rename_i index rest openTypes
    have inner : rest ⊆ session.openTypes := openTypes ▸ subset_cons_self index rest
    rw [closeAt, gives_bind]
    refine gives_draft.imp fun draft here => ?_
    cases isOpen : draft.isOpen with
    | false =>
      -- A closed type on the stack is only taken from the stack.
      rw [TypeDraft.close_of_closed isOpen, gives_bind]
      obtain ⟨inRange, rfl⟩ := List.getElem?_eq_some_iff.mp here
      exact .nothing (set_getElem_self inRange) rfl rfl inner
    | true =>
      rw [gives_bind]
      refine (draft.gives_close _ namespaces).imp ?_
      rintro ⟨closed, table, _⟩ ⟨renews, _, derives⟩
      refine .change here isOpen rfl renews.id
        (fun isEmpty => ⟨renews.isEmpty.symm.trans isEmpty, ?_⟩) derives.revises.others
          derives.revises.fills rfl (.inl openTypes)
      rw [← getElem?_map, derives.fields, getElem?_map]

theorem Acts.moves (acts : session.Acts including later) (accounted : session.Accounted) :
    session.Moves including later := by
  cases acts with
  | code same => exact .code same
  | setConstant | setOutput | addScriptFunction => exact .nothing rfl rfl rfl (List.Subset.refl _)
  | includeModule allowed registered =>
    cases allowed
    exact moves_includeModule registered
  | amend here named => exact moves_amend here named
  | declareType declared => exact (moves_declareType _ _ _ _).of_ok declared
  | announce noted =>
    have renews : ∀ draft : TypeDraft, draft.Renews { draft with initializing := true } :=
      fun _ => ⟨rfl, rfl, rfl, fun finished => finished⟩
    exact (moves_modifyType renews fun _ => rfl).of_ok noted
  | beginBody _ begun =>
    exact (moves_modifyType (TypeDraft.beginBody_renews _) (Compile.beginBody_isOpen _)).of_ok begun
  | openMethod opened => exact (moves_openMethod _ _ _ _ _).of_ok opened
  | declareParam declared => exact (accounted.moves_declareParam _ _).of_ok declared
  | declareField declared => exact (moves_declareField _ _ _).of_ok declared
  | closeMethod closed => exact moves_closeMethod.of_ok closed
  | closeType closed => exact (moves_closeType _).of_ok closed

/-! ## What stays -/

/-- The closed types are as they were: their drafts with all that they hold, and their
definitions. -/
def Seals (session later : Session) : Prop :=
  ∀ (place : Nat) (draft : TypeDraft), session.drafts[place]? = some draft → draft.isOpen = false →
    later.drafts[place]? = some draft ∧ later.table.types[draft.id]? = session.table.types[draft.id]?

theorem Seals.refl (session : Session) : session.Seals session := fun _ _ here _ => ⟨here, rfl⟩

theorem Seals.trans {last : Session} (first : session.Seals later) (second : later.Seals last) :
    session.Seals last := by
  intro place draft here isClosed
  obtain ⟨there, definition⟩ := first place draft here isClosed
  obtain ⟨atLast, definitionAtLast⟩ := second place draft there isClosed
  exact ⟨atLast, definitionAtLast.trans definition⟩

/-- An open type changes together with its definition. The closed ones are elsewhere and have
definitions of their own. -/
theorem Accounted.seals_change (accounted : session.Accounted) {index : Nat}
    {draft changed : TypeDraft} (here : session.drafts[index]? = some draft)
    (isOpen : draft.isOpen = true) (drafts : later.drafts = session.drafts.set index changed)
    (others : ∀ other, draft.id ≠ other → later.table.types[other]? = session.table.types[other]?) :
    session.Seals later := by
  intro place closed there isClosed
  have apart : index ≠ place := by
    rintro rfl
    cases here.symm.trans there
    cases isOpen.symm.trans isClosed
  refine ⟨?_, others closed.id fun same => apart (accounted.place_eq here there same)⟩
  rw [drafts, getElem?_set_ne apart]
  exact there

theorem Moves.seals (moves : session.Moves including later) (accounted : session.Accounted) :
    session.Seals later := by
  cases moves with
  | code same =>
    -- Only the code of open methods can differ, and a closed type has none.
    intro place draft here isClosed
    have table : later.outline.table = session.outline.table := congrArg Session.table same
    obtain ⟨other, there, alike⟩ := getElem?_of_outline same here
    obtain ⟨_, _, accounts⟩ := accounted.accounts draft (mem_of_getElem? here)
    rw [TypeDraft.eq_of_outline (accounts.closed isClosed) alike] at there
    exact ⟨there, congrArg (fun table : SymbolTable => table.types[draft.id]?) table⟩
  | change here isOpen drafts _ _ others => exact accounted.seals_change here isOpen drafts others
  | add drafts types =>
    -- Nothing was there where something is added.
    intro place draft here _
    obtain ⟨type, found, -⟩ := accounted.accounts draft (mem_of_getElem? here)
    exact ⟨getElem?_extended drafts here, (getElem?_extended types found).trans found.symm⟩

/-- The implicit class, if there is one, is open, and it is not on the stack of open types. -/
def DefaultStands (session : Session) : Prop :=
  ∀ place ∈ session.defaultType, place ∉ session.openTypes ∧
    ∃ draft, session.drafts[place]? = some draft ∧ draft.isOpen = true

theorem Moves.defaultStands (moves : session.Moves including later)
    (stands : session.DefaultStands) : later.DefaultStands := by
  intro place isDefault
  cases moves with
  | code same =>
    have sameDefault : later.outline.defaultType = session.outline.defaultType :=
      congrArg Session.defaultType same
    have openTypes : later.outline.openTypes = session.outline.openTypes :=
      congrArg Session.openTypes same
    obtain ⟨notOpened, draft, here, isOpen⟩ := stands place (sameDefault ▸ isDefault)
    obtain ⟨other, there, alike⟩ := getElem?_of_outline same here
    have stays : other.outline.isOpen = draft.outline.isOpen := congrArg TypeDraft.isOpen alike
    exact ⟨fun opened => notOpened (openTypes ▸ opened), other, there, stays.trans isOpen⟩
  | @change index _ changed here _ drafts _ _ _ _ sameDefault openTypes =>
    obtain ⟨notOpened, draft, there, isOpen⟩ := stands place (sameDefault ▸ isDefault)
    rw [drafts]
    by_cases same : index = place
    · -- The implicit class itself changes, so it is not the type that may close.
      subst same
      rcases openTypes with closes | ⟨stays, openTypes⟩
      · exact absurd (closes ▸ mem_cons_self) notOpened
      · exact ⟨openTypes ▸ notOpened, changed, by simp [(List.getElem?_eq_some_iff.mp here).1], stays⟩
    · refine ⟨fun opened => notOpened ?_, draft, by rw [getElem?_set_ne same, there], isOpen⟩
      rcases openTypes with closes | ⟨_, openTypes⟩
      · exact closes ▸ mem_cons_of_mem _ opened
      · exact openTypes ▸ opened
  | add drafts _ _ _ sameDefault openTypes =>
    obtain ⟨notOpened, draft, there, isOpen⟩ := stands place (sameDefault ▸ isDefault)
    refine ⟨fun opened => ?_, draft, getElem?_extended drafts there, isOpen⟩
    rcases openTypes place opened with before | isNew
    · exact notOpened before
    · exact absurd (List.getElem?_eq_some_iff.mp there).1 (Nat.not_lt.mpr isNew)

theorem Becomes.keeps_moves {holds : Session → Prop} (becomes : session.Becomes including later)
    (accounted : session.Accounted)
    (kept : ∀ before after : Session, before.Accounted → before.Moves including after →
      holds before → holds after)
    (here : holds session) : holds later := by
  have both : ∀ before after : Session, before.Acts including after → before.Accounted ∧
      holds before → after.Accounted ∧ holds after := by
    rintro before after acts ⟨accounted, here⟩
    exact ⟨acts.accounted accounted, kept before after accounted (acts.moves accounted) here⟩
  exact (becomes.keeps both ⟨accounted, here⟩).2

theorem Becomes.seals (becomes : session.Becomes including later) (accounted : session.Accounted) :
    session.Seals later :=
  becomes.keeps_moves accounted (fun _ _ accounted moves seals =>
    seals.trans (moves.seals accounted)) (.refl session)

theorem Becomes.defaultStands (becomes : session.Becomes including later)
    (accounted : session.Accounted) (stands : session.DefaultStands) : later.DefaultStands :=
  becomes.keeps_moves accounted (fun _ _ _ moves stands => moves.defaultStands stands) stands

theorem DefaultStands.gives_openMain (stands : session.DefaultStands) :
    Gives session.openMain DefaultStands := by
  rw [openMain]
  split
  · exact stands
  · rename_i first rest drafts
    refine gives_bind_ok ?_
    rintro ⟨ref, table⟩ _ place isDefault
    obtain ⟨notOpened, draft, here, isOpen⟩ := stands place isDefault
    refine ⟨notOpened, ?_⟩
    cases place with
    | zero =>
      obtain rfl : first = draft := by simpa [drafts] using here
      exact ⟨_, rfl, isOpen⟩
    | succ place => exact ⟨draft, by simpa [drafts] using here, isOpen⟩

theorem defaultStands_create (options : BuildOptions) (autoName : Bool) :
    Gives (create options autoName) DefaultStands := by
  let start := blank options autoName
  have opened : start.openDefault.DefaultStands := by
    intro place isDefault
    rw [openDefault] at isDefault ⊢
    split at isDefault
    · cases isDefault
    · cases isDefault
      exact ⟨not_mem_nil, _, rfl, rfl⟩
  rw [create]
  split
  · exact opened
  · exact opened.gives_openMain
  · exact fun _ isDefault => by cases isDefault

/-! ## Finishing -/

theorem Accounted.seals_closeAt (accounted : session.Accounted) (index : Nat)
    (namespaces : List String) : Gives (session.closeAt index namespaces) fun (later, _) =>
      session.Seals later := by
  rw [closeAt, gives_bind]
  refine gives_draft.imp fun draft here => ?_
  cases isOpen : draft.isOpen with
  | false =>
    -- Closing it again puts back the same draft.
    rw [TypeDraft.close_of_closed isOpen, gives_bind]
    have same : session.drafts.set index draft = session.drafts := by
      obtain ⟨inRange, rfl⟩ := List.getElem?_eq_some_iff.mp here
      exact set_getElem_self inRange
    intro place closed there _
    exact ⟨(congrArg (·[place]?) same).trans there, rfl⟩
  | true =>
    rw [gives_bind]
    refine (draft.gives_close _ namespaces).imp ?_
    rintro ⟨closed, table, _⟩ ⟨_, _, derives⟩
    exact accounted.seals_change here isOpen rfl derives.revises.others

theorem Accounted.seals_closeEach (accounted : session.Accounted) (namespaces : List String)
    (indices : List Nat) : Gives (closeEach namespaces indices session) fun (later, _) =>
      session.Seals later := by
  induction indices generalizing session with
  | nil => exact .refl session
  | cons index rest ih =>
    rw [closeEach, gives_bind]
    refine ((gives_closeAt session index namespaces).and
      (accounted.seals_closeAt index namespaces)).imp ?_
    rintro ⟨next, _⟩ ⟨⟨closes, _⟩, seals⟩
    rw [gives_bind]
    exact (ih (closes.accounted accounted)).imp fun _ others => seals.trans others

/-- The implicit class is closed at the end. It was open, so that no closed type changes. -/
theorem Accounted.seals_finishDefault (accounted : session.Accounted)
    (stands : session.DefaultStands) (namespaces : List String) :
    Gives (session.finishDefault namespaces) fun (later, _) => session.Seals later := by
  rw [finishDefault]
  split
  · exact .refl session
  · rename_i index isDefault
    obtain ⟨-, held, place, isOpen⟩ := stands index isDefault
    rw [gives_bind]
    refine gives_draft.imp fun draft here => ?_
    obtain rfl : held = draft := Option.some.inj (place.symm.trans here)
    -- In a script, the main function gets its return first. Either way the class is then closed as
    -- others are.
    have closes {prepared : TypeDraft} (renews : held.Renews prepared) :
        Gives ((session.setDraft index prepared).closeAt index namespaces) fun outcome =>
          session.Seals outcome.1 := by
      have prepares : session.Seals (session.setDraft index prepared) :=
        accounted.seals_change here isOpen rfl fun _ _ => rfl
      exact ((accounted.setDraft here renews).seals_closeAt index namespaces).imp fun _ closes =>
        prepares.trans closes
    split
    · exact .refl session
    · rw [closeDefault]
      split
      · rw [gives_bind]
        refine (gives_finishMain held).imp ?_
        rintro ⟨prepared, problems⟩ ⟨renews, -⟩
        rw [gives_bind]
        exact closes renews
      · rw [gives_bind, gives_ok]
        dsimp only
        rw [gives_bind]
        exact closes (.refl held)

/-- Only the implicit class can be left out of the module. -/
theorem unusedDefault_isDefault (session : Session) :
    Gives session.unusedDefault? fun dropped => ∀ place ∈ dropped, place ∈ session.defaultType := by
  rw [unusedDefault?]
  split
  · rw [gives_ok]
    intro place isDropped
    cases isDropped
  · rename_i index isDefault
    rw [gives_bind]
    refine gives_draft.imp fun draft _ place isDropped => ?_
    split at isDropped
    · cases isDropped
      exact isDefault
    · cases isDropped

/-- The types of the module that a session hands over include all closed types, with the bodies that
they had and the definitions that they had. -/
theorem Accounted.seals_finish (accounted : session.Accounted) (stands : session.DefaultStands)
    (namespaces : List String) :
    Gives (session.finish namespaces) fun (compiled, _) =>
      ∀ (place : Nat) (draft : TypeDraft), session.drafts[place]? = some draft →
        draft.isOpen = false → ⟨draft.id, draft.bodies⟩ ∈ compiled.types ∧
          compiled.table.types[draft.id]? = session.table.types[draft.id]? := by
  rw [finish, gives_bind]
  refine session.unusedDefault_isDefault.imp fun dropped isDefault => ?_
  rw [gives_bind]
  refine ((session.gives_finishDefault namespaces).and
    (accounted.seals_finishDefault stands namespaces)).imp ?_
  rintro ⟨first, _⟩ ⟨toFirst, sealsFirst⟩
  have accountedFirst := toFirst.accounted accounted
  rw [gives_bind]
  refine ((gives_closeEach namespaces _ first).and
    (accountedFirst.seals_closeEach namespaces _)).imp ?_
  rintro ⟨second, _⟩ ⟨⟨toSecond, _⟩, sealsSecond⟩
  have accountedSecond := toSecond.accounted accountedFirst
  rw [gives_bind]
  refine (accountedSecond.seals_closeEach namespaces _).imp ?_
  rintro ⟨last, _⟩ sealsLast
  have inModule : ∀ (place : Nat) (draft : TypeDraft), session.drafts[place]? = some draft →
      draft.isOpen = false → ⟨draft.id, draft.bodies⟩ ∈
          (withoutDraft dropped last.drafts).map (fun draft => ModuleType.mk draft.id draft.bodies) ∧
        last.table.types[draft.id]? = session.table.types[draft.id]? := by
    intro place draft here isClosed
    obtain ⟨there, definition⟩ := ((sealsFirst.trans sealsSecond).trans sealsLast) place draft
      here isClosed
    -- A closed type is not the implicit class, so it is not dropped.
    have kept : place ∉ dropped := by
      intro isDropped
      obtain ⟨-, held, same, isOpen⟩ := stands place (isDefault place isDropped)
      cases same.symm.trans here
      cases isOpen.symm.trans isClosed
    exact ⟨mem_map_of_mem (mem_withoutDraft.mpr ⟨place, there, kept⟩), definition⟩
  dsimp only
  split
  · exact inModule
  · exact gives_bind_ok fun _ _ => inModule

end Session

/-! ## Builds -/

namespace Build

variable {state later : Build} {rounds : List Round}

theorem Runs.becomes (runs : state.Runs rounds later) :
    state.compiler.session.Becomes true later.compiler.session := by
  induction runs with
  | none => exact .refl _
  | round reads runs ih =>
    obtain ⟨rest, -, processed⟩ := reads.processed
    exact (steps_process processed).session.allowing.trans ih

/-- In every state of a build the implicit class is open. -/
theorem Reached.defaultStands {files : FileTree} {stream : TokenStream} {options : BuildOptions}
    {autoName : Bool} (reached : Reached files stream options autoName state) :
    state.compiler.session.DefaultStands := by
  obtain ⟨session, created, becomes⟩ := reached.becomes
  exact becomes.defaultStands ((Session.gives_create _ _).of_ok created)
    ((Session.defaultStands_create _ _).of_ok created)

end Build

/-- A closed type is sealed. A type that is closed in some state of a build has no open methods. In
every later state its draft, with its list of finished bodies, and its definition in the symbol
table are the same, and it is not the current type. In the module at the end of the build it has
these bodies and this definition. -/
theorem closed_types_are_sealed {files : FileTree} {stream : TokenStream} {options : BuildOptions}
    {autoName : Bool} {state : Build} (reached : Build.Reached files stream options autoName state)
    {place : Nat} {draft : TypeDraft} (here : state.compiler.session.drafts[place]? = some draft)
    (isClosed : draft.isOpen = false) : draft.openMethods = [] ∧
      (∀ rounds later, state.Runs rounds later →
        later.compiler.session.drafts[place]? = some draft ∧
          later.compiler.session.table.get draft.id = state.compiler.session.table.get draft.id ∧
          ∀ current, later.compiler.session.currentType? = .ok (some current) → current.id ≠ draft.id) ∧
      ∀ result, build files stream options autoName = .ok result →
        ⟨draft.id, draft.bodies⟩ ∈ result.compiled.types ∧
          result.compiled.table.get draft.id = state.compiler.session.table.get draft.id := by
  have accounted := reached.accounted
  obtain ⟨definition, found, accounts⟩ := accounted.accounts draft (List.mem_of_getElem? here)
  have get_eq {table : SymbolTable}
      (same : table.types[draft.id]? = state.compiler.session.table.types[draft.id]?) :
      table.get draft.id = state.compiler.session.table.get draft.id := by
    rw [SymbolTable.get, SymbolTable.get, same]
  refine ⟨accounts.closed isClosed, fun rounds later runs => ?_, fun result built => ?_⟩
  · obtain ⟨there, same⟩ := runs.becomes.seals accounted place draft here isClosed
    refine ⟨there, get_eq same, fun current isCurrent sameId => ?_⟩
    -- The current type is open, and no other type has the definition of the closed one.
    obtain ⟨index, atIndex, isOpen⟩ := Session.exists_place_of_currentType isCurrent
    obtain rfl := (reached.runs runs).accounted.place_eq atIndex there sameId
    cases atIndex.symm.trans there
    cases isOpen.symm.trans isClosed
  · obtain ⟨rounds, done, runs, -, finished⟩ := reached.exists_runs_to_end built
    have reachedDone := reached.runs runs
    obtain ⟨there, same⟩ := runs.becomes.seals accounted place draft here isClosed
    obtain ⟨others, checked, -⟩ := Compile.checkTermination_eq reachedDone.sound
    have gives : Gives done.finish fun result => ⟨draft.id, draft.bodies⟩ ∈ result.compiled.types ∧
        result.compiled.table.get draft.id = state.compiler.session.table.get draft.id := by
      rw [Build.finish, checked, gives_bind, gives_ok, gives_bind]
      refine (reachedDone.accounted.seals_finish reachedDone.defaultStands _).imp ?_
      rintro ⟨compiled, _⟩ seals
      obtain ⟨inside, definition⟩ := seals place draft there isClosed
      exact ⟨inside, get_eq (definition.trans same)⟩
    exact gives.of_ok finished

/-- A class with a method is closed by its block; the declarations after it and the clause that asks
for a base do not concern it. -/
def closedPoint : TokenStream where
  header := .script
  platform := 0
  tokens :=
    [.classOpen "Point" .plain .everywhere, .block true, .function "Move" "" .plain .everywhere,
      .block true, .block false, .block false, .extendsClause, .literal "Console", .var "x" "int" false,
      .classOpen "Point" .plain .everywhere, .function "Step" "" .plain .everywhere]

/-- The closed class stays the same draft through every run of the five tokens left. -/
theorem closedPoint_sealed :
    ∃ state draft, Build.Reached (.empty []) closedPoint {} false state ∧
      state.compiler.stream.length = 5 ∧ state.compiler.session.drafts[1]? = some draft ∧
        draft.isOpen = false ∧ draft.bodies.length = 1 ∧ ∀ rounds later, state.Runs rounds later →
          later.compiler.session.drafts[1]? = some draft := by
  have reached : Build.Reached (.empty []) closedPoint {} false _ :=
    .step (.step (.step (.step (.step (.step (.start rfl) rfl rfl) rfl rfl) rfl rfl) rfl rfl) rfl rfl) rfl rfl
  refine ⟨_, _, reached, rfl, rfl, rfl, rfl, fun rounds later runs => ?_⟩
  exact ((closed_types_are_sealed reached rfl rfl).2.1 rounds later runs).1

end OnePass
