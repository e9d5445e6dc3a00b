import OnePass.Proofs.Integrity.Draft

/-! # Sessions stay in range

A session is sound if the symbols that it holds are in its table and the positions of types are
those of drafts. Declarations and the ends of types and methods keep a session sound and lose no
symbol. -/

namespace OnePass

open List SymbolTable

/-- Everything that a session refers to exists. -/
structure Session.Sound (session : Session) : Prop where
  table : session.table.Sound
  drafts : ∀ draft ∈ session.drafts, session.table.Holds draft.symbols
  openTypes : ∀ index ∈ session.openTypes, index < session.drafts.length
  defaultType : ∀ index ∈ session.defaultType, index < session.drafts.length
  defaultMethod : ∀ ref ∈ session.defaultMethod, session.table.Has (.method ref)
  scriptFunctions : ∀ ref ∈ session.scriptFunctions, session.table.Has (.method ref)
  entryPoint : ∀ ref ∈ session.entryPoint, session.table.Has (.method ref)

/-- The folders in which included and imported files are looked up. -/
def BuildOptions.directories (options : BuildOptions) : Path × Path :=
  (options.libraryDir, options.baseDir)

/-- The session became a sound one without losing a symbol. Files are looked up where they were. -/
structure Session.Evolves (session later : Session) : Prop where
  sound : later.Sound
  grows : session.table.Grows later.table
  directories : later.options.directories = session.options.directories

namespace Session

variable {session later : Session}

theorem Evolves.trans {last : Session} (first : session.Evolves later)
    (second : later.Evolves last) : session.Evolves last :=
  ⟨second.sound, first.grows.trans second.grows, second.directories.trans first.directories⟩

namespace Sound

variable (sound : session.Sound) {table : SymbolTable}

include sound

theorem refl : session.Evolves session := ⟨sound, .refl _, rfl⟩

theorem withTable (evolves : session.table.Evolves table) :
    session.Evolves { session with table := table } where
  grows := evolves.grows
  directories := rfl
  sound :=
    { sound with
      table := evolves.sound
      drafts := fun draft here => (sound.drafts draft here).grow evolves.grows
      defaultMethod := fun ref here => evolves.grows _ (sound.defaultMethod ref here)
      scriptFunctions := fun ref here => evolves.grows _ (sound.scriptFunctions ref here)
      entryPoint := fun ref here => evolves.grows _ (sound.entryPoint ref here) }

theorem setDraft (index : Nat) {draft : TypeDraft} (holds : session.table.Holds draft.symbols) :
    (session.setDraft index draft).Sound :=
  { sound with
    drafts := fun other here => by
      rcases mem_or_eq_of_mem_set here with old | rfl
      · exact sound.drafts other old
      · exact holds
    openTypes := fun other here => by simpa [Session.setDraft] using sound.openTypes other here
    defaultType := fun other here => by simpa [Session.setDraft] using sound.defaultType other here }

theorem replace (evolves : session.table.Evolves table) (index : Nat) {draft : TypeDraft}
    (holds : table.Holds draft.symbols) : session.Evolves
      { session.setDraft index draft with table := table } :=
  ⟨(sound.withTable evolves).sound.setDraft index holds, evolves.grows, rfl⟩

/-! ## The current type and method -/

theorem ensures_draft [Stops Fault] {index : Nat} (inRange : index < session.drafts.length) :
    Ensures (session.draft index) fun draft => session.table.Holds draft.symbols := by
  rw [draft, getElem?_eq_getElem inRange, ensures_ok]
  exact sound.drafts _ (getElem_mem inRange)

/-- The current type is the innermost open one or else the default type; both positions are those of
drafts. -/
theorem ensures_current [Stops Fault] :
    Ensures session.current? fun found => ∀ entry ∈ found, session.table.Holds entry.2.symbols := by
  rw [current?]
  split
  · simp
  · rename_i index found
    have inRange : index < session.drafts.length := by
      rcases Option.or_eq_some_iff.mp found with inner | ⟨-, isDefault⟩
      · exact sound.openTypes index (mem_of_head? inner)
      · exact sound.defaultType index isDefault
    rw [ensures_bind]
    refine (sound.ensures_draft inRange).imp fun draft holds => ?_
    split <;> simp [holds]

theorem ensures_currentType [Stops Fault] :
    Ensures session.currentType? fun found => ∀ type ∈ found, session.table.Holds type.symbols := by
  rw [currentType?, ensures_bind]
  refine sound.ensures_current.imp fun found holds type here => ?_
  obtain ⟨entry, inFound, rfl⟩ := Option.map_eq_some_iff.mp here
  exact holds entry inFound

theorem ensures_currentMethod [Stops Fault] :
    Ensures session.currentMethod? fun found => ∀ method ∈ found,
      session.table.Holds method.symbols := by
  rw [currentMethod?, ensures_bind]
  refine sound.ensures_currentType.imp fun found holds method here => ?_
  obtain ⟨type, inFound, isCurrent⟩ := Option.bind_eq_some_iff.mp here
  exact TypeDraft.holds_currentMethod (holds type inFound) isCurrent

theorem ensures_isDefaultCurrent : Ensures session.isDefaultCurrent fun _ => True := by
  rw [isDefaultCurrent, ensures_bind]
  refine sound.ensures_current.imp fun found _ => ?_
  split <;> trivial

theorem ensures_modifyType {change : TypeDraft → TypeDraft}
    (changes : ∀ draft, session.table.Holds draft.symbols →
      session.table.Holds (change draft).symbols) :
    Ensures (session.modifyType change) fun later => session.Evolves later ∧
      later.table = session.table := by
  rw [modifyType, ensures_bind]
  refine sound.ensures_current.imp fun found holds => ?_
  split
  · exact ⟨sound.refl, rfl⟩
  · rename_i index draft
    exact ⟨⟨sound.setDraft index (changes draft (holds _ rfl)), .refl _, rfl⟩, rfl⟩

theorem ensures_setMethod {method : MethodDraft} (holds : session.table.Holds method.symbols) :
    Ensures (session.setMethod method) fun later => session.Evolves later ∧
      later.table = session.table :=
  sound.ensures_modifyType fun _ known => TypeDraft.holds_setMethod known holds

/-! ## Declarations -/

theorem ensures_declareType (name space : String) (kind : ClassKind) (visibility : Visibility) :
    Ensures (session.declareType name space kind visibility) fun (_, later) =>
      session.Evolves later := by
  rw [declareType, ensures_bind]
  have ids : session.table.HasTypes ({ TypeDef.bare name space kind .declared with
      visibility := visibility
      base := if kind == .interface then none else some session.table.wellKnown.object } :
          TypeDef).typeIds := by
    simp only [TypeDef.typeIds, TypeDef.bare, hasTypes_append]
    split <;> simp [sound.table.object_inRange]
  refine (sound.table.ensures_define ids).imp fun (id, table) ⟨evolves, isLast, types⟩ => ?_
  have known : table.Holds ({ id := id } : TypeDraft).symbols := by simp [TypeDraft.symbols,
    isLast, types]
  have here := (sound.withTable evolves).sound
  -- The new draft stands behind the others, so that the positions of open types and of the default
  -- type stay.
  refine ⟨{ here with drafts := ?_, openTypes := ?_, defaultType := ?_ }, evolves.grows, rfl⟩
  · exact forall_mem_append.mpr ⟨here.drafts, forall_mem_singleton.mpr known⟩
  · have later {index : Nat} (inRange : index < session.drafts.length) :
        index < (session.drafts ++ [({ id := id } : TypeDraft)]).length := by
      rw [length_append]
      omega
    refine forall_mem_cons.mpr ⟨by simp, fun index open_index =>
      later (sound.openTypes index open_index)⟩
  · intro index isDefault
    have inRange := sound.defaultType index isDefault
    rw [length_append]
    omega

omit sound in
theorem ensures_addFunction (sound : table.Sound) {owner result : TypeId}
    (inRange : owner < table.types.length) (known : result < table.types.length) (name : String)
    (kind : FuncKind) (isStatic : Bool) (visibility : Visibility) (attrs : MethodAttrs) :
    Ensures (addFunction table owner name result kind isStatic visibility attrs) fun (slot, later) =>
      table.Evolves later ∧ later.Holds slot.symbols := by
  rw [addFunction]
  split
  · rw [ensures_bind]
    refine (sound.ensures_addCtor inRange hasTypes_nil).imp ?_
    rintro ⟨ref, later⟩ ⟨evolves, has⟩
    exact ⟨evolves, by simpa [MethodSlot.symbols] using has⟩
  · rw [ensures_bind]
    have signature : table.HasTypes
        (MethodDef.typeIds ⟨name, [], result, isStatic, kind.isVirtual, visibility, attrs⟩) := by
      simpa [MethodDef.typeIds] using known
    refine (sound.ensures_addMethod inRange signature).imp ?_
    rintro ⟨ref, later⟩ ⟨evolves, has⟩
    exact ⟨evolves, by simpa [MethodSlot.symbols] using has⟩

theorem ensures_openMethod (name : String) {result : TypeId}
    (known : result < session.table.types.length) (kind : FuncKind) (visibility : Visibility)
    (attrs : MethodAttrs) : Ensures (session.openMethod name result kind visibility attrs)
      fun (slot, later) =>
      session.Evolves later ∧ later.table.Holds slot.symbols := by
  rw [openMethod, ensures_fault_bind]
  refine sound.ensures_current.imp fun found holds => ?_
  split
  · exact ensures_throw_problem
  · rename_i index draft
    have inDraft := holds _ rfl
    have inRange := TypeDraft.id_inRange inDraft
    rw [ensures_fault_bind]
    refine (ensures_get inRange).imp fun owner _ => ?_
    dsimp only
    rw [ensures_fault_bind]
    refine (ensures_addFunction sound.table inRange known ..).imp
      fun (slot, table) ⟨evolves, inSlot⟩ => ?_
    have inMember : table.Holds draft.addMember.symbols := inDraft.grow evolves.grows
    have inMethod := MethodDraft.holds_new inSlot
      ((kind == .static || owner.isStatic) && kind != .constructor) true
    have opened := sound.replace evolves index (TypeDraft.holds_openMethod inMember inMethod)
    refine ⟨⟨{ opened.sound with entryPoint := ?_ }, evolves.grows, rfl⟩, inSlot⟩
    intro ref isEntry
    -- The entry point is the new method if it is marked, and else the old one.
    have before (old : session.entryPoint = some ref) : table.Has (.method ref) :=
      evolves.grows _ (sound.entryPoint ref old)
    cases slot with
    | ctor ctor => exact before isEntry
    | method method =>
      simp only [entryAfter] at isEntry
      split at isEntry
      · cases isEntry
        simpa [MethodSlot.symbols] using inSlot
      · exact before isEntry

omit sound in
theorem ensures_addParam (sound : table.Sound) {slot : MethodSlot}
    (holds : table.Holds slot.symbols) {type : TypeId} (inRange : type < table.types.length) :
    Ensures (addParam table slot type) table.Evolves := by
  cases slot with
  | method ref =>
    exact sound.ensures_addMethodParam (by simpa [MethodSlot.symbols] using holds) inRange
  | ctor ref => exact sound.ensures_addCtorParam (by simpa [MethodSlot.symbols] using holds) inRange

/-- A parameter is added twice: to the draft of the method and to its definition. -/
theorem ensures_declareParam (name : String) {type : TypeId}
    (inRange : type < session.table.types.length) : Ensures (session.declareParam name type)
      fun (_, later) => session.Evolves later := by
  rw [declareParam, ensures_fault_bind]
  refine sound.ensures_currentMethod.imp fun found holds => ?_
  split
  · exact ensures_throw_problem
  · rename_i method
    have inMethod := holds method rfl
    rw [ensures_bind, ensures_lift_problem]
    refine (MethodDraft.ensures_declareParam inMethod name inRange).imp
      fun (slot, changed) inChanged => ?_
    rw [ensures_fault_bind]
    refine (ensures_addParam sound.table (MethodDraft.holds_slot inMethod) inRange).imp
      fun table evolves => ?_
    rw [ensures_fault_bind]
    refine (sound.ensures_setMethod inChanged).imp fun later ⟨toLater, same⟩ => ?_
    -- The draft was put back to a session with the old table, which is replaced last.
    rw [← same] at evolves
    exact toLater.trans (toLater.sound.withTable evolves)

theorem ensures_declareLocal (name typeName : String) (namespaces : List String) (isFinal : Bool) :
    Ensures (session.declareLocal name typeName namespaces isFinal) fun (var, later) =>
      session.Evolves later ∧ later.table.Holds var.symbols := by
  rw [declareLocal, ensures_fault_bind]
  refine sound.ensures_currentMethod.imp fun found holds => ?_
  split
  · exact ensures_throw_problem
  · rename_i method
    rw [ensures_bind, ensures_lift_problem]
    refine (MethodDraft.ensures_declareLocal (holds method rfl) sound.table ..).imp
      fun (var, changed) ⟨inVar, inChanged⟩ => ?_
    rw [ensures_fault_bind]
    refine (sound.ensures_setMethod inChanged).imp fun later ⟨toLater, same⟩ => ?_
    exact ⟨toLater, same ▸ inVar⟩

theorem ensures_declareField (name : String) {type : TypeId}
    (inRange : type < session.table.types.length) (isFinal : Bool) :
    Ensures (session.declareField name type isFinal) fun (ref, later) =>
      session.Evolves later ∧ later.table.Has (.field ref) := by
  rw [declareField, ensures_fault_bind]
  refine sound.ensures_current.imp fun found holds => ?_
  split
  · exact ensures_throw_problem
  · rename_i index draft
    have inDraft := holds _ rfl
    have owner := TypeDraft.id_inRange inDraft
    rw [ensures_fault_bind]
    refine (ensures_get owner).imp fun definition _ => ?_
    split
    · exact ensures_throw_problem
    · rw [ensures_fault_bind]
      refine (sound.table.ensures_addField owner inRange).imp fun (ref, table) ⟨evolves, has⟩ => ?_
      have inMember : table.Holds draft.addMember.symbols := inDraft.grow evolves.grows
      exact ⟨sound.replace evolves index inMember, has⟩

/-! ## Script functions -/

theorem addScriptFunction {ref : MemberRef} (has : session.table.Has (.method ref)) :
    session.Evolves (session.addScriptFunction ref) :=
  ⟨{ sound with
      scriptFunctions := forall_mem_append.mpr ⟨sound.scriptFunctions, forall_mem_singleton.mpr has⟩ },
    .refl _, rfl⟩

theorem ensures_findScriptFunction (name : String) :
    Ensures (session.findScriptFunction name) fun found => ∀ ref ∈ found,
      session.table.Has (.method ref) := by
  refine Ensures.imp (ensures_findM? fun ref here => ?_) fun found inside ref here =>
    sound.scriptFunctions ref (inside ref here)
  rw [ensures_bind]
  exact (sound.table.ensures_method (sound.scriptFunctions ref here)).imp fun _ _ => trivial

end Sound

end Session

end OnePass
