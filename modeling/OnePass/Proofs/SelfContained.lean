import OnePass.Proofs.ScriptMain

/-! # Modules that stand alone

The file of a module holds the definitions of its own types and only the names of all others, so
that another build can include it if it knows those. Which types are the module's own is decided at
the end of a build: a class file whose implicit class got no members is left without it, even where
a declared type refers to it.

* `CompiledModule.SelfContained` — the definitions of a module refer to host types and to its own
  types only.
* `CompiledModule.Rostered` — what every build knows of the names of types: a module is then
  accepted by a build that knows nothing but the host library, if and only if it is self-contained
  (`Rostered.register_iff`).
* `Session.Counted` — the count of members, by which the implicit class is left out, misses no
  field.

The main statement is `references_of_lone_build`: where a build includes nothing, the implicit class
of a class file is all that its module can lack, and only if that class has no members. -/

namespace OnePass

open List ModuleImage Session

/-! ## References -/

variable {id : TypeId}

/-- The types in a definition: its base and interfaces, and those of its members. -/
theorem TypeDef.mem_typeIds {type : TypeDef} : id ∈ type.typeIds ↔
    id ∈ type.base ∨ id ∈ type.interfaces ∨ (∃ field ∈ type.fields, field.type = id) ∨
      (∃ method ∈ type.methods, id = method.result ∨ id ∈ method.params) ∨ ∃ ctor ∈ type.ctors,
        id ∈ ctor.params := by
  simp only [typeIds, MethodDef.typeIds, mem_append, Option.mem_toList, mem_map, mem_flatMap,
    mem_cons, or_assoc, Option.mem_def]

theorem TypeDef.mentions_named {type : TypeDef} {name : TypeId → String} {bodies : List MethodBody}
    {reference : String} :
    (type.named name bodies).Mentions reference ↔ ∃ id ∈ type.typeIds, name id = reference := by
  constructor
  · intro mentions
    cases mentions with
    | base here =>
      obtain ⟨id, isBase, rfl⟩ := Option.map_eq_some_iff.mp here
      exact ⟨id, mem_typeIds.mpr (.inl isBase), rfl⟩
    | interface here =>
      obtain ⟨id, isInterface, rfl⟩ := mem_map.mp here
      exact ⟨id, mem_typeIds.mpr (.inr (.inl isInterface)), rfl⟩
    | field member here =>
      obtain ⟨field, isField, rfl⟩ := mem_map.mp member
      exact ⟨field.type, mem_typeIds.mpr (.inr (.inr (.inl ⟨field, isField, rfl⟩))), here⟩
    | param member here =>
      obtain ⟨method, isMethod, rfl⟩ := mem_map.mp member
      obtain ⟨id, isParam, rfl⟩ := mem_map.mp here
      exact ⟨id, mem_typeIds.mpr (.inr (.inr (.inr (.inl ⟨method, isMethod, .inr isParam⟩)))), rfl⟩
    | result member here =>
      obtain ⟨method, isMethod, rfl⟩ := mem_map.mp member
      exact ⟨method.result, mem_typeIds.mpr (.inr
        (.inr (.inr (.inl ⟨method, isMethod, .inl rfl⟩)))), here⟩
    | ctorParam member here =>
      obtain ⟨ctor, isCtor, rfl⟩ := mem_map.mp member
      obtain ⟨id, isParam, rfl⟩ := mem_map.mp here
      exact ⟨id, mem_typeIds.mpr (.inr (.inr (.inr (.inr ⟨ctor, isCtor, isParam⟩)))), rfl⟩
  · rintro ⟨id, inside, rfl⟩
    rcases mem_typeIds.mp inside with base | interface | ⟨field, member, rfl⟩
      | ⟨method, member, rfl | param⟩ | ⟨ctor, member, param⟩
    · exact .base (Option.mem_map_of_mem name base)
    · exact .interface (mem_map_of_mem interface)
    · exact .field (mem_map_of_mem member) rfl
    · exact .result (mem_map_of_mem member) rfl
    · exact .param (mem_map_of_mem member) (mem_map_of_mem param)
    · exact .ctorParam (mem_map_of_mem member) (mem_map_of_mem param)

namespace SymbolTable

variable {table : SymbolTable} {id : TypeId} {type : TypeDef}

theorem definition_eq (found : table.types[id]? = some type) : table.definition id = type := by
  rw [definition, found, Option.getD_some]

theorem nameOf_eq (found : table.types[id]? = some type) : table.nameOf id = type.fullName := by
  rw [nameOf, definition_eq found]

end SymbolTable

namespace CompiledModule

/-- Another build has the type as well: it is a host type, or it comes with the module. -/
def Supplies (compiled : CompiledModule) (id : TypeId) : Prop :=
  (compiled.table.definition id).origin = .host ∨ id ∈ compiled.types.map (·.id)

instance (compiled : CompiledModule) (id : TypeId) : Decidable (compiled.Supplies id) :=
  inferInstanceAs (Decidable (_ ∨ _))

/-- The definitions of the module refer to host types and to types of the module only. -/
def SelfContained (compiled : CompiledModule) : Prop :=
  ∀ type ∈ compiled.types, ∀ id ∈ (compiled.table.definition type.id).typeIds, compiled.Supplies id

instance (compiled : CompiledModule) : Decidable compiled.SelfContained :=
  inferInstanceAs (Decidable (∀ type ∈ compiled.types,
    ∀ id ∈ (compiled.table.definition type.id).typeIds, _))

/-- The types of a module have names of their own, and all types that the module refers to have
names. -/
structure Rostered (compiled : CompiledModule) : Prop where
  table : Host.table.Continues true compiled.table
  declared : ∀ type ∈ compiled.types, ∃ definition, compiled.table.types[type.id]? =
    some definition ∧ definition.origin = .declared
  distinct : (compiled.types.map (·.id)).Nodup
  inRange : compiled.InRange

namespace Rostered

variable {compiled : CompiledModule} (rostered : compiled.Rostered)

include rostered

theorem lookup_nameOf (inRange : id < compiled.table.types.length) :
    compiled.table.lookup (compiled.table.nameOf id) = some id := by
  have found : compiled.table.types[id]? = some compiled.table.types[id] :=
    getElem?_eq_getElem inRange
  rw [SymbolTable.nameOf_eq found]
  exact rostered.table.catalogued_of_host id _ found

theorem host_lookup_nameOf (inRange : id < compiled.table.types.length) :
    Host.table.lookup (compiled.table.nameOf id) =
      if (compiled.table.definition id).origin = .host then some id else none := by
  have found : compiled.table.types[id]? = some compiled.table.types[id] :=
    getElem?_eq_getElem inRange
  rw [SymbolTable.nameOf_eq found, SymbolTable.definition_eq found]
  exact rostered.table.lookup_fullName found

theorem type_inRange {type : ModuleType} (here : type ∈ compiled.types) :
    type.id < compiled.table.types.length := by
  obtain ⟨definition, found, -⟩ := rostered.declared type here
  exact (List.getElem?_eq_some_iff.mp found).1

theorem reference_inRange {type : ModuleType} (here : type ∈ compiled.types)
    (inside : id ∈ (compiled.table.definition type.id).typeIds) :
    id < compiled.table.types.length := by
  refine rostered.inRange id (mem_append_right _ (mem_flatMap.mpr ⟨type, here, ?_⟩))
  exact mem_append_left _ (mem_cons_of_mem _ inside)

/-- The image of the module fits into the host library. -/
theorem fits_iff : compiled.named.FitsInto Host.table ↔ compiled.SelfContained := by
  have unnamed : ∀ type ∈ compiled.types, Host.table.lookup (compiled.table.nameOf type.id) =
      none := by
    intro type here
    obtain ⟨definition, found, declared⟩ := rostered.declared type here
    rw [rostered.host_lookup_nameOf (rostered.type_inRange here), SymbolTable.definition_eq found,
      declared]
    rfl
  have named : compiled.named.types.map (·.fullName) =
      compiled.types.map fun type => compiled.table.nameOf type.id := by
    rw [CompiledModule.named, map_map]
    rfl
  constructor
  · intro fits type here id inside
    have inRange := rostered.reference_inRange here inside
    have mentions : ((compiled.table.definition type.id).named compiled.table.nameOf
        type.bodies).Mentions (compiled.table.nameOf id) := TypeDef.mentions_named.mpr ⟨id, inside, rfl⟩
    rcases fits.known _ (mem_map_of_mem here) _ mentions with ⟨known, found⟩ | ⟨other, isType, same⟩
    · rw [rostered.host_lookup_nameOf inRange] at found
      split at found
      · rename_i isHost
        exact .inl isHost
      · cases found
    · -- The type of the module with this name is the type that is meant.
      obtain ⟨own, isOwn, rfl⟩ := mem_map.mp isType
      have sameName : compiled.table.nameOf own.id = compiled.table.nameOf id := same
      have found := rostered.lookup_nameOf inRange
      rw [← sameName, rostered.lookup_nameOf (rostered.type_inRange isOwn)] at found
      obtain rfl := Option.some.inj found
      exact .inr (mem_map_of_mem isOwn)
  · intro contained
    refine ⟨?_, fun image isType => ?_, fun image isType name mentions => ?_⟩
    · rw [named]
      have names : compiled.types.map (fun type => compiled.table.nameOf type.id) =
          (compiled.types.map (·.id)).map compiled.table.nameOf := by
        rw [map_map]
        rfl
      rw [names]
      refine rostered.distinct.map_on fun id inside other isOther same => ?_
      obtain ⟨type, here, rfl⟩ := mem_map.mp inside
      obtain ⟨next, there, rfl⟩ := mem_map.mp isOther
      have found := rostered.lookup_nameOf (rostered.type_inRange here)
      rw [same, rostered.lookup_nameOf (rostered.type_inRange there)] at found
      exact (Option.some.inj found).symm
    · obtain ⟨type, here, rfl⟩ := mem_map.mp isType
      exact unnamed type here
    · obtain ⟨type, here, rfl⟩ := mem_map.mp isType
      obtain ⟨id, inside, rfl⟩ := TypeDef.mentions_named.mp mentions
      rcases contained type here id inside with isHost | isOwn
      · exact .inl ⟨id, by rw [rostered.host_lookup_nameOf (rostered.reference_inRange here inside),
          if_pos isHost]⟩
      · obtain ⟨own, isType, rfl⟩ := mem_map.mp isOwn
        exact .inr ⟨_, mem_map_of_mem isType, rfl⟩

/-- A build that knows only the host library can include the module, if and only if it is
self-contained. -/
theorem register_iff :
    (∃ ids later, compiled.named.register Host.table = .ok (ids, later)) ↔ compiled.SelfContained := by
  rw [← rostered.fits_iff]
  constructor
  · rintro ⟨ids, later, registered⟩
    by_contra unfit
    obtain ⟨problem, refused⟩ := install_of_not_fits unfit
    rw [register, refused] at registered
    cases registered
  · intro fits
    obtain ⟨ids, later, installed, -⟩ := install_of_fits fits
    exact ⟨ids, later, by rw [register, installed]⟩

end Rostered

end CompiledModule

/-! ## Types without members -/

/-- A type without fields, methods and constructors. -/
def TypeDef.Memberless (type : TypeDef) : Prop := type.fields = [] ∧ type.methods = [] ∧
      type.ctors = []

namespace Session

variable {including : Bool} {session later : Session}

/-- All fields are counted: a type that no member was counted for has none. -/
def Counted (session : Session) : Prop :=
  ∀ draft ∈ session.drafts, draft.isEmpty = true →
    session.table.types[draft.id]?.map (·.fields) = some []

theorem Moves.counted (moves : session.Moves including later) (accounted : session.Accounted)
    (counted : session.Counted) : later.Counted := by
  intro draft inside isEmpty
  cases moves with
  | code same =>
    have table : later.outline.table = session.outline.table := congrArg Session.table same
    have drafts : later.drafts.map (·.outline) = session.drafts.map (·.outline) :=
      congrArg Session.drafts same
    have inOutline : draft.outline ∈ session.drafts.map (·.outline) :=
      drafts ▸ List.mem_map_of_mem inside
    obtain ⟨before, there, alike⟩ := List.mem_map.mp inOutline
    have wasEmpty : before.outline.isEmpty = draft.outline.isEmpty := congrArg TypeDraft.isEmpty alike
    have sameId : before.outline.id = draft.outline.id := congrArg TypeDraft.id alike
    have none : session.outline.table.types[before.outline.id]?.map (·.fields) = some [] :=
      counted before there (wasEmpty.trans isEmpty)
    rwa [sameId, ← table] at none
  | @change place before changed here _ drafts id empty others =>
    rw [drafts] at inside
    obtain ⟨index, there⟩ := List.mem_iff_getElem?.mp inside
    rcases getElem?_setDraft here there with ⟨-, rfl⟩ | ⟨apart, there⟩
    · obtain ⟨wasEmpty, fields⟩ := empty isEmpty
      rw [id, fields]
      exact counted before (List.mem_of_getElem? here) wasEmpty
    · have different : before.id ≠ draft.id := fun same => apart (accounted.place_eq here there same)
      rw [others _ different]
      exact counted draft (List.mem_of_getElem? there) isEmpty
  | add _ types _ declared =>
    rcases declared draft inside with isOld | ⟨type, found, -, none⟩
    · obtain ⟨type, found, none⟩ := Option.map_eq_some_iff.mp (counted draft isOld isEmpty)
      rw [getElem?_extended types found, Option.map_some, none]
    · rw [found, Option.map_some, none]

theorem counted_openDefault (drafts : session.drafts = []) : session.openDefault.Counted := by
  intro draft inside _
  rw [openDefault] at inside ⊢
  split at inside
  · simp [drafts] at inside
  · rename_i id table defined
    obtain rfl := mem_singleton.mp inside
    rw [SymbolTable.define] at defined
    split at defined
    · cases defined
    · cases defined
      show (session.table.types ++ [defaultDef session.options])[session.table.types.length]?.map
        (·.fields) = some []
      rw [getElem?_concat_length]
      rfl

theorem counted_create {options : BuildOptions} (isClass : options.header = .singleClass)
    (autoName : Bool) : Gives (create options autoName) Counted := by
  rw [create, isClass, gives_ok]
  exact counted_openDefault rfl

/-- The implicit class that is left out has no members, at the end as before. -/
theorem HandsOver.memberless {namespaces : List String} {dropped : Option Nat}
    {first last : Session} {compiled : CompiledModule}
    (handsOver : session.HandsOver namespaces dropped first last compiled)
    (accounted : session.Accounted) (counted : session.Counted) {place : Nat}
    (isDropped : place ∈ dropped) {draft : TypeDraft} (there : last.drafts[place]? = some draft) :
    (compiled.table.definition draft.id).Memberless := by
  have closes := handsOver.closes_last
  obtain ⟨before, here, members, -⟩ := closes.drafts place draft there
  have wasEmpty : before.isEmpty = true :=
    (gives_unusedDefault session).of_ok handsOver.unused place isDropped before here
  have isEmpty : draft.isEmpty = true := by rwa [TypeDraft.isEmpty, members]
  obtain ⟨type, found, accounts⟩ := (closes.accounted accounted).accounts draft
    (mem_of_getElem? there)
  have sameId : draft.id = before.id := by
    have ids := congrArg (·[place]?) closes.ids
    simpa [there, here] using ids
  have fields : type.fields = [] := by
    have none := counted before (mem_of_getElem? here) wasEmpty
    rw [← sameId, ← getElem?_map, ← closes.fields, getElem?_map, found] at none
    exact Option.some.inj none
  have signatures : type.signatures draft.id = [] := by
    have same := accounts.signatures
    rw [accounts.empty isEmpty] at same
    exact same.nil_eq.symm
  rw [handsOver.table, SymbolTable.definition_eq found]
  exact ⟨fields, TypeDef.signatures_eq_nil.mp signatures⟩

end Session

/-! ## Builds -/

section Builds

variable {files : FileTree} {stream : TokenStream} {options : BuildOptions} {autoName : Bool}
  {result : BuildResult}

/-- The types of a module are known by their names. -/
theorem rostered_of_build (built : build files stream options autoName = .ok result) :
    result.compiled.Rostered := by
  obtain ⟨done, reached, namespaces, dropped, first, last, handsOver⟩ :=
    exists_handsOver_of_build built
  have rostered := handsOver.rostered reached.rostered
  have accounted := handsOver.closes_last.accounted reached.accounted
  have kept := (withoutDraft_sublist dropped last.drafts).map (·.id)
  refine ⟨handsOver.table ▸ rostered.table, fun type here => ?_, ?_, ?_⟩
  · have inside : type.id ∈ last.drafts.map (·.id) := by
      refine kept.subset ?_
      rw [← handsOver.ids]
      exact mem_map_of_mem here
    rw [handsOver.table]
    exact rostered.declared type.id inside
  · rw [handsOver.ids]
    exact accounted.distinct.sublist kept
  · exact ((ends_build files stream options autoName).of_ok built).inRange

/-- Only in a class file can the implicit class be left out: that of a script has a main
function. -/
theorem Build.Reached.isClass_of_unused {state : Build}
    (reached : Reached files stream options autoName state) {place : Nat}
    (unused : state.compiler.session.unusedDefault? = .ok (some place)) :
    stream.header = .singleClass := by
  have isDefault := (unusedDefault_isDefault _).of_ok unused place rfl
  obtain ⟨session, created, becomes⟩ := reached.becomes
  have sameDefault := becomes.defaultType ((gives_create _ _).of_ok created)
  rcases (defaultType_create _ _).of_ok created place (sameDefault ▸ isDefault) with isClass
    | ⟨isScript, free⟩
  · exact isClass
  · obtain ⟨again, main, createdAgain, -, defaultType, defaultMethod, layers⟩ :=
      create_script { options with header := stream.header } isScript free autoName
    have stands := reached.mainStands createdAgain defaultType defaultMethod layers
    cases unused.symm.trans (stands.unusedDefault?_eq reached.accounted)

theorem Build.Reached.counted {state : Build}
    (reached : Reached files stream options autoName state)
    (isClass : stream.header = .singleClass) : state.compiler.session.Counted := by
  obtain ⟨session, created, becomes⟩ := reached.becomes
  have kept : ∀ before after : Session, before.Accounted → before.Moves true after →
      before.Counted → after.Counted :=
    fun _ _ accounted moves counted => moves.counted accounted counted
  exact becomes.keeps_moves ((Session.gives_create _ _).of_ok created) kept
    ((Session.counted_create isClass autoName).of_ok created)

/-- Without included modules, all that a module can lack is a type that was left out. -/
theorem Session.HandsOver.supplies_or_dropped {session first last : Session}
    {namespaces : List String} {dropped : Option Nat} {compiled : CompiledModule}
    {mainClassName : String} (handsOver : session.HandsOver namespaces dropped first last compiled)
    (rostered : session.Rostered false mainClassName) (accounted : session.Accounted)
    (inRange : id < compiled.table.types.length) :
    compiled.Supplies id ∨ ∃ place ∈ dropped, ∃ draft, last.drafts[place]? = some draft ∧
      draft.id = id := by
  obtain ⟨type, found⟩ : ∃ type, compiled.table.types[id]? = some type :=
    ⟨_, getElem?_eq_getElem inRange⟩
  rw [CompiledModule.Supplies, SymbolTable.definition_eq found]
  have continues : Host.table.Continues false compiled.table :=
    handsOver.table ▸ (handsOver.rostered rostered).table
  by_cases isHost : type.origin = .host
  · exact .inl (.inl isHost)
  · have isNew : Host.table.types.length ≤ id := by
      by_contra isOld
      exact isHost ((continues.origin_eq_host_iff found).mpr (Nat.lt_of_not_le isOld))
    -- A type that joined the host types was declared, and so it has a draft.
    rcases (continues.joins id _ found isNew).origin with declared | ⟨included, -⟩
    · rw [handsOver.table] at found
      have inside := (handsOver.closes_last.accounted accounted).declared id _ found declared
      obtain ⟨draft, isDraft, rfl⟩ := mem_map.mp inside
      obtain ⟨place, here⟩ := mem_iff_getElem?.mp isDraft
      by_cases isDropped : place ∈ dropped
      · exact .inr ⟨place, isDropped, draft, here, rfl⟩
      · refine .inl (.inr ?_)
        rw [handsOver.ids]
        exact mem_map_of_mem (mem_withoutDraft.mpr ⟨place, here, isDropped⟩)
    · cases included

/-- A module that was built without includes lacks at most the implicit class. Where a build reads
no token that includes a module, each type that a definition of the module refers to, as its base or
an interface, or as the type of a field, a parameter or a result, is a host type or a type of the
module, or else, in a class file, the implicit class, where that has no members. A build that knows
only the host library can include the module if and only if its definitions refer to host types and
to types of the module only. -/
theorem references_of_lone_build (alone : ∀ state path rest,
      Build.Reached files stream options autoName state →
        state.compiler.stream ≠ .includeModule path :: rest)
    (built : build files stream options autoName = .ok result) :
    (∀ type ∈ result.compiled.types, ∀ id ∈ (result.compiled.table.definition type.id).typeIds,
      result.compiled.Supplies id ∨
        stream.header = .singleClass ∧ result.compiled.table.lookup options.mainClassName =
          some id ∧ (result.compiled.table.definition id).Memberless) ∧
      ∃ image, result.compiled.image = .ok image ∧
        ((∃ ids later, image.register Host.table = .ok (ids, later)) ↔
          result.compiled.SelfContained) := by
  have rostered := rostered_of_build built
  refine ⟨fun type here id inside => ?_, _, CompiledModule.image_eq_ok rostered.inRange,
    rostered.register_iff⟩
  obtain ⟨done, reached, namespaces, dropped, first, last, handsOver⟩ :=
    exists_handsOver_of_build built
  have lone := reached.rostered_alone alone
  have inRange := rostered.reference_inRange here inside
  have suppliedOrDropped := handsOver.supplies_or_dropped lone reached.accounted inRange
  rcases suppliedOrDropped with supplied | ⟨place, isDropped, draft, there, rfl⟩
  · exact .inl supplied
  · have isClass := reached.isClass_of_unused (handsOver.unused.trans (congrArg _ isDropped))
    have isDefault := (Session.unusedDefault_isDefault _).of_ok handsOver.unused place isDropped
    refine .inr ⟨isClass, ?_, handsOver.memberless reached.accounted (reached.counted isClass)
      isDropped there⟩
    rw [handsOver.table]
    exact (handsOver.rostered lone).lookup_implicit
      (handsOver.closes_last.defaultType.trans isDefault) there

end Builds

/-- A class file that declares a class with a method and a field of that class, and gives its
implicit class a field. -/
def completeClass : TokenStream where
  header := .singleClass
  platform := 0
  tokens :=
    [.classOpen "A" .plain .everywhere, .block true, .var "next" "A" false, .expressionEnd,
      .function "at" "Program" .plain .everywhere, .var "count" "int" false, .block true,
        .block false, .block false,
      .var "first" "A" false, .expressionEnd]

/-- Every type that the class file refers to is supplied, so the file can be included. -/
theorem completeClass_references :
    ∃ result, build (.empty []) completeClass {} false = .ok result ∧
      (∀ type ∈ result.compiled.types, ∀ id ∈ (result.compiled.table.definition type.id).typeIds,
        result.compiled.Supplies id ∨
          completeClass.header = .singleClass ∧ result.compiled.table.lookup "Program" = some id ∧
            (result.compiled.table.definition id).Memberless) ∧
      ∃ image ids later, result.compiled.image = .ok image ∧
        image.register Host.table = .ok (ids, later) := by
  obtain ⟨result, built, contained⟩ : ∃ result, build (.empty []) completeClass {} false =
      .ok result ∧ result.compiled.SelfContained := ⟨_, rfl, by decide +kernel⟩
  have ordinary : ∀ path, Token.includeModule path ∉ completeClass.tokens ∧
      Token.importLibrary path ∉ completeClass.tokens := by simp [completeClass]
  have alone : ∀ state path rest, Build.Reached (.empty []) completeClass {} false state →
      state.compiler.stream ≠ .includeModule path :: rest :=
    fun _ path rest reached => reached.includes_none ordinary path rest
  obtain ⟨references, image, isImage, included⟩ := references_of_lone_build alone built
  obtain ⟨ids, later, registered⟩ := included.mpr contained
  exact ⟨result, built, references, image, ids, later, isImage, registered⟩

/-- A class file whose implicit class gets no members, while a declared class has a field of that
type. -/
def orphanField : TokenStream where
  header := .singleClass
  platform := 0
  tokens :=
    [.classOpen "A" .plain .everywhere, .block true, .var "p" "Program" false, .expressionEnd,
      .block false]

/-- A module that was built without includes may lack a type that it refers to. Nothing is reported,
and no other build can include the module. -/
theorem orphanField_lacks_class :
    ∃ result image, build (.empty []) orphanField {} false = .ok result ∧ result.diagnostics = [] ∧
      result.compiled.types.map (fun type => result.compiled.table.nameOf type.id) = ["A"] ∧
        ¬result.compiled.SelfContained ∧ result.compiled.image = .ok image ∧
          image.register Host.table = .error (.problem (.includedTypeUnknown "Program" "A")) :=
  ⟨_, _, rfl, rfl, by decide +kernel, by decide +kernel, rfl, by rfl⟩

end OnePass
