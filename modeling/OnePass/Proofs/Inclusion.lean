import Mathlib
import OnePass.Module.Register

/-! # Modules are included as a whole or not at all

`ModuleImage.install` checks an image first and then changes the table twice: it defines all types
and fills in their members. The checks and the two changes have to agree, since a change that fails
leaves a table behind that has only some of the types.

* `ModuleImage.FitsInto` — what an image has to meet, in terms of its names only.
* `TypeImage.Resolves` — a definition that says what the image of its type says, with ids in the
  place of names.
* `ModuleImage.Installed` — the table after an image was included.

The main statement is `ModuleImage.install_all_or_nothing`: an image is included exactly when it
fits, and a table in which an image could not be included is the table before. -/

namespace OnePass

open List

/-! ## What an image has to meet -/

/-- The types that a type refers to: its base and interfaces, and the types of its fields,
parameters and results. -/
inductive TypeImage.Mentions (type : TypeImage) (name : String) : Prop
  | base (here : name ∈ type.base)
  | interface (here : name ∈ type.interfaces)
  | field {field : FieldImage} (member : field ∈ type.fields) (here : field.type = name)
  | param {method : MethodImage} (member : method ∈ type.methods) (here : name ∈ method.params)
  | result {method : MethodImage} (member : method ∈ type.methods) (here : method.result = name)
  | ctorParam {ctor : CtorImage} (member : ctor ∈ type.ctors) (here : name ∈ ctor.params)

theorem TypeImage.mem_references {type : TypeImage} {name : String} : name ∈ type.references ↔
      type.Mentions name := by
  simp only [references, mem_append, Option.mem_toList, mem_map, mem_flatMap, mem_singleton]
  constructor
  · rintro ((((base | interface) | ⟨field, member, here⟩) | ⟨method, member, param | result⟩)
      | ⟨ctor, member, here⟩)
    · exact .base base
    · exact .interface interface
    · exact .field member here
    · exact .param member param
    · exact .result member result.symm
    · exact .ctorParam member here
  · intro mentions
    cases mentions with
    | base here => exact .inl (.inl (.inl (.inl here)))
    | interface here => exact .inl (.inl (.inl (.inr here)))
    | field member here => exact .inl (.inl (.inr ⟨_, member, here⟩))
    | param member here => exact .inl (.inr ⟨_, member, .inl here⟩)
    | result member here => exact .inl (.inr ⟨_, member, .inr here.symm⟩)
    | ctorParam member here => exact .inr ⟨_, member, here⟩

/-- The types of the image have names of their own, and refer to types of the table or of the image
only. -/
structure ModuleImage.FitsInto (image : ModuleImage) (table : SymbolTable) : Prop where
  distinct : (image.types.map (·.fullName)).Nodup
  free : ∀ type ∈ image.types, table.lookup type.fullName = none
  known : ∀ type ∈ image.types, ∀ name, type.Mentions name →
    (∃ id, table.lookup name = some id) ∨ ∃ other ∈ image.types, other.fullName = name

/-! ## Definitions with ids for names -/

section Resolves

variable (lookup : String → Option TypeId)

/-- A name and the id that it has. -/
def Means (name : String) (id : TypeId) : Prop := lookup name = some id

/-- The definition of a field says what its image says. -/
structure FieldImage.Resolves (image : FieldImage) (field : FieldDef) : Prop where
  name : field.name = image.name
  type : Means lookup image.type field.type
  isStatic : field.isStatic = image.isStatic
  isFinal : field.isFinal = image.isFinal
  visibility : field.visibility = image.visibility

/-- The definition of a method says what its image says. -/
structure MethodImage.Resolves (image : MethodImage) (method : MethodDef) : Prop where
  name : method.name = image.name
  params : List.Forall₂ (Means lookup) image.params method.params
  result : Means lookup image.result method.result
  isStatic : method.isStatic = image.isStatic
  isVirtual : method.isVirtual = image.isVirtual
  visibility : method.visibility = image.visibility
  attrs : method.attrs = image.attrs

/-- The definition of a constructor says what its image says. -/
structure CtorImage.Resolves (image : CtorImage) (ctor : CtorDef) : Prop where
  params : List.Forall₂ (Means lookup) image.params ctor.params
  visibility : ctor.visibility = image.visibility

/-- The definition of an included type says what its image says, member by member. -/
structure TypeImage.Resolves (image : TypeImage) (type : TypeDef) : Prop where
  name : type.name = image.name
  space : type.space = image.space
  kind : type.kind = image.kind
  visibility : type.visibility = image.visibility
  category : type.category = TypeDef.categoryOf image.kind
  origin : type.origin = .included
  base : Option.Rel (Means lookup) image.base type.base
  interfaces : List.Forall₂ (Means lookup) image.interfaces type.interfaces
  fields : List.Forall₂ (FieldImage.Resolves lookup) image.fields type.fields
  methods : List.Forall₂ (MethodImage.Resolves lookup) image.methods type.methods
  ctors : List.Forall₂ (CtorImage.Resolves lookup) image.ctors type.ctors

end Resolves

/-- Names that the types of an image are known by, after their definition: each has the id beside
it, no earlier name means anything else, and no other name means anything new. -/
structure SymbolTable.Named (table : SymbolTable) (types : List TypeImage) (ids : List TypeId)
    (later : SymbolTable) : Prop where
  kept : ∀ name id, table.lookup name = some id → later.lookup name = some id
  own : List.Forall₂ (fun type id => later.lookup type.fullName = some id) types ids
  others : ∀ name, table.lookup name = none → (∀ type ∈ types, type.fullName ≠ name) →
    later.lookup name = none
  /-- The new entries stand in front of the old ones. -/
  entries : ∃ added, later.names = added ++ table.names ∧ ∀ entry ∈ added, entry.2 ∈ ids
  wellKnown : later.wellKnown = table.wellKnown

/-- The table after an image was included: its types follow those of the table, in order. -/
structure ModuleImage.Installed (image : ModuleImage) (table : SymbolTable) (ids : List TypeId)
    (later : SymbolTable) : Prop where
  places : ids = range' table.types.length image.types.length
  types : ∃ added, later.types = table.types ++ added ∧
    List.Forall₂ (TypeImage.Resolves later.lookup) image.types added
  named : table.Named image.types ids later

/-! ## The checks -/

namespace ModuleImage

variable {table : SymbolTable} {types : List TypeImage} {image : ModuleImage} {type : TypeImage}

theorem checkNames_eq_ok {seen : List String} :
    checkNames table seen types = .ok () ↔
      (∀ type ∈ types, table.lookup type.fullName = none ∧ type.fullName ∉ seen) ∧
        (types.map (·.fullName)).Nodup := by
  induction types generalizing seen with
  | nil => simp [checkNames]
  | cons type types ih =>
    rw [checkNames]
    by_cases taken : (table.lookup type.fullName).isSome || seen.contains type.fullName
    · -- A name that is taken, or was seen before, contradicts what the right side says of the first type.
      rw [if_pos taken]
      constructor
      · intro refused
        cases refused
      · rintro ⟨each, -⟩
        obtain ⟨free, unseen⟩ := each type mem_cons_self
        simp [free, unseen] at taken
    · rw [if_neg taken, ih]
      simp only [Bool.or_eq_true, Option.isSome_iff_ne_none, contains_iff_mem, not_or, not_not] at taken
      rw [forall_mem_cons, map_cons, nodup_cons, mem_map]
      constructor
      · rintro ⟨each, distinct⟩
        refine ⟨⟨taken, fun other here => ⟨(each other here).1, fun old =>
          (each other here).2 ?_⟩⟩, ?_, distinct⟩
        · exact mem_cons_of_mem _ old
        · rintro ⟨other, here, same⟩
          exact (each other here).2 (same ▸ mem_cons_self)
      · rintro ⟨⟨-, each⟩, different, distinct⟩
        refine ⟨fun other here => ⟨(each other here).1, fun old => ?_⟩, distinct⟩
        rcases mem_cons.mp old with same | old
        · exact different ⟨other, here, same⟩
        · exact (each other here).2 old

theorem checkReferences_eq_ok {own : List String} :
    checkReferences table own types = .ok () ↔
      ∀ type ∈ types, ∀ name ∈ type.references, (∃ id, table.lookup name = some id) ∨ name ∈ own := by
  induction types with
  | nil => simp [checkReferences]
  | cons type types ih =>
    rw [checkReferences, forall_mem_cons, ← ih]
    cases found : type.references.find? fun name => (table.lookup name).isNone && !own.contains name with
    | some name =>
      have unknown := find?_some found
      have here := mem_of_find?_eq_some found
      simp only [Bool.and_eq_true, Option.isNone_iff_eq_none, Bool.not_eq_true', contains_eq_mem,
        decide_eq_false_iff_not] at unknown
      constructor
      · intro refused
        cases refused
      · rintro ⟨each, -⟩
        rcases each name here with ⟨id, means⟩ | mine
        · rw [unknown.1] at means
          cases means
        · exact absurd mine unknown.2
    | none =>
      refine (and_iff_right fun name here => ?_).symm
      have known := find?_eq_none.mp found name here
      by_cases mine : name ∈ own
      · exact .inr mine
      · have means : table.lookup name ≠ none := by simpa [mine] using known
        exact .inl (Option.ne_none_iff_exists'.mp means)

theorem checks_eq_ok_iff :
    checkNames table [] image.types = .ok () ∧
      checkReferences table (image.types.map (·.fullName)) image.types = .ok () ↔
        image.FitsInto table := by
  rw [checkNames_eq_ok, checkReferences_eq_ok]
  constructor
  · rintro ⟨⟨free, distinct⟩, known⟩
    refine ⟨distinct, fun type here => (free type here).1, fun type here name mentions => ?_⟩
    have inside := known type here name (TypeImage.mem_references.mpr mentions)
    rwa [mem_map] at inside
  · intro fits
    refine ⟨⟨fun type here => ⟨fits.free type here, not_mem_nil⟩, fits.distinct⟩,
      fun type here name inside => ?_⟩
    rw [mem_map]
    exact fits.known type here name (TypeImage.mem_references.mp inside)

/-! ## Defining the types -/

/-- The table after one type was defined. -/
def withType (table : SymbolTable) (type : TypeImage) : SymbolTable :=
  { table with
    types := table.types ++ [type.bareDef]
    names := (type.fullName, table.types.length) :: table.names }

theorem define_bareDef (free : table.lookup type.fullName = none) :
    table.define type.bareDef = .ok (table.types.length, withType table type) := by
  have same : type.bareDef.fullName = type.fullName := rfl
  rw [SymbolTable.define, same, free, withType]

/-- A type that is defined changes what its name means and nothing else. -/
theorem lookup_withType (type : TypeImage) (name : String) : (withType table type).lookup name =
    if name = type.fullName then some table.types.length else table.lookup name := by
  rw [SymbolTable.lookup, withType, lookup_cons]
  by_cases same : name = type.fullName
  · simp [same]
  · have differs : (name == type.fullName) = false := by simpa using same
    rw [differs, if_neg same]
    rfl

theorem named_cons {ids : List TypeId} {later : SymbolTable}
    (free : table.lookup type.fullName = none)
    (named : (withType table type).Named types ids later) : table.Named (type :: types)
      (table.types.length :: ids) later := by
  have mine : (withType table type).lookup type.fullName = some table.types.length := by
    rw [lookup_withType, if_pos rfl]
  refine ⟨fun name id found => named.kept name id ?_, .cons (named.kept _ _ mine) named.own, ?_, ?_,
    named.wellKnown⟩
  · have other : name ≠ type.fullName := by
      rintro rfl
      rw [free] at found
      cases found
    rw [lookup_withType, if_neg other]
    exact found
  · intro name unknown absent
    rw [forall_mem_cons] at absent
    refine named.others name ?_ absent.2
    rw [lookup_withType, if_neg absent.1.symm]
    exact unknown
  · obtain ⟨added, entries, inIds⟩ := named.entries
    refine ⟨added ++ [(type.fullName, table.types.length)], by simp [entries, withType],
      fun entry here => ?_⟩
    rcases mem_append.mp here with old | new
    · exact mem_cons_of_mem _ (inIds entry old)
    · rw [mem_singleton.mp new]
      exact mem_cons_self

/-- Where the names are free and distinct, all types are defined behind those of the table. -/
theorem defineTypes_eq_ok (free : ∀ type ∈ types, table.lookup type.fullName = none)
    (distinct : (types.map (·.fullName)).Nodup) :
    ∃ later, defineTypes types table = .ok (range' table.types.length types.length) later ∧
      later.types = table.types ++ types.map (·.bareDef) ∧
      table.Named types (range' table.types.length types.length) later := by
  induction types generalizing table with
  | nil =>
    refine ⟨table, rfl, by simp, fun _ _ found => found, .nil, fun _ unknown _ => unknown,
      ⟨[], rfl, by simp⟩, rfl⟩
  | cons type types ih =>
    rw [forall_mem_cons] at free
    rw [map_cons, nodup_cons, mem_map] at distinct
    obtain ⟨freeHere, freeRest⟩ := free
    obtain ⟨different, distinctRest⟩ := distinct
    have ids : range' table.types.length (type :: types).length =
        table.types.length :: range' (withType table type).types.length types.length := by
      rw [length_cons, range'_succ, withType, length_append, length_singleton]
    -- None of the others has the name of the first, so their names are still free.
    have freeLater : ∀ other ∈ types, (withType table type).lookup other.fullName = none := by
      intro other here
      rw [lookup_withType, if_neg fun same => different ⟨other, here, same⟩]
      exact freeRest other here
    obtain ⟨later, rest, laterTypes, named⟩ := ih freeLater distinctRest
    rw [ids]
    refine ⟨later, ?_, ?_, named_cons freeHere named⟩
    · simp only [defineTypes, bind, EStateM.bind, MonadState.get, getThe, MonadStateOf.get,
        EStateM.get, define_bareDef freeHere, MonadStateOf.set, EStateM.set, rest, pure, EStateM.pure]
    · rw [laterTypes, withType, append_assoc, singleton_append, map_cons]

/-! ## Filling in the members -/

/-- A map of lists that succeeds on every element relates the list to its results. -/
theorem mapM_forall₂ {α β ε : Type} {f : α → Except ε β} {R : α → β → Prop} {list : List α}
    (each : ∀ a ∈ list, ∃ b, f a = .ok b ∧ R a b) :
    ∃ results, list.mapM f = .ok results ∧ List.Forall₂ R list results := by
  induction list with
  | nil => exact ⟨[], rfl, .nil⟩
  | cons a list ih =>
    obtain ⟨b, first, related⟩ := each a mem_cons_self
    obtain ⟨results, rest, others⟩ := ih fun other here => each other (mem_cons_of_mem a here)
    refine ⟨b :: results, ?_, .cons related others⟩
    simp only [mapM_cons, first, rest, bind, Except.bind, pure, Except.pure]

theorem resolve_eq_ok (owner : String) {name : String} (known : ∃ id, table.lookup name = some id) :
    ∃ id, resolve table owner name = .ok id ∧ Means table.lookup name id := by
  obtain ⟨id, found⟩ := known
  exact ⟨id, by rw [resolve, found], found⟩

theorem resolveAll_eq_ok (owner : String) {names : List String}
    (known : ∀ name ∈ names, ∃ id, table.lookup name = some id) :
    ∃ ids, names.mapM (resolve table owner) = .ok ids ∧ List.Forall₂ (Means table.lookup) names ids :=
  mapM_forall₂ fun name here => resolve_eq_ok owner (known name here)

theorem fieldDef_eq_ok (owner : String) {field : FieldImage}
    (known : ∃ id, table.lookup field.type = some id) :
    ∃ definition, fieldDef table owner field = .ok definition ∧
      field.Resolves table.lookup definition := by
  obtain ⟨id, found, means⟩ := resolve_eq_ok owner known
  refine ⟨⟨field.name, id, field.isStatic, field.isFinal, field.visibility⟩, ?_,
    ⟨rfl, means, rfl, rfl, rfl⟩⟩
  simp only [fieldDef, found, bind, Except.bind, pure, Except.pure]

theorem methodDef_eq_ok (owner : String) {method : MethodImage}
    (knownParams : ∀ name ∈ method.params, ∃ id, table.lookup name = some id)
    (knownResult : ∃ id, table.lookup method.result = some id) :
    ∃ definition, methodDef table owner method = .ok definition ∧
      method.Resolves table.lookup definition := by
  obtain ⟨params, paramsOk, inParams⟩ := resolveAll_eq_ok owner knownParams
  obtain ⟨result, found, means⟩ := resolve_eq_ok owner knownResult
  refine ⟨⟨method.name, params, result, method.isStatic, method.isVirtual, method.visibility,
    method.attrs⟩, ?_, ⟨rfl, inParams, means, rfl, rfl, rfl, rfl⟩⟩
  simp only [methodDef, paramsOk, found, bind, Except.bind, pure, Except.pure]

theorem ctorDef_eq_ok (owner : String) {ctor : CtorImage}
    (known : ∀ name ∈ ctor.params, ∃ id, table.lookup name = some id) :
    ∃ definition, ctorDef table owner ctor = .ok definition ∧
      ctor.Resolves table.lookup definition := by
  obtain ⟨params, paramsOk, inParams⟩ := resolveAll_eq_ok owner known
  refine ⟨⟨params, ctor.visibility⟩, ?_, ⟨inParams, rfl⟩⟩
  simp only [ctorDef, paramsOk, bind, Except.bind, pure, Except.pure]

theorem baseDef_eq_ok (owner : String) {base : Option String}
    (known : ∀ name ∈ base, ∃ id, table.lookup name = some id) :
    ∃ id, base.mapM (resolve table owner) = .ok id ∧ Option.Rel (Means table.lookup) base id := by
  cases base with
  | none => exact ⟨none, rfl, .none⟩
  | some name =>
    obtain ⟨id, found, means⟩ := resolve_eq_ok owner (known name rfl)
    refine ⟨some id, ?_, .some means⟩
    simp only [Option.mapM, found, Functor.map, Except.map]

/-- Where all references of a type are known, its definition can be filled in. -/
theorem fullDef_eq_ok (known : ∀ name, type.Mentions name → ∃ id, table.lookup name = some id) :
    ∃ full, fullDef table type = .ok full ∧ type.Resolves table.lookup full := by
  obtain ⟨base, baseOk, inBase⟩ := baseDef_eq_ok type.fullName fun name here =>
    known name (.base here)
  obtain ⟨interfaces, interfacesOk, inInterfaces⟩ :=
    resolveAll_eq_ok type.fullName fun name here => known name (.interface here)
  obtain ⟨fields, fieldsOk, inFields⟩ := mapM_forall₂ fun field here =>
    fieldDef_eq_ok type.fullName (known field.type (.field here rfl))
  obtain ⟨methods, methodsOk, inMethods⟩ := mapM_forall₂ fun method here =>
    methodDef_eq_ok type.fullName (fun name inside => known name (.param here inside))
      (known method.result (.result here rfl))
  obtain ⟨ctors, ctorsOk, inCtors⟩ := mapM_forall₂ fun ctor here =>
    ctorDef_eq_ok type.fullName fun name inside => known name (.ctorParam here inside)
  refine ⟨{ type.bareDef with
    base := base, interfaces := interfaces, fields := fields, methods := methods, ctors := ctors }, ?_,
    ⟨rfl, rfl, rfl, rfl, rfl, rfl, inBase, inInterfaces, inFields, inMethods, inCtors⟩⟩
  simp only [fullDef, baseOk, interfacesOk, fieldsOk, methodsOk, ctorsOk, bind, Except.bind, pure,
    Except.pure]

/-- The types at the end of the table are filled in one after the other; the names stay as they
are. -/
theorem fillTypes_eq_ok {before : List TypeDef}
    (shape : table.types = before ++ types.map (·.bareDef))
    (known : ∀ type ∈ types, ∀ name, type.Mentions name → ∃ id, table.lookup name = some id) :
    ∃ added, fillTypes (types.zip (range' before.length types.length)) table =
        .ok () { table with types := before ++ added } ∧
      List.Forall₂ (TypeImage.Resolves table.lookup) types added := by
  induction types generalizing table before with
  | nil =>
    refine ⟨[], ?_, .nil⟩
    rw [append_nil, ← (shape.trans (append_nil _))]
    rfl
  | cons type types ih =>
    rw [forall_mem_cons] at known
    obtain ⟨full, fullOk, resolves⟩ := fullDef_eq_ok known.1
    have inRange : before.length < table.types.length := by
      rw [shape, map_cons, length_append, length_cons]
      omega
    -- The first of the new types is replaced, and belongs to what stands before the others.
    have filled : table.types.modify before.length (fun _ => full) =
        (before ++ [full]) ++ types.map (·.bareDef) := by
      rw [shape, map_cons, modify_eq_take_drop, take_left, drop_left, modifyHead_cons,
        append_assoc, singleton_append]
    obtain ⟨added, rest, others⟩ :=
      @ih { table with types := table.types.modify before.length fun _ => full } _ filled known.2
    refine ⟨full :: added, ?_, .cons resolves others⟩
    rw [length_append, length_singleton] at rest
    rw [length_cons, range'_succ, zip_cons_cons, fillTypes]
    simp only [bind, EStateM.bind, MonadState.get, getThe, MonadStateOf.get, EStateM.get, fullOk,
      orStop, pure, EStateM.pure, SymbolTable.update, if_pos inRange, MonadStateOf.set, EStateM.set,
        rest, append_assoc, singleton_append]

/-! ## The whole image -/

/-- An image that does not fit is refused by one of the checks, before anything was changed. -/
theorem install_of_not_fits (unfit : ¬image.FitsInto table) :
    ∃ problem, image.install.run table = .error (.problem problem) table := by
  cases names : checkNames table [] image.types with
  | error problem =>
    refine ⟨problem, ?_⟩
    simp only [install, EStateM.run, bind, EStateM.bind, MonadState.get, getThe, MonadStateOf.get,
      EStateM.get, names, orStop, throw, throwThe, MonadExceptOf.throw, EStateM.throw]
  | ok _ =>
    cases references : checkReferences table (image.types.map (·.fullName)) image.types with
    | ok _ => exact absurd (checks_eq_ok_iff.mp ⟨names, references⟩) unfit
    | error problem =>
      refine ⟨problem, ?_⟩
      simp only [install, EStateM.run, bind, EStateM.bind, MonadState.get, getThe, MonadStateOf.get,
        EStateM.get, names, references, orStop, pure, EStateM.pure, throw, throwThe,
          MonadExceptOf.throw, EStateM.throw]

theorem install_of_fits (fits : image.FitsInto table) :
    ∃ ids later, image.install.run table = .ok ids later ∧ image.Installed table ids later := by
  obtain ⟨names, references⟩ := checks_eq_ok_iff.mpr fits
  obtain ⟨next, defined, shape, named⟩ := defineTypes_eq_ok fits.free fits.distinct
  -- A reference to a type of the image is known by now, wherever that type stands.
  have known : ∀ type ∈ image.types, ∀ name, type.Mentions name →
      ∃ id, next.lookup name = some id := by
    intro type here name mentions
    rcases fits.known type here name mentions with ⟨id, found⟩ | ⟨other, inside, rfl⟩
    · exact ⟨id, named.kept name id found⟩
    · obtain ⟨position, inRange, rfl⟩ := mem_iff_getElem.mp inside
      have same := named.own.length_eq
      exact ⟨_, forall₂_iff_get.mp named.own |>.2 position inRange (same ▸ inRange)⟩
  obtain ⟨added, filled, resolves⟩ := fillTypes_eq_ok shape known
  refine ⟨_, { next with types := table.types ++ added }, ?_, ⟨rfl, ⟨added, rfl, resolves⟩, ?_⟩⟩
  · simp only [install, EStateM.run, bind, EStateM.bind, MonadState.get, getThe, MonadStateOf.get,
      EStateM.get, names, references, orStop, pure, EStateM.pure, defined, filled]
  · exact ⟨named.kept, named.own, named.others, named.entries, named.wellKnown⟩

theorem installed_of_register {ids : List TypeId} {later : SymbolTable}
    (registered : image.register table = .ok (ids, later)) : image.Installed table ids later := by
  by_cases fits : image.FitsInto table
  · obtain ⟨_, _, installed, result⟩ := install_of_fits fits
    rw [register, installed] at registered
    cases registered
    exact result
  · obtain ⟨problem, refused⟩ := install_of_not_fits fits
    rw [register, refused] at registered
    cases registered

/-- A module is included as a whole or not at all. It is included exactly when its types have new
and distinct names and refer to types of the table or of the module only. If it is refused, the
table is the one before; if it is included, the table has one definition more for each of its types,
in order, every name in it means what it means in the new table, and no earlier name means anything
else. -/
theorem install_all_or_nothing (image : ModuleImage) (table : SymbolTable) :
    ((∃ ids later, image.register table = .ok (ids, later)) ↔ image.FitsInto table) ∧
      (∀ failure left, image.install.run table = .error failure left →
        left = table ∧ (∃ problem, failure = .problem problem) ∧ image.register table = .error failure) ∧
      ∀ ids later, image.install.run table = .ok ids later →
        image.Installed table ids later ∧ image.register table = .ok (ids, later) := by
  by_cases fits : image.FitsInto table
  · obtain ⟨ids, later, installed, result⟩ := install_of_fits fits
    have registered : image.register table = .ok (ids, later) := by rw [register, installed]
    refine ⟨⟨fun _ => fits, fun _ => ⟨ids, later, registered⟩⟩, ?_, ?_⟩
    · intro failure left failed
      rw [installed] at failed
      cases failed
    · intro others last done
      rw [installed] at done
      cases done
      exact ⟨result, registered⟩
  · obtain ⟨problem, refused⟩ := install_of_not_fits fits
    have registered : image.register table = .error (.problem problem) := by rw [register, refused]
    refine ⟨⟨?_, fun here => absurd here fits⟩, ?_, ?_⟩
    · rintro ⟨ids, later, done⟩
      rw [registered] at done
      cases done
    · intro failure left failed
      rw [refused] at failed
      cases failed
      exact ⟨rfl, ⟨problem, rfl⟩, registered⟩
    · intro ids later done
      rw [refused] at done
      cases done

end ModuleImage

end OnePass
