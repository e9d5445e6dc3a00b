import OnePass.Module.Image

/-! # Including modules

The types of a module image become known to a symbol table as a whole or not at all. First the names
are checked: every type of the image must be new, and every type that it refers to must be known or
belong to the image. Then all types are defined, so that members may refer to types that come later,
and last the members are filled in.

The table is changed in place: what was done before a failure stays done. -/

namespace OnePass

namespace TypeImage

/-- The names of the types that a type refers to, in order. -/
def references (type : TypeImage) : List String :=
  type.base.toList ++ type.interfaces ++ type.fields.map (·.type) ++
    type.methods.flatMap (fun method => method.params ++ [method.result]) ++
    type.ctors.flatMap (·.params)

/-- The definition of an included type before its members are filled in. -/
def bareDef (type : TypeImage) : TypeDef :=
  { TypeDef.bare type.name type.space type.kind .included with visibility := type.visibility }

end TypeImage

namespace ModuleImage

/-- Refuses a type whose name is taken, in the table or earlier in the image. -/
def checkNames (table : SymbolTable) : (seen : List String) → List TypeImage → Except Problem Unit
  | _, [] => .ok ()
  | seen, type :: rest =>
    if (table.lookup type.fullName).isSome || seen.contains type.fullName then
      .error (.includedTypeAlreadyDefined type.fullName)
    else checkNames table (type.fullName :: seen) rest

/-- Refuses a reference to a type that neither the table nor the image has. -/
def checkReferences (table : SymbolTable) (own : List String) : List TypeImage → Except Problem Unit
  | [] => .ok ()
  | type :: rest =>
    match type.references.find? fun name => (table.lookup name).isNone && !own.contains name with
    | some name => .error (.includedTypeUnknown name type.fullName)
    | none => checkReferences table own rest

/-- Defines the types of an image, without members. -/
def defineTypes : List TypeImage → EStateM Failure SymbolTable (List TypeId)
  | [] => return []
  | type :: rest => do
    match (← get).define type.bareDef with
    | .error _ => throw (.problem (.includedTypeAlreadyDefined type.fullName))
    | .ok (id, table) =>
      set table
      let ids ← defineTypes rest
      return id :: ids

/-- The type with a name, which `owner` refers to. -/
def resolve (table : SymbolTable) (owner name : String) : Except Problem TypeId :=
  match table.lookup name with
  | some id => .ok id
  | none => .error (.includedTypeUnknown name owner)

/-- The definition of a field. -/
def fieldDef (table : SymbolTable) (owner : String) (field : FieldImage) : Except Problem FieldDef := do
  let type ← resolve table owner field.type
  return ⟨field.name, type, field.isStatic, field.isFinal, field.visibility⟩

/-- The definition of a method. -/
def methodDef (table : SymbolTable) (owner : String) (method : MethodImage) : Except Problem MethodDef := do
  let params ← method.params.mapM (resolve table owner)
  let result ← resolve table owner method.result
  return ⟨method.name, params, result, method.isStatic, method.isVirtual, method.visibility, method.attrs⟩

/-- The definition of a constructor. -/
def ctorDef (table : SymbolTable) (owner : String) (ctor : CtorImage) : Except Problem CtorDef := do
  let params ← ctor.params.mapM (resolve table owner)
  return ⟨params, ctor.visibility⟩

/-- The definition of an included type with its members. -/
def fullDef (table : SymbolTable) (type : TypeImage) : Except Problem TypeDef := do
  let base ← type.base.mapM (resolve table type.fullName)
  let interfaces ← type.interfaces.mapM (resolve table type.fullName)
  let fields ← type.fields.mapM (fieldDef table type.fullName)
  let methods ← type.methods.mapM (methodDef table type.fullName)
  let ctors ← type.ctors.mapM (ctorDef table type.fullName)
  return { type.bareDef with
    base := base
    interfaces := interfaces
    fields := fields
    methods := methods
    ctors := ctors }

/-- Work that needs no table of its own; a problem stops the registration. -/
def orStop {α : Type} : Except Problem α → EStateM Failure SymbolTable α
  | .ok result => return result
  | .error problem => throw (.problem problem)

/-- Fills in the members of included types. -/
def fillTypes : List (TypeImage × TypeId) → EStateM Failure SymbolTable Unit
  | [] => return
  | (type, id) :: rest => do
    let full ← orStop (fullDef (← get) type)
    match (← get).update id fun _ => full with
    | .error fault => throw (.fault fault)
    | .ok table =>
      set table
      fillTypes rest

/-- Makes the types of an image known to the symbol table, in place, and tells their ids. -/
def install (image : ModuleImage) : EStateM Failure SymbolTable (List TypeId) := do
  let table ← get
  orStop (checkNames table [] image.types)
  orStop (checkReferences table (image.types.map (·.fullName)) image.types)
  let ids ← defineTypes image.types
  fillTypes (image.types.zip ids)
  return ids

/-- Makes the types of an image known to a symbol table, and tells their ids. -/
def register (image : ModuleImage) (table : SymbolTable) : Except Failure (List TypeId × SymbolTable) :=
  match image.install.run table with
  | .ok ids later => .ok (ids, later)
  | .error failure _ => .error failure

end ModuleImage

end OnePass
