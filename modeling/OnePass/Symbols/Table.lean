import OnePass.Problem

/-! # The symbol table

All types that a build knows: those of the host library, of included modules, and those declared so
far. A type is identified by its `TypeId`, the position of its definition; a member by the id of its
owner and its position among the owner's members of that kind. Definitions are only ever added at
the end, so an id keeps its meaning.

Reading a definition that does not exist is a `Fault`. -/

namespace OnePass

/-- The position of a type in its symbol table: a 32-bit id, exactly so for fewer than `2 ^ 32`
types. -/
abbrev TypeId : Type := Nat

/-- A field, method or constructor: its owner, and its position among the owner's members of that
kind. -/
structure MemberRef where
  /-- the type that declares the member -/
  owner : TypeId
  /-- the position among the owner's fields, methods or constructors -/
  index : Nat
  deriving DecidableEq

/-- The classes of types that operators and calls distinguish. -/
inductive TypeCategory where
  | void
  | object
  | bool
  | char
  | sbyte
  | int16
  | int32
  | int64
  | single
  | double
  | string
  | reference
  | value
  | interface
  deriving DecidableEq, Repr

/-- The name of a category. -/
def TypeCategory.name : TypeCategory → String
  | void => "Void"
  | object => "Object"
  | bool => "Bool"
  | char => "Char"
  | sbyte => "SByte"
  | int16 => "Int16"
  | int32 => "Int32"
  | int64 => "Int64"
  | single => "Single"
  | double => "Double"
  | string => "String"
  | reference => "Reference"
  | value => "Value"
  | interface => "Interface"

/-- Whether values of a category are numbers, characters included. -/
def TypeCategory.isNumber : TypeCategory → Bool
  | char | sbyte | int16 | int32 | int64 | single | double => true
  | _ => false

/-- Where a type comes from. -/
inductive Origin where
  | host
  | declared
  | included
  deriving DecidableEq, Repr

/-- The name of an origin. -/
def Origin.name : Origin → String
  | host => "Host"
  | declared => "Declared"
  | included => "Included"

/-- A field of a type. -/
structure FieldDef where
  name : String
  type : TypeId
  isStatic : Bool
  isFinal : Bool
  visibility : Visibility
  deriving DecidableEq

/-- Marks on a method. -/
structure MethodAttrs where
  /-- the program starts here -/
  entryPoint : Bool := false
  /-- a free function of a script -/
  script : Bool := false
  deriving DecidableEq

/-- A method of a type. -/
structure MethodDef where
  name : String
  params : List TypeId
  result : TypeId
  isStatic : Bool
  isVirtual : Bool
  visibility : Visibility
  attrs : MethodAttrs
  deriving DecidableEq

/-- A constructor of a type. -/
structure CtorDef where
  params : List TypeId
  visibility : Visibility
  deriving DecidableEq

/-- A type and its members. -/
structure TypeDef where
  name : String
  /-- empty for the global namespace -/
  space : String
  kind : ClassKind
  visibility : Visibility
  category : TypeCategory
  origin : Origin
  base : Option TypeId
  interfaces : List TypeId
  fields : List FieldDef
  methods : List MethodDef
  ctors : List CtorDef
  deriving DecidableEq

/-- The name of a type within a namespace. -/
def qualified (space name : String) : String := if space == "" then name else space ++ "." ++ name

namespace TypeDef

/-- The category of a declared type of some kind. -/
def categoryOf : ClassKind → TypeCategory
  | .interface => .interface
  | .struct | .enum => .value
  | _ => .reference

/-- A type without members. -/
def bare (name space : String) (kind : ClassKind) (origin : Origin) : TypeDef where
  name := name
  space := space
  kind := kind
  visibility := .everywhere
  category := categoryOf kind
  origin := origin
  base := none
  interfaces := []
  fields := []
  methods := []
  ctors := []

/-- The name under which the type is known. -/
def fullName (type : TypeDef) : String := qualified type.space type.name

/-- Whether the type is an interface. -/
def isInterface (type : TypeDef) : Bool := type.kind == .interface

/-- Whether the type has static members only. -/
def isStatic (type : TypeDef) : Bool := type.kind == .static

end TypeDef

/-- The host types that the compiler itself refers to. -/
structure WellKnown where
  object : TypeId := 0
  void : TypeId := 0
  boolean : TypeId := 0
  char : TypeId := 0
  sbyte : TypeId := 0
  int16 : TypeId := 0
  int32 : TypeId := 0
  int64 : TypeId := 0
  single : TypeId := 0
  double : TypeId := 0
  string : TypeId := 0
  array : TypeId := 0
  math : TypeId := 0
  deriving DecidableEq

/-- The types that a build knows. -/
structure SymbolTable where
  /-- the definitions, by id -/
  types : List TypeDef
  /-- full names and aliases, the latest first -/
  names : List (String × TypeId)
  wellKnown : WellKnown
  deriving DecidableEq

namespace SymbolTable

/-- The table without types. -/
def empty : SymbolTable := ⟨[], [], {}⟩

/-- The type with a full name or alias. -/
def lookup (table : SymbolTable) (name : String) : Option TypeId := table.names.lookup name

/-- Adds a type under its full name, which must be free. -/
def define (table : SymbolTable) (type : TypeDef) : Except Problem (TypeId × SymbolTable) :=
  match table.lookup type.fullName with
  | some _ => .error (.typeAlreadyDefined type.fullName)
  | none =>
    .ok (table.types.length,
      { table with
        types := table.types ++ [type]
        names := (type.fullName, table.types.length) :: table.names })

/-- Gives a type another name. -/
def addAlias (table : SymbolTable) (name : String) (id : TypeId) : SymbolTable :=
  { table with names := (name, id) :: table.names }

/-- The type that a name means where the given namespaces are open: the name itself wins, then the
first namespace that has it. -/
def resolveType (table : SymbolTable) (name : String) (namespaces : List String) : Option TypeId :=
  (table.lookup name).or (namespaces.findSome? fun space => table.lookup (space ++ "." ++ name))

/-! ## Definitions by reference -/

/-- The definition of a type. -/
def get (table : SymbolTable) (id : TypeId) : Except Fault TypeDef :=
  match table.types[id]? with
  | some type => .ok type
  | none => .error .noSuchType

/-- Changes the definition of a type. -/
def update (table : SymbolTable) (id : TypeId) (change : TypeDef → TypeDef) : Except Fault SymbolTable :=
  if id < table.types.length then .ok { table with types := table.types.modify id change }
  else .error .noSuchType

/-- The member at some position. -/
def member {α : Type} (members : List α) (index : Nat) : Except Fault α :=
  match members[index]? with
  | some found => .ok found
  | none => .error .noSuchMember

/-- The definition of a field. -/
def field (table : SymbolTable) (ref : MemberRef) : Except Fault FieldDef := do
  member (← table.get ref.owner).fields ref.index

/-- The definition of a method. -/
def method (table : SymbolTable) (ref : MemberRef) : Except Fault MethodDef := do
  member (← table.get ref.owner).methods ref.index

/-- The definition of a constructor. -/
def ctor (table : SymbolTable) (ref : MemberRef) : Except Fault CtorDef := do
  member (← table.get ref.owner).ctors ref.index

/-- The full name of a type. -/
def typeName (table : SymbolTable) (id : TypeId) : Except Fault String := do
  return (← table.get id).fullName

/-- The category of a type. -/
def category (table : SymbolTable) (id : TypeId) : Except Fault TypeCategory := do
  return (← table.get id).category

/-- Whether a type has no values. -/
def isVoid (table : SymbolTable) (id : TypeId) : Except Fault Bool := do
  return (← table.category id) == .void

/-! ## Adding members -/

/-- Adds a field to a type. -/
def addField (table : SymbolTable) (owner : TypeId) (field : FieldDef) : Except Fault (MemberRef × SymbolTable) := do
  let type ← table.get owner
  let changed ← table.update owner fun type => { type with fields := type.fields ++ [field] }
  return (⟨owner, type.fields.length⟩, changed)

/-- Adds a method to a type. -/
def addMethod (table : SymbolTable) (owner : TypeId) (method : MethodDef) :
    Except Fault (MemberRef × SymbolTable) := do
  let type ← table.get owner
  let changed ← table.update owner fun type => { type with methods := type.methods ++ [method] }
  return (⟨owner, type.methods.length⟩, changed)

/-- Adds a constructor to a type. -/
def addCtor (table : SymbolTable) (owner : TypeId) (ctor : CtorDef) : Except Fault (MemberRef × SymbolTable) := do
  let type ← table.get owner
  let changed ← table.update owner fun type => { type with ctors := type.ctors ++ [ctor] }
  return (⟨owner, type.ctors.length⟩, changed)

/-- Adds a parameter to a method. -/
def addMethodParam (table : SymbolTable) (ref : MemberRef) (type : TypeId) : Except Fault SymbolTable := do
  let _ ← table.method ref
  table.update ref.owner fun owner =>
    { owner with methods := owner.methods.modify ref.index fun m => { m with params := m.params ++ [type] } }

/-- Adds a parameter to a constructor. -/
def addCtorParam (table : SymbolTable) (ref : MemberRef) (type : TypeId) : Except Fault SymbolTable := do
  let _ ← table.ctor ref
  table.update ref.owner fun owner =>
    { owner with ctors := owner.ctors.modify ref.index fun c => { c with params := c.params ++ [type] } }

/-- The type of a literal value. -/
def literalType (table : SymbolTable) : Literal → TypeId
  | .null => table.wellKnown.object
  | .int _ => table.wellKnown.int32
  | .string _ => table.wellKnown.string
  | .sbyte _ => table.wellKnown.sbyte
  | .bool _ => table.wellKnown.boolean
  | .char _ => table.wellKnown.char
  | .float _ => table.wellKnown.single
  | .short _ => table.wellKnown.int16
  | .long _ => table.wellKnown.int64
  | .double _ => table.wellKnown.double

end SymbolTable

end OnePass
