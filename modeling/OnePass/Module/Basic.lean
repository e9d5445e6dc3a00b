import OnePass.Draft.Type
import OnePass.Options.Basic

/-! # Modules

The result of a build: the symbol table as the build left it, the declared types with the bodies of
their methods, and the method where the program starts. -/

namespace OnePass

/-- A declared type with its finished methods. -/
structure ModuleType where
  id : TypeId
  bodies : List MethodBody
  deriving DecidableEq

/-- The result of a build. -/
structure CompiledModule where
  name : String
  version : String
  header : Header
  output : OutputKind
  table : SymbolTable
  types : List ModuleType
  entryPoint : Option MemberRef
  deriving DecidableEq

namespace CompiledModule

/-- The declared type with a name. -/
def typeNamed? (compiled : CompiledModule) (name : String) : Option ModuleType := do
  let id ← compiled.table.lookup name
  compiled.types.find? (·.id == id)

/-- Whether a body belongs to a method with a name; constructors are called `.ctor`. -/
def isNamed (compiled : CompiledModule) (name : String) (body : MethodBody) : Except Fault Bool :=
  match body.slot with
  | .method ref => do return (← compiled.table.method ref).name == name
  | .ctor _ => .ok (name == ".ctor")

/-- The first body of a method with a name, on the type with a name. -/
def methodBody? (compiled : CompiledModule) (typeName method : String) : Except Fault (Option MethodBody) :=
  match compiled.typeNamed? typeName with
  | none => .ok none
  | some type => type.bodies.findM? (compiled.isNamed method)

end CompiledModule

end OnePass
