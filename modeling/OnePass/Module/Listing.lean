import OnePass.Module.Basic

/-! # Listings of modules

A listing shows a module to a reader: its name and entry point, and every declared type with the
code of its methods, one instruction to a line. -/

namespace OnePass.CompiledModule

/-- The name of the method that a body belongs to; constructors are called `.ctor`. -/
def bodyName (compiled : CompiledModule) (body : MethodBody) : Except Fault String :=
  match body.slot with
  | .method ref => do return (← compiled.table.method ref).name
  | .ctor _ => .ok ".ctor"

/-- One line for each instruction, with its position. -/
def codeLines (code : List Instruction) : List String :=
  code.zipIdx.map fun (instruction, index) => s!"    IL_{fourDigits index}: {instruction.text}"

/-- The lines of a method. -/
def bodyLines (compiled : CompiledModule) (body : MethodBody) : Except Fault (List String) := do
  let name ← compiled.bodyName body
  return s!"  {name} ({body.locals.length} locals)" :: codeLines body.code

/-- The lines of a declared type. -/
def typeLines (compiled : CompiledModule) (type : ModuleType) : Except Fault (List String) := do
  let definition ← compiled.table.get type.id
  let bodies ← type.bodies.mapM compiled.bodyLines
  return s!"type {definition.fullName} ({definition.kind.name})" :: bodies.flatten

/-- The line of the entry point, if there is one. -/
def entryLines (compiled : CompiledModule) : Except Fault (List String) :=
  match compiled.entryPoint with
  | none => .ok []
  | some entry => do
    let owner ← compiled.table.typeName entry.owner
    let method ← compiled.table.method entry
    return [s!"entry point: {owner}.{method.name}"]

/-- The lines of a module. -/
def listing (compiled : CompiledModule) : Except Fault (List String) := do
  let entry ← compiled.entryLines
  let types ← compiled.types.mapM compiled.typeLines
  let title := s!"module {compiled.name} {compiled.version} ({compiled.header.name}, {compiled.output.name})"
  return title :: entry ++ types.flatten

end OnePass.CompiledModule
