import OnePass.Module.Basic

/-! # Module images

A `ModuleImage` is a module as its file holds it: every type is named in full, so that the module
can be included into any symbol table. `CompiledModule.image` gives the image of a module. -/

namespace OnePass

/-- A member: the full name of its owner, and its position there. -/
structure MemberImage where
  owner : String
  index : Nat
  deriving DecidableEq

/-- A field, its type named in full. -/
structure FieldImage where
  name : String
  type : String
  isStatic : Bool
  isFinal : Bool
  visibility : Visibility
  deriving DecidableEq

/-- A method, its types named in full. -/
structure MethodImage where
  name : String
  params : List String
  result : String
  isStatic : Bool
  isVirtual : Bool
  visibility : Visibility
  attrs : MethodAttrs
  deriving DecidableEq

/-- A constructor, its types named in full. -/
structure CtorImage where
  params : List String
  visibility : Visibility
  deriving DecidableEq

/-- The method or constructor that a body belongs to, by its position in the type. -/
inductive SlotImage where
  | method (index : Nat)
  | ctor (index : Nat)
  deriving DecidableEq

/-- An operand, its types named in full. -/
inductive OperandImage where
  | none
  | i4 (value : Int32)
  | i8 (value : Int64)
  | r4 (bits : UInt32)
  | r8 (bits : UInt64)
  | string (value : String)
  | loc (index : UInt16)
  | arg (index : UInt16)
  | field (ref : MemberImage)
  | method (ref : MemberImage)
  | ctor (ref : MemberImage)
  | type (name : String)
  | target (position : UInt32)
  deriving DecidableEq

/-- An instruction, its types named in full. -/
structure InstructionImage where
  opcode : OpCode
  operand : OperandImage
  deriving DecidableEq

/-- The body of a method. -/
structure BodyImage where
  slot : SlotImage
  locals : List String
  code : List InstructionImage
  deriving DecidableEq

/-- A type of a module. -/
structure TypeImage where
  name : String
  space : String
  kind : ClassKind
  visibility : Visibility
  base : Option String
  interfaces : List String
  fields : List FieldImage
  methods : List MethodImage
  ctors : List CtorImage
  bodies : List BodyImage
  deriving DecidableEq

/-- The name under which the type is known. -/
def TypeImage.fullName (type : TypeImage) : String := qualified type.space type.name

/-- A module as its file holds it. -/
structure ModuleImage where
  name : String
  version : String
  header : Header
  output : OutputKind
  entryPoint : Option MemberImage
  types : List TypeImage
  deriving DecidableEq

/-! ## The image of a module -/

namespace SymbolTable

/-- A member, with the full name of its owner. -/
def memberImage (table : SymbolTable) (ref : MemberRef) : Except Fault MemberImage := do
  return ⟨← table.typeName ref.owner, ref.index⟩

/-- A field, with the full name of its type. -/
def fieldImage (table : SymbolTable) (field : FieldDef) : Except Fault FieldImage := do
  return ⟨field.name, ← table.typeName field.type, field.isStatic, field.isFinal, field.visibility⟩

/-- A method, with the full names of its types. -/
def methodImage (table : SymbolTable) (method : MethodDef) : Except Fault MethodImage := do
  let params ← method.params.mapM table.typeName
  let result ← table.typeName method.result
  return ⟨method.name, params, result, method.isStatic, method.isVirtual, method.visibility, method.attrs⟩

/-- A constructor, with the full names of its types. -/
def ctorImage (table : SymbolTable) (ctor : CtorDef) : Except Fault CtorImage := do
  return ⟨← ctor.params.mapM table.typeName, ctor.visibility⟩

/-- An operand, with the full names of its types. -/
def operandImage (table : SymbolTable) : Operand → Except Fault OperandImage
  | .none => .ok .none
  | .i4 value => .ok (.i4 value)
  | .i8 value => .ok (.i8 value)
  | .r4 bits => .ok (.r4 bits)
  | .r8 bits => .ok (.r8 bits)
  | .string value => .ok (.string value)
  | .loc index => .ok (.loc index)
  | .arg index => .ok (.arg index)
  | .field ref => do return .field (← table.memberImage ref)
  | .method ref => do return .method (← table.memberImage ref)
  | .ctor ref => do return .ctor (← table.memberImage ref)
  | .type id => do return .type (← table.typeName id)
  | .target position => .ok (.target position)

/-- An instruction, with the full names of its types. -/
def instructionImage (table : SymbolTable) (instruction : Instruction) : Except Fault InstructionImage := do
  return ⟨instruction.opcode, ← table.operandImage instruction.operand⟩

/-- The position of a method or constructor in its type. -/
def slotImage : MethodSlot → SlotImage
  | .method ref => .method ref.index
  | .ctor ref => .ctor ref.index

/-- A body, with the full names of its types. -/
def bodyImage (table : SymbolTable) (body : MethodBody) : Except Fault BodyImage := do
  let locals ← body.locals.mapM table.typeName
  let code ← body.code.mapM table.instructionImage
  return ⟨slotImage body.slot, locals, code⟩

/-- A type with its bodies, with the full names of its types. -/
def typeImage (table : SymbolTable) (type : ModuleType) : Except Fault TypeImage := do
  let definition ← table.get type.id
  let base ← definition.base.mapM table.typeName
  let interfaces ← definition.interfaces.mapM table.typeName
  let fields ← definition.fields.mapM table.fieldImage
  let methods ← definition.methods.mapM table.methodImage
  let ctors ← definition.ctors.mapM table.ctorImage
  let bodies ← type.bodies.mapM table.bodyImage
  return ⟨definition.name, definition.space, definition.kind, definition.visibility, base, interfaces, fields,
    methods, ctors, bodies⟩

end SymbolTable

/-- The image of a module: every type is replaced by its full name. -/
def CompiledModule.image (compiled : CompiledModule) : Except Fault ModuleImage := do
  let entryPoint ← compiled.entryPoint.mapM compiled.table.memberImage
  let types ← compiled.types.mapM compiled.table.typeImage
  return ⟨compiled.name, compiled.version, compiled.header, compiled.output, entryPoint, types⟩

end OnePass
