import OnePass.Module.Image
import OnePass.Bytes.Reader
import OnePass.Bytes.Writer

/-! # Module files

A module file is `TBMD`, the version, flags that are all zero, the header, the kind of output, name
and version of the module, the optional entry point and the counted list of types. Truth values of
members are packed into a byte of flags, and every body is preceded by its length.
`ModuleImage.write` gives the bytes of an image, `ModuleImage.read` the image of some bytes. -/

namespace OnePass

/-! ## Flags -/

/-- The sum of the given bits. -/
def packFlags : List Bool → UInt8
  | [] => 0
  | flag :: rest => (if flag then 1 else 0) + 2 * packFlags rest

/-- The bit at some position. -/
def hasFlag (flags : UInt8) (position : Nat) : Bool := flags.toNat.testBit position

/-! ## Writing -/

namespace Written

/-- A member: the full name of its owner, then its position. -/
def member (ref : MemberImage) : Written := concat [string "type reference" ref.owner, length "member index" ref.index]

/-- The full name of a type. -/
def typeName (name : String) : Written := string "type reference" name

/-- A list of types. -/
def typeNames (names : List String) : Written := counted "type list" typeName names

end Written

/-- The bytes of a field. -/
def FieldImage.write (field : FieldImage) : Written :=
  .concat [.string "field name" field.name, .typeName field.type,
    .byte (packFlags [field.isStatic, field.isFinal]), .byte field.visibility.toByte]

/-- The bytes of a method. -/
def MethodImage.write (method : MethodImage) : Written :=
  .concat [.string "method name" method.name, .typeNames method.params, .typeName method.result,
    .byte (packFlags [method.isStatic, method.isVirtual, method.attrs.entryPoint, method.attrs.script]),
    .byte method.visibility.toByte]

/-- The bytes of a constructor. -/
def CtorImage.write (ctor : CtorImage) : Written :=
  .concat [.typeNames ctor.params, .byte ctor.visibility.toByte]

/-- The bytes of a slot. -/
def SlotImage.write : SlotImage → Written
  | method index => .concat [.byte 0, .length "method index" index]
  | ctor index => .concat [.byte 1, .length "constructor index" index]

/-- The bytes of an operand: a tag, then the value. -/
def OperandImage.write : OperandImage → Written
  | none => .byte 0
  | i4 value => .concat [.byte 1, .number 4 value.toUInt32.toNat]
  | i8 value => .concat [.byte 2, .number 8 value.toUInt64.toNat]
  | r4 bits => .concat [.byte 3, .number 4 bits.toNat]
  | r8 bits => .concat [.byte 4, .number 8 bits.toNat]
  | string value => .concat [.byte 5, .string "string operand" value]
  | loc index => .concat [.byte 6, .number 2 index.toNat]
  | arg index => .concat [.byte 7, .number 2 index.toNat]
  | field ref => .concat [.byte 8, .member ref]
  | method ref => .concat [.byte 9, .member ref]
  | ctor ref => .concat [.byte 10, .member ref]
  | type name => .concat [.byte 11, .typeName name]
  | target position => .concat [.byte 12, .number 4 position.toNat]

/-- The bytes of an instruction. -/
def InstructionImage.write (instruction : InstructionImage) : Written :=
  .concat [.byte instruction.opcode.toByte, instruction.operand.write]

/-- The bytes of a body, without their length. -/
def BodyImage.write (body : BodyImage) : Written :=
  .concat [body.slot.write, .typeNames body.locals, .counted "instructions" InstructionImage.write body.code]

/-- The bytes of a body, preceded by their length. -/
def BodyImage.writeFramed (body : BodyImage) : Written := do
  let bytes ← body.write
  Written.concat [.length "body" bytes.length, .bytes bytes]

/-- The bytes of a type. -/
def TypeImage.write (type : TypeImage) : Written :=
  .concat [.string "type name" type.name, .string "namespace" type.space, .byte type.kind.toByte,
    .byte type.visibility.toByte, .optional .typeName type.base, .counted "interfaces" .typeName type.interfaces,
    .counted "fields" FieldImage.write type.fields, .counted "methods" MethodImage.write type.methods,
    .counted "constructors" CtorImage.write type.ctors, .counted "bodies" BodyImage.writeFramed type.bodies]

namespace ModuleImage

/-- The bytes with which every module file starts: `TBMD`. -/
def magic : List UInt8 := [0x54, 0x42, 0x4D, 0x44]

/-- The version of the module file format. -/
def formatVersion : UInt16 := 1

/-- The bytes of a module file. -/
def write (image : ModuleImage) : Written :=
  .concat [.bytes magic, .number 2 formatVersion.toNat, .number 2 0, .byte image.header.toByte,
    .byte image.output.toByte, .string "module name" image.name, .string "module version" image.version,
    .optional .member image.entryPoint, .counted "types" TypeImage.write image.types]

end ModuleImage

/-! ## Reading -/

namespace Reader

/-- Reads a member. -/
def member : Reader MemberImage := do
  let owner ← string
  let index ← number 4
  return ⟨owner, index⟩

/-- Reads a visibility. -/
def visibility : Reader Visibility := tagged "visibility" Visibility.ofByte?

/-- Reads a list of types. -/
def typeNames : Reader (List String) := counted string

end Reader

/-- Reads a field. -/
def FieldImage.read : Reader FieldImage := do
  let name ← .string
  let type ← .string
  let flags ← .flags 0x03
  let visibility ← .visibility
  return ⟨name, type, hasFlag flags 0, hasFlag flags 1, visibility⟩

/-- Reads a method. -/
def MethodImage.read : Reader MethodImage := do
  let name ← .string
  let params ← .typeNames
  let result ← .string
  let flags ← .flags 0x0F
  let visibility ← .visibility
  return ⟨name, params, result, hasFlag flags 0, hasFlag flags 1, visibility, ⟨hasFlag flags 2, hasFlag flags 3⟩⟩

/-- Reads a constructor. -/
def CtorImage.read : Reader CtorImage := do
  let params ← .typeNames
  let visibility ← .visibility
  return ⟨params, visibility⟩

/-- Reads a slot. -/
def SlotImage.read : Reader SlotImage := do
  let tag ← .byte
  match tag with
  | 0 => return .method (← .number 4)
  | 1 => return .ctor (← .number 4)
  | tag => .fail (.invalidTag "method slot" tag)

/-- Reads an operand. -/
def OperandImage.read : Reader OperandImage := do
  let tag ← .byte
  match tag with
  | 0 => return .none
  | 1 => return .i4 (← .u32).toInt32
  | 2 => return .i8 (← .u64).toInt64
  | 3 => return .r4 (← .u32)
  | 4 => return .r8 (← .u64)
  | 5 => return .string (← .string)
  | 6 => return .loc (← .u16)
  | 7 => return .arg (← .u16)
  | 8 => return .field (← .member)
  | 9 => return .method (← .member)
  | 10 => return .ctor (← .member)
  | 11 => return .type (← .string)
  | 12 => return .target (← .u32)
  | tag => .fail (.invalidTag "operand" tag)

/-- Reads an instruction. -/
def InstructionImage.read : Reader InstructionImage := do
  let opcode ← .tagged "opcode" OpCode.ofByte?
  let operand ← OperandImage.read
  return ⟨opcode, operand⟩

/-- Reads a body. -/
def BodyImage.read : Reader BodyImage := do
  let slot ← SlotImage.read
  let locals ← .typeNames
  let code ← .counted InstructionImage.read
  return ⟨slot, locals, code⟩

/-- Reads a type. -/
def TypeImage.read : Reader TypeImage := do
  let name ← .string
  let space ← .string
  let kind ← .tagged "class kind" ClassKind.ofByte?
  let visibility ← .visibility
  let base ← .optional .string
  let interfaces ← .typeNames
  let fields ← .counted FieldImage.read
  let methods ← .counted MethodImage.read
  let ctors ← .counted CtorImage.read
  let bodies ← .counted (.framed BodyImage.read)
  return ⟨name, space, kind, visibility, base, interfaces, fields, methods, ctors, bodies⟩

namespace ModuleImage

/-- Succeeds on flags that are all zero. -/
def noFlags : Reader Unit := do
  let flags ← .u16
  if flags == 0 then return () else .fail (.unsupportedFlags flags)

/-- Reads a module file up to its last type. -/
def reader : Reader ModuleImage := do
  .magic magic
  .version formatVersion
  noFlags
  let header ← .tagged "header" Header.ofByte?
  let output ← .tagged "output" OutputKind.ofByte?
  let name ← .string
  let version ← .string
  let entryPoint ← .optional .member
  let types ← .counted TypeImage.read
  return ⟨name, version, header, output, entryPoint, types⟩

/-- The image that some bytes hold. -/
def read (bytes : List UInt8) : Except FormatError ModuleImage := reader.run bytes

end ModuleImage

/-- The bytes of a module's file. -/
def CompiledModule.write (compiled : CompiledModule) : Except Fault Written := do
  return (← compiled.image).write

end OnePass
