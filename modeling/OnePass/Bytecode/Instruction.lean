import OnePass.Symbols.Table
import OnePass.Text.Quoted
import OnePass.Decimal.Shortest

/-! # Instructions

The instruction set of the stack machine: an opcode with at most one operand. `Instruction.text` is
the line that a listing shows for an instruction. -/

namespace OnePass

/-- The operations of the stack machine. -/
inductive OpCode where
  | nop
  | breakpoint
  | ldnull
  | ldcI4
  | ldcI4S
  | ldcI4Zero
  | ldcI4One
  | ldcI8
  | ldcR4
  | ldcR8
  | ldstr
  | ldloc
  | stloc
  | ldarg
  | starg
  | ldfld
  | stfld
  | ldsfld
  | stsfld
  | call
  | callvirt
  | newobj
  | newarr
  | stelem
  | pop
  | dup
  | ret
  | br
  | add
  | sub
  | mul
  | div
  | rem
  | and
  | or
  | xor
  | neg
  | ceq
  | cgt
  | clt
  deriving DecidableEq, Repr

namespace OpCode

/-- All opcodes, in the order of their bytes. -/
def all : List OpCode :=
  [.nop, .breakpoint, .ldnull, .ldcI4, .ldcI4S, .ldcI4Zero, .ldcI4One, .ldcI8, .ldcR4, .ldcR8, .ldstr, .ldloc,
    .stloc, .ldarg, .starg, .ldfld, .stfld, .ldsfld, .stsfld, .call, .callvirt, .newobj, .newarr, .stelem,
    .pop, .dup, .ret, .br, .add, .sub, .mul, .div, .rem, .and, .or, .xor, .neg, .ceq, .cgt, .clt]

/-- The byte that stands for an opcode in a file. -/
def toByte : OpCode → UInt8
  | .nop => 0
  | .breakpoint => 1
  | .ldnull => 2
  | .ldcI4 => 3
  | .ldcI4S => 4
  | .ldcI4Zero => 5
  | .ldcI4One => 6
  | .ldcI8 => 7
  | .ldcR4 => 8
  | .ldcR8 => 9
  | .ldstr => 10
  | .ldloc => 11
  | .stloc => 12
  | .ldarg => 13
  | .starg => 14
  | .ldfld => 15
  | .stfld => 16
  | .ldsfld => 17
  | .stsfld => 18
  | .call => 19
  | .callvirt => 20
  | .newobj => 21
  | .newarr => 22
  | .stelem => 23
  | .pop => 24
  | .dup => 25
  | .ret => 26
  | .br => 27
  | .add => 28
  | .sub => 29
  | .mul => 30
  | .div => 31
  | .rem => 32
  | .and => 33
  | .or => 34
  | .xor => 35
  | .neg => 36
  | .ceq => 37
  | .cgt => 38
  | .clt => 39

/-- The opcode that a byte stands for. -/
def ofByte? (byte : UInt8) : Option OpCode := all[byte.toNat]?

@[simp] theorem ofByte?_toByte (opcode : OpCode) : ofByte? opcode.toByte = some opcode := by
  cases opcode <;> rfl

/-- The name of an opcode in a listing. -/
def mnemonic : OpCode → String
  | .nop => "nop"
  | .breakpoint => "break"
  | .ldnull => "ldnull"
  | .ldcI4 => "ldc.i4"
  | .ldcI4S => "ldc.i4.s"
  | .ldcI4Zero => "ldc.i4.0"
  | .ldcI4One => "ldc.i4.1"
  | .ldcI8 => "ldc.i8"
  | .ldcR4 => "ldc.r4"
  | .ldcR8 => "ldc.r8"
  | .ldstr => "ldstr"
  | .ldloc => "ldloc"
  | .stloc => "stloc"
  | .ldarg => "ldarg"
  | .starg => "starg"
  | .ldfld => "ldfld"
  | .stfld => "stfld"
  | .ldsfld => "ldsfld"
  | .stsfld => "stsfld"
  | .call => "call"
  | .callvirt => "callvirt"
  | .newobj => "newobj"
  | .newarr => "newarr"
  | .stelem => "stelem"
  | .pop => "pop"
  | .dup => "dup"
  | .ret => "ret"
  | .br => "br"
  | .add => "add"
  | .sub => "sub"
  | .mul => "mul"
  | .div => "div"
  | .rem => "rem"
  | .and => "and"
  | .or => "or"
  | .xor => "xor"
  | .neg => "neg"
  | .ceq => "ceq"
  | .cgt => "cgt"
  | .clt => "clt"

end OpCode

/-- What an instruction works on. Variables are numbered in their method, branch targets are
positions in the code. -/
inductive Operand where
  | none
  | i4 (value : Int32)
  | i8 (value : Int64)
  | r4 (bits : UInt32)
  | r8 (bits : UInt64)
  | string (value : String)
  | loc (index : UInt16)
  | arg (index : UInt16)
  | field (ref : MemberRef)
  | method (ref : MemberRef)
  | ctor (ref : MemberRef)
  | type (id : TypeId)
  | target (position : UInt32)
  deriving DecidableEq

/-- A number with zeros in front, up to four digits. -/
def fourDigits (n : Nat) : String :=
  let digits := (toString n).toList
  String.ofList (List.replicate (4 - digits.length) '0' ++ digits)

/-- The text of an operand in a listing, with the blank before it. -/
def Operand.text : Operand → String
  | none => ""
  | i4 value => s!" {value.toInt}"
  | i8 value => s!" {value.toInt}"
  | r4 bits => " " ++ Decimal.singleText bits
  | r8 bits => " " ++ Decimal.doubleText bits
  | string value => " " ++ Text.quoted value
  | loc index => s!" V_{index.toNat}"
  | arg index => s!" A_{index.toNat}"
  | field ref => s!" field#{ref.owner}.{ref.index}"
  | method ref => s!" method#{ref.owner}.{ref.index}"
  | ctor ref => s!" ctor#{ref.owner}.{ref.index}"
  | type id => s!" type#{id}"
  | target position => " IL_" ++ fourDigits position.toNat

/-- One step of the stack machine. -/
structure Instruction where
  opcode : OpCode
  operand : Operand := .none
  deriving DecidableEq

/-- The text of an instruction in a listing. -/
def Instruction.text (instruction : Instruction) : String :=
  instruction.opcode.mnemonic ++ instruction.operand.text

/-- The code that a literal value leaves on the stack. -/
def Instruction.ofLiteral : Literal → Instruction
  | .null => ⟨.ldnull, .none⟩
  | .int value => ⟨.ldcI4, .i4 value⟩
  | .string value => ⟨.ldstr, .string value⟩
  | .sbyte value => ⟨.ldcI4S, .i4 value.toInt32⟩
  | .bool true => ⟨.ldcI4One, .none⟩
  | .bool false => ⟨.ldcI4Zero, .none⟩
  | .char value => ⟨.ldcI4, .i4 (Int32.ofNat value.toNat)⟩
  | .float bits => ⟨.ldcR4, .r4 bits⟩
  | .short value => ⟨.ldcI4, .i4 value.toInt32⟩
  | .long value => ⟨.ldcI8, .i8 value⟩
  | .double bits => ⟨.ldcR8, .r8 bits⟩

end OnePass
