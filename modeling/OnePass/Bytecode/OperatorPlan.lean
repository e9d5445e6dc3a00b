import OnePass.Bytecode.Instruction
import OnePass.Symbols.Lookup

/-! # Lowering operators

A binary operator is planned when it is read, from the type of its left operand, and applied when
its right operand is on the stack. Numbers and truth values have machine operations; texts are
joined by a method call; other types bring operator methods of their own. Two operators are read and
leave no code. -/

namespace OnePass

/-- How an operator is lowered once both operands are on the stack. -/
inductive Lowering where
  /-- by machine operations without operands -/
  | native (opcodes : List OpCode)
  /-- by a static method -/
  | call (method : MemberRef)
  /-- not at all -/
  | nothing
  deriving DecidableEq

/-- The code of a lowering. -/
def Lowering.code : Lowering → List Instruction
  | native opcodes => opcodes.map fun opcode => ⟨opcode, .none⟩
  | call method => [⟨.call, .method method⟩]
  | nothing => []

/-- An operator that waits for its right operand. -/
structure OperatorPlan where
  op : Operator
  lowering : Lowering
  /-- the type that the operator leaves on the stack, if known -/
  result : Option TypeId
  deriving DecidableEq

namespace Operator

/-- The machine operations of an operator. The orders that have no operation of their own are the
negations of the opposite ones. -/
def native? : Operator → Option (List OpCode)
  | .add => some [.add]
  | .sub => some [.sub]
  | .mul => some [.mul]
  | .div => some [.div]
  | .mod => some [.rem]
  | .eq => some [.ceq]
  | .notEq => some [.ceq, .ldcI4Zero, .ceq]
  | .gt => some [.cgt]
  | .lt => some [.clt]
  | .gtEq => some [.clt, .ldcI4Zero, .ceq]
  | .ltEq => some [.cgt, .ldcI4Zero, .ceq]
  | .and => some [.and]
  | .or => some [.or]
  | .xor => some [.xor]
  | _ => none

/-- The name of the method that stands for an operator. -/
def methodName? : Operator → Option String
  | .add => some "op_Addition"
  | .sub => some "op_Subtraction"
  | .mul => some "op_Multiply"
  | .div => some "op_Division"
  | .eq => some "op_Equality"
  | .notEq => some "op_Inequality"
  | .gt => some "op_GreaterThan"
  | .lt => some "op_LessThan"
  | .gtEq => some "op_GreaterThanOrEqual"
  | .ltEq => some "op_LessThanOrEqual"
  | _ => none

/-- Whether an operator compares its operands. -/
def isComparison : Operator → Bool
  | .eq | .notEq | .gt | .lt | .gtEq | .ltEq => true
  | _ => false

end Operator

namespace SymbolTable

/-- The plan that lowers an operator to machine operations: a comparison gives a truth value, all
else a value of the left operand's type. -/
def nativePlan (table : SymbolTable) (lhs : Option TypeId) (op : Operator) (opcodes : List OpCode) : OperatorPlan :=
  ⟨op, .native opcodes, if op.isComparison then some table.wellKnown.boolean else lhs⟩

/-- The plan that lowers an operator to the operator method of the left operand's type. -/
def methodPlan (table : SymbolTable) (lhs : TypeId) (op : Operator) : Except Failure OperatorPlan := do
  match op.methodName? with
  | none => throw (.problem (.noMethodForm op))
  | some name =>
    match ← table.findOperator lhs name with
    | none => throw (.problem (.noOperatorMethod (← table.typeName lhs) name))
    | some ref => return ⟨op, .call ref, some (← table.method ref).result⟩

/-- The plan of an operator with machine operations whose left operand has a known type. -/
def typedPlan (table : SymbolTable) (lhs : TypeId) (op : Operator) (opcodes : List OpCode) :
    Except Failure OperatorPlan := do
  let category ← table.category lhs
  let native := table.nativePlan (some lhs) op opcodes
  match op with
  | .mod =>
    if category.isNumber then return native
    else throw (.problem (.modOfNonNumber (← table.typeName lhs)))
  | .and | .or =>
    if category == .bool then return native
    else throw (.problem (.logicOfNonBoolean op (← table.typeName lhs)))
  | .xor => return native
  | _ =>
    if (op == .eq || op == .notEq) && category == .bool then return native
    else if op == .add && category == .string then
      match ← table.findMethod lhs "Concat" [some lhs, some lhs] with
      | none => throw (.problem .concatUnavailable)
      | some concat => return ⟨op, .call concat, some lhs⟩
    else if category.isNumber then return native
    else table.methodPlan lhs op

/-- The plan of an operator, from the type of its left operand. An operand of unknown type is taken
for a number. -/
def planOperator (table : SymbolTable) (lhs : Option TypeId) (op : Operator) : Except Failure OperatorPlan := do
  match op with
  | .within | .range => return ⟨op, .nothing, lhs⟩
  | .pow =>
    let double := table.wellKnown.double
    match ← table.findMethod table.wellKnown.math "Pow" [some double, some double] with
    | none => throw (.problem .powUnavailable)
    | some pow => return ⟨op, .call pow, some double⟩
  | _ =>
    match op.native? with
    | none => throw (.problem (.notBetweenValues op))
    | some opcodes =>
      match lhs with
      | none => return table.nativePlan none op opcodes
      | some type => table.typedPlan type op opcodes

end SymbolTable

end OnePass
