import OnePass.Compiler.Build

/-! # Expressions and their code

The expressions of the language as trees, the tokens that write them down, and the code that they
mean: operands first, then the operation. The code is computed by recursion on the tree, with
nothing remembered from one part to the next; the compiler has no tree and is compared with it in
`OnePass.Proofs.Expression.Reading`.

* **`Expr`** — a chain of binary operators, all of the same rank, read from the left. Each operand
  is a `Term` with at most one `Sign` in front.
* **`Expr.tokens`** — the tokens of an expression.
* **`Expr.compile`** — its code and its type, in a `Scope` that gives the names their meanings.
  There is none if a name, an overload, a constructor or an operator has no meaning. -/

namespace OnePass

/-! ## Syntax -/

/-- What stands in front of an operand. -/
inductive Sign where
  | none
  | minus
  | not
  deriving DecidableEq

mutual

/-- An operand. -/
inductive Term where
  | constant (value : Literal)
  /-- a local or parameter of the current method -/
  | var (name : String)
  /-- an expression in parentheses -/
  | group (inner : Expr)
  /-- a call; the owner of the method may have several segments, or none -/
  | call (owner : List String) (name : String) (args : List Expr)
  /-- a construction; the segments in front of the name are a namespace -/
  | construct (space : List String) (name : String) (args : List Expr)
  /-- an array literal -/
  | array (elements : List Expr)

/-- A chain of binary operators. -/
inductive Expr where
  | operand (sign : Sign) (term : Term)
  | binary (left : Expr) (op : Operator) (sign : Sign) (right : Term)

end

/-! ## Tokens -/

/-- The tokens of a sign. -/
def Sign.tokens : Sign → List Token
  | none => []
  | minus => [.operator .sub]
  | not => [.operator .not]

/-- The tokens of a dotted name. -/
def pathTokens (owner : List String) (name : String) : List Token :=
  owner.flatMap (fun segment => [.literal segment, .separator .member]) ++ [.literal name]

mutual

/-- The tokens of an operand. -/
def Term.tokens : Term → List Token
  | .constant value => [.value value]
  | .var name => [.literal name]
  | .group inner => .statement true :: inner.tokens ++ [.statement false]
  | .call owner name args => pathTokens owner name ++ .statement true :: listTokens args ++
      [.statement false]
  | .construct space name args =>
    .new :: pathTokens space name ++ .statement true :: listTokens args ++ [.statement false]
  | .array elements => .sequence true :: listTokens elements ++ [.sequence false]

/-- The tokens of an expression. -/
def Expr.tokens : Expr → List Token
  | .operand sign term => sign.tokens ++ term.tokens
  | .binary left op sign right => left.tokens ++ .operator op :: sign.tokens ++ right.tokens

/-- The tokens of expressions with commas between them. -/
def listTokens : List Expr → List Token
  | [] => []
  | first :: rest => first.tokens ++ restTokens rest

/-- The tokens of expressions with a comma before each. -/
def restTokens : List Expr → List Token
  | [] => []
  | next :: rest => .separator .statement :: next.tokens ++ restTokens rest

end

/-! ## Code -/

/-- What an expression leaves: the code that puts its value on the stack, and the type of the value
if known. -/
structure Value where
  code : List Instruction
  type : Option TypeId
  deriving DecidableEq

/-- Where names get their meanings: the module under construction and the namespaces that are
searched. -/
structure Scope where
  session : Session
  usings : List String

/-- The instruction that loads a variable. -/
def LocalVar.load (var : LocalVar) : Instruction :=
  match var.slot with
  | .mutable index | .final index => ⟨.ldloc, .loc index⟩
  | .param index => ⟨.ldarg, .arg index⟩

/-- The instruction that stores to a variable. -/
def LocalVar.store (var : LocalVar) : Instruction :=
  match var.slot with
  | .mutable index | .final index => ⟨.stloc, .loc index⟩
  | .param index => ⟨.starg, .arg index⟩

/-- The instruction that loads a field. -/
def FieldDef.load (field : FieldDef) (ref : MemberRef) : Instruction :=
  ⟨if field.isStatic then .ldsfld else .ldfld, .field ref⟩

theorem MethodDraft.loadVar_eq_append (method : MethodDraft) (var : LocalVar) :
    method.loadVar var = method.append [var.load] := by
  rw [loadVar, LocalVar.load]
  cases var.slot <;> rfl

/-- The instruction that loads a constant. Small integers and characters are loaded as integers. -/
def Literal.load : Literal → Instruction
  | .null => ⟨.ldnull, .none⟩
  | .int value => ⟨.ldcI4, .i4 value⟩
  | .string value => ⟨.ldstr, .string value⟩
  | .sbyte value => ⟨.ldcI4S, .i4 value.toInt32⟩
  | .bool value => ⟨if value then .ldcI4One else .ldcI4Zero, .none⟩
  | .char value => ⟨.ldcI4, .i4 (Int32.ofNat value.toNat)⟩
  | .float bits => ⟨.ldcR4, .r4 bits⟩
  | .short value => ⟨.ldcI4, .i4 value.toInt32⟩
  | .long value => ⟨.ldcI8, .i8 value⟩
  | .double bits => ⟨.ldcR8, .r8 bits⟩

/-- The type of a constant. -/
def Literal.type (types : WellKnown) : Literal → TypeId
  | .null => types.object
  | .int _ => types.int32
  | .string _ => types.string
  | .sbyte _ => types.sbyte
  | .bool _ => types.boolean
  | .char _ => types.char
  | .float _ => types.single
  | .short _ => types.int16
  | .long _ => types.int64
  | .double _ => types.double

/-- The instructions of an operator: its machine operations, the call of its method, or none. -/
def Lowering.operations : Lowering → List Instruction
  | native opcodes => opcodes.map (⟨·, .none⟩)
  | call ref => [⟨.call, .method ref⟩]
  | nothing => []

/-- The code that a sign adds. -/
def Sign.code : Sign → List Instruction
  | none => []
  | minus => [⟨.neg, .none⟩]
  | not => [⟨.ldcI4Zero, .none⟩, ⟨.ceq, .none⟩]

/-- A value after its sign: `NOT` leaves a truth value. -/
def Sign.apply (sign : Sign) (table : SymbolTable) (value : Value) : Value where
  code := value.code ++ sign.code
  type := if sign = not then some table.wellKnown.boolean else value.type

/-- A call that has a result: what is loaded before the arguments, and what comes after them. -/
structure Callee where
  receiver : List Instruction
  call : Instruction
  result : TypeId

/-- The code that loads the receiver of a method: a static method has none, another one is taken
from a variable. -/
def receiverCode (method : MethodDef) (site : CallSite) : Option (List Instruction) :=
  match method.isStatic, site.receiver? with
  | true, _ => some []
  | false, some (.var var) => some [var.load]
  | false, _ => none

namespace Scope

/-- The method that a call means: a static method, or an instance method of a variable. It must have
a result. -/
def callee? (scope : Scope) (path : List String) (args : List (Option TypeId)) : Option Callee := do
  let site ← (scope.session.resolveCallSite path scope.usings).toOption
  let ref ← (scope.session.resolveCallee site args).toOption
  let method ← (scope.session.table.method ref).toOption
  let isVoid ← (scope.session.table.isVoid method.result).toOption
  let receiver ← receiverCode method site
  if isVoid then none
  else some ⟨receiver, ⟨if method.isVirtual then .callvirt else .call, .method ref⟩, method.result⟩

/-- The constructor that a construction means. -/
def ctor? (scope : Scope) (path : List String) (args : List (Option TypeId)) : Option MemberRef := do
  let type ← scope.session.table.resolveType (dotted path) scope.usings
  (← (scope.session.table.findCtor type args).toOption)

end Scope

/-- The type that all elements have, or else `System.Object`. -/
def commonType (table : SymbolTable) : List (Option TypeId) → TypeId
  | some first :: rest => if rest.all (· == some first) then first else table.wellKnown.object
  | _ => table.wellKnown.object

/-- The code that fills the places of an array from `index` on. -/
def fillCode (type : TypeId) : (index : Nat) → List Value → List Instruction
  | _, [] => []
  | index, value :: rest =>
    [⟨.dup, .none⟩, ⟨.ldcI4, .i4 (Int32.ofNat index)⟩] ++ value.code ++ [⟨.stelem, .type type⟩] ++
      fillCode type (index + 1) rest

/-- The code of an array literal. -/
def arrayCode (table : SymbolTable) (values : List Value) : List Instruction :=
  let type := commonType table (values.map (·.type))
  [⟨.ldcI4, .i4 (Int32.ofNat values.length)⟩, ⟨.newarr, .type type⟩] ++ fillCode type 0 values

mutual

/-- The code of an operand. -/
def Term.compile (scope : Scope) : Term → Option Value
  | .constant value => some ⟨[value.load], some (value.type scope.session.table.wellKnown)⟩
  | .var name => do
    let var ← (← (scope.session.lookupVar name).toOption)
    return ⟨[var.load], some var.type⟩
  | .group inner => inner.compile scope
  | .call owner name args => do
    let values ← compileAll scope args
    let callee ← scope.callee? (owner ++ [name]) (values.map (·.type))
    return ⟨callee.receiver ++ values.flatMap (·.code) ++ [callee.call], some callee.result⟩
  | .construct space name args => do
    let values ← compileAll scope args
    let ref ← scope.ctor? (space ++ [name]) (values.map (·.type))
    return ⟨values.flatMap (·.code) ++ [⟨.newobj, .ctor ref⟩], some ref.owner⟩
  | .array elements => do
    let values ← compileAll scope elements
    return ⟨arrayCode scope.session.table values, some scope.session.table.wellKnown.array⟩

/-- The code of an expression. -/
def Expr.compile (scope : Scope) : Expr → Option Value
  | .operand sign term => do return sign.apply scope.session.table (← term.compile scope)
  | .binary left op sign right => do
    let left ← left.compile scope
    let right ← right.compile scope
    let plan ← (scope.session.table.planOperator left.type op).toOption
    return ⟨left.code ++ (sign.apply scope.session.table right).code ++ plan.lowering.operations,
      plan.result⟩

/-- The code of each of some expressions. -/
def compileAll (scope : Scope) : List Expr → Option (List Value)
  | [] => some []
  | first :: rest => do return (← first.compile scope) :: (← compileAll scope rest)

end

/-! ## Statements -/

/-- What a statement does with the value of its expression. -/
inductive Use where
  | dropped
  | returned
  | stored (name : String)

/-- The tokens of a statement. -/
def Use.tokens (use : Use) (expr : Expr) : List Token :=
  match use with
  | dropped => expr.tokens ++ [.expressionEnd]
  | returned => .returnValue :: expr.tokens ++ [.expressionEnd]
  | stored name => .literal name :: .operator .assign :: expr.tokens ++ [.expressionEnd]

/-- The instruction that stores to a variable, other than a final. -/
def LocalVar.store? (var : LocalVar) : Option Instruction :=
  match var.slot with
  | .mutable _ | .param _ => some var.store
  | .final _ => none

/-- The instruction that takes the value from the stack. -/
def Use.instruction? (use : Use) (scope : Scope) : Option Instruction :=
  match use with
  | dropped => some ⟨.pop, .none⟩
  | returned => some ⟨.ret, .none⟩
  | stored name => do (← (← (scope.session.lookupVar name).toOption)).store?

/-- The code of a statement. -/
def Use.compile (use : Use) (scope : Scope) (expr : Expr) : Option (List Instruction) := do
  let value ← expr.compile scope
  let last ← use.instruction? scope
  return value.code ++ [last]

end OnePass
