import OnePass.Draft.Method

/-! # Emitting code

What the constructs of the language append to the code of a method: loads and stores of variables,
fields and constants, calls, constructions, operators and array literals. Opcodes are chosen by the
definitions of the members concerned. -/

namespace OnePass.MethodDraft

/-- Loads a literal, and tells its type. -/
def loadConstant (draft : MethodDraft) (table : SymbolTable) (value : Literal) : TypeId × MethodDraft :=
  (table.literalType value, draft.append [.ofLiteral value])

/-- Calls a method. A result that is not wanted is dropped at once. Tells the type left on the
stack. -/
def call (draft : MethodDraft) (table : SymbolTable) (ref : MemberRef) (discard : Bool) :
    Except Fault (Option TypeId × MethodDraft) := do
  let method ← table.method ref
  let called := draft.emit (if method.isVirtual then .callvirt else .call) (.method ref)
  if ← table.isVoid method.result then return (none, called)
  else if discard then return (none, called.emit .pop)
  else return (some method.result, called)

/-- Loads a field, and tells its type. -/
def loadField (draft : MethodDraft) (table : SymbolTable) (ref : MemberRef) :
    Except Fault (TypeId × MethodDraft) := do
  let field ← table.field ref
  return (field.type, draft.emit (if field.isStatic then .ldsfld else .ldfld) (.field ref))

/-- Stores to a field. -/
def storeField (draft : MethodDraft) (table : SymbolTable) (ref : MemberRef) : Except Fault MethodDraft := do
  let field ← table.field ref
  return draft.emit (if field.isStatic then .stsfld else .stfld) (.field ref)

/-- Loads a variable. -/
def loadVar (draft : MethodDraft) (var : LocalVar) : MethodDraft :=
  match var.slot with
  | .mutable index | .final index => draft.emit .ldloc (.loc index)
  | .param index => draft.emit .ldarg (.arg index)

/-- Stores to a variable. -/
def storeVar (draft : MethodDraft) (var : LocalVar) : Except Failure MethodDraft := do
  let marked ← draft.markAssigned var.slot
  match var.slot with
  | .mutable index | .final index => return marked.emit .stloc (.loc index)
  | .param index => return marked.emit .starg (.arg index)

/-- Loads the receiver of the method. -/
def loadThis (draft : MethodDraft) : MethodDraft := draft.emit .ldarg (.arg 0)

/-- Constructs an object. -/
def construct (draft : MethodDraft) (ref : MemberRef) : MethodDraft := draft.emit .newobj (.ctor ref)

/-- Applies an operator to the two values on top of the stack. -/
def apply (draft : MethodDraft) (plan : OperatorPlan) : MethodDraft := draft.append plan.lowering.code

/-- Negates the truth value on top of the stack. -/
def negate (draft : MethodDraft) : MethodDraft := (draft.emit .ldcI4Zero).emit .ceq

/-- Adds one to the value on top of the stack, or takes one away. -/
def step (draft : MethodDraft) (op : Operator) : MethodDraft :=
  (draft.emit .ldcI4One).emit (if op == .dec then .sub else .add)

/-- One element of an array literal: where its code starts and ends, and its type if known. -/
structure Element where
  start : Nat
  stop : Nat
  type : Option TypeId
  deriving DecidableEq

/-- The element type of an array: the common type of the elements, or else `System.Object`. -/
def elementType (table : SymbolTable) (elements : List Element) : TypeId :=
  match elements.head?.bind (·.type) with
  | some first => if elements.all (·.type == some first) then first else table.wellKnown.object
  | none => table.wellKnown.object

/-- The part of the code after `start` that belongs to an element. -/
def elementCode (start : Nat) (tail : List Instruction) (element : Element) : List Instruction :=
  (tail.take (element.stop - start)).drop (element.start - start)

/-- The code that fills one place of an array. -/
def storeElement (type : TypeId) (index : Nat) (code : List Instruction) : List Instruction :=
  [⟨.dup, .none⟩, ⟨.ldcI4, .i4 (Int32.ofNat index)⟩] ++ code ++ [⟨.stelem, .type type⟩]

/-- Wraps the code of the elements, which starts at `start`, into the construction of an array, and
tells the type of arrays. -/
def lowerSequence (draft : MethodDraft) (table : SymbolTable) (start : Nat) (elements : List Element) :
    TypeId × MethodDraft :=
  let type := elementType table elements
  let tail := draft.tail start
  let header : List Instruction :=
    [⟨.ldcI4, .i4 (Int32.ofNat elements.length)⟩, ⟨.newarr, .type type⟩]
  let stores := elements.zipIdx.flatMap fun (element, index) =>
    storeElement type index (elementCode start tail element)
  (table.wellKnown.array, (draft.cut start).append (header ++ stores))

/-! ## By name -/

/-- Loads the variable with a name, and tells its type. -/
def loadNamed (draft : MethodDraft) (name : String) : Except Problem (TypeId × MethodDraft) :=
  match draft.get? name with
  | none => .error .noLocalToLoad
  | some var => .ok (var.type, draft.loadVar var)

/-- Stores to the variable with a name. -/
def storeNamed (draft : MethodDraft) (name : String) : Except Failure MethodDraft :=
  match draft.get? name with
  | none => .error (.problem .noLocalToStore)
  | some var => draft.storeVar var

/-- Loads the field that a dotted name means, and tells its type. -/
def loadFieldNamed (draft : MethodDraft) (table : SymbolTable) (name : String) (namespaces : List String) :
    Except Failure (TypeId × MethodDraft) := do
  match ← table.resolveField name namespaces with
  | none => throw (.problem .noFieldToLoad)
  | some ref => draft.loadField table ref

/-- Stores to the field that a dotted name means. -/
def storeFieldNamed (draft : MethodDraft) (table : SymbolTable) (name : String) (namespaces : List String) :
    Except Failure MethodDraft := do
  match ← table.resolveField name namespaces with
  | none => throw (.problem .noFieldToStore)
  | some ref => draft.storeField table ref

/-- Constructs an object of a type from arguments of some types, and tells its type. -/
def constructFrom (draft : MethodDraft) (table : SymbolTable) (type : TypeId) (args : List (Option TypeId)) :
    Except Failure (TypeId × MethodDraft) := do
  match ← table.findCtor type args with
  | none => throw (.problem .noConstructor)
  | some ref => return (ref.owner, draft.construct ref)

/-- Calls the method of a type that takes arguments of some types, if there is one. Tells the type
left on the stack. -/
def callNamed (draft : MethodDraft) (table : SymbolTable) (type : TypeId) (name : String)
    (args : List (Option TypeId)) (discard : Bool) : Except Fault (Option TypeId × MethodDraft) := do
  match ← table.findMethod type name args with
  | none => return (none, draft)
  | some ref => draft.call table ref discard

end OnePass.MethodDraft
