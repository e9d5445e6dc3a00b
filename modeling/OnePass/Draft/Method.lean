import OnePass.Draft.Locals

/-! # Methods under construction

A `MethodDraft` is a method whose body is being read: its parameters and local variables, the code
so far, and the labels and branches that are still to be tied together. `MethodDraft.finish` turns
it into a `MethodBody`.

Locals and finals share one numbering; parameters are numbered on their own, after the receiver of
an instance method. Numbers have two bytes. -/

namespace OnePass

/-- The method or constructor that a body belongs to. -/
inductive MethodSlot where
  | method (ref : MemberRef)
  | ctor (ref : MemberRef)
  deriving DecidableEq

/-- Where a named variable lives. -/
inductive VarSlot where
  | mutable (index : UInt16)
  /-- a local that is assigned at most once -/
  | final (index : UInt16)
  | param (index : UInt16)
  deriving DecidableEq

/-- A variable that code can load and store. -/
structure LocalVar where
  slot : VarSlot
  type : TypeId
  deriving DecidableEq

/-- A parameter of a method. -/
structure Param where
  name : String
  type : TypeId
  deriving DecidableEq

/-- A branch whose target is the position of a label. -/
structure Fixup where
  /-- where the branch stood when it was emitted -/
  position : Nat
  label : String
  deriving DecidableEq

/-- A finished method. -/
structure MethodBody where
  slot : MethodSlot
  params : List Param
  /-- types of the locals, by index -/
  locals : List TypeId
  code : List Instruction
  deriving DecidableEq

/-- A method whose body is being read. -/
structure MethodDraft where
  slot : MethodSlot
  isStatic : Bool
  params : List Param := []
  /-- whether variables still declare parameters -/
  paramsOpen : Bool := true
  declared : LocalTable := .empty
  code : List Instruction := []
  /-- positions of the labels, the latest first -/
  labels : List (String × UInt32) := []
  fixups : List Fixup := []
  deriving DecidableEq

namespace MethodDraft

/-- The locals, in the order of their numbers. -/
def locals (draft : MethodDraft) : List LocalDef := draft.declared.defs

@[simp] theorem defs_declared (draft : MethodDraft) : draft.declared.defs = draft.locals := rfl

@[simp] theorem locals_mk (slot : MethodSlot) (isStatic : Bool) (params : List Param) (paramsOpen : Bool)
    (declared : LocalTable) (code : List Instruction) (labels : List (String × UInt32)) (fixups : List Fixup) :
    (mk slot isStatic params paramsOpen declared code labels fixups).locals = declared.defs :=
  rfl

/-- Whether nothing has been declared or emitted. -/
def isEmpty (draft : MethodDraft) : Bool :=
  draft.params.isEmpty && draft.locals.isEmpty && draft.code.isEmpty

/-- Ends the parameter list. -/
def closeParams (draft : MethodDraft) : MethodDraft := { draft with paramsOpen := false }

/-! ## Variables -/

/-- The number of the parameter at some position of the list. -/
def paramIndex (draft : MethodDraft) (position : Nat) : UInt16 :=
  UInt16.ofNat position + if draft.isStatic then 0 else 1

/-- Declares a parameter, unless there is one with the name. -/
def declareParam (draft : MethodDraft) (name : String) (type : TypeId) :
    Except Problem (VarSlot × MethodDraft) :=
  if draft.params.any (·.name == name) then .error (.duplicateParameter name)
  else
    .ok (.param (draft.paramIndex draft.params.length), { draft with params := draft.params ++ [⟨name, type⟩] })

/-- The slot of a local with some number. -/
def localSlot (isFinal : Bool) (index : UInt16) : VarSlot := if isFinal then .final index else .mutable index

/-- Declares a local. Its type must be known, and its name must be new among the locals. -/
def declareLocal (draft : MethodDraft) (table : SymbolTable) (name typeName : String) (namespaces : List String)
    (isFinal : Bool) : Except Problem (LocalVar × MethodDraft) :=
  match table.resolveType typeName namespaces with
  | none => .error (.unknownLocalType typeName name)
  | some type =>
    if draft.declared.contains name then .error (.duplicateLocal name)
    else
      .ok (⟨localSlot isFinal (UInt16.ofNat draft.declared.count), type⟩,
        { draft with declared := draft.declared.add ⟨name, type, isFinal, false⟩ })

/-- The local with a name. The number that it has in the code decides its type. -/
def getLocal? (draft : MethodDraft) (name : String) : Option LocalVar := do
  let position ← draft.locals.findIdx? (·.name == name)
  let found ← draft.locals[position]?
  let index := UInt16.ofNat position
  let stored ← draft.locals[index.toNat]?
  return ⟨localSlot found.isFinal index, stored.type⟩

/-- The parameter with a name. -/
def getParam? (draft : MethodDraft) (name : String) : Option LocalVar := do
  let position ← draft.params.findIdx? (·.name == name)
  let found ← draft.params[position]?
  return ⟨.param (draft.paramIndex position), found.type⟩

/-- The variable with a name: locals hide parameters. -/
def get? (draft : MethodDraft) (name : String) : Option LocalVar := (draft.getLocal? name).or (draft.getParam? name)

/-- Notes a store. A final takes one. -/
def markAssigned (draft : MethodDraft) : VarSlot → Except Failure MethodDraft
  | .mutable _ | .param _ => .ok draft
  | .final index =>
    match draft.locals[index.toNat]? with
    | none => .error (.fault .noSuchFinal)
    | some found =>
      if found.assigned then .error (.problem (.finalAssignedTwice found.name))
      else .ok { draft with declared := draft.declared.markAssigned index.toNat }

/-! ## Code -/

/-- The number of instructions so far. -/
def position (draft : MethodDraft) : Nat := draft.code.length

/-- Appends instructions. -/
def append (draft : MethodDraft) (instructions : List Instruction) : MethodDraft :=
  { draft with code := draft.code ++ instructions }

/-- Appends an instruction. -/
def emit (draft : MethodDraft) (opcode : OpCode) (operand : Operand := .none) : MethodDraft :=
  draft.append [⟨opcode, operand⟩]

/-- The last instruction. -/
def last? (draft : MethodDraft) : Option Instruction := draft.code.getLast?

/-- Removes the last instruction. -/
def dropLast (draft : MethodDraft) : MethodDraft := { draft with code := draft.code.dropLast }

/-- The instructions from a position on. -/
def tail (draft : MethodDraft) (start : Nat) : List Instruction := draft.code.drop start

/-- Removes the instructions from a position on. -/
def cut (draft : MethodDraft) (start : Nat) : MethodDraft := { draft with code := draft.code.take start }

/-! ## Labels -/

/-- Defines a label at the current position. -/
def label (draft : MethodDraft) (name : String) : Except Problem MethodDraft :=
  match draft.labels.lookup name with
  | some _ => .error (.duplicateLabel name)
  | none => .ok { draft with labels := (name, UInt32.ofNat draft.position) :: draft.labels }

/-- Emits a branch to a label. Its target is filled in when the method is finished. -/
def branch (draft : MethodDraft) (label : String) : MethodDraft :=
  let waiting : MethodDraft := { draft with fixups := draft.fixups ++ [⟨draft.position, label⟩] }
  waiting.emit .br (.target 0)

/-- Fills in the targets of the branches, in order. A label that is never defined is a problem. -/
def resolveFixups (labels : List (String × UInt32)) :
    List Fixup → List Instruction → Except Fault (List Instruction × List Problem)
  | [], code => .ok (code, [])
  | fixup :: rest, code =>
    match labels.lookup fixup.label with
    | none => do
      let (code, problems) ← resolveFixups labels rest code
      return (code, .undefinedLabel fixup.label :: problems)
    | some target =>
      if fixup.position < code.length then
        resolveFixups labels rest (code.modify fixup.position fun i => { i with operand := .target target })
      else .error .noSuchBranch

/-- Ends a method. -/
def finish (draft : MethodDraft) : Except Fault (MethodBody × List Problem) := do
  let (code, problems) ← resolveFixups draft.labels draft.fixups draft.code
  return (⟨draft.slot, draft.params, draft.locals.map (·.type), code⟩, problems)

end MethodDraft

end OnePass
