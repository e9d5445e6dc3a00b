import OnePass.Session.Reference
import OnePass.Files.Tree

/-! # The state of the compiler

The compiler reads one token after the other and emits code at once. What it has to remember between
tokens is a `Compiler`: the session, the tokens still to be read, the nesting of brackets, the
constructs that wait for a later token, and the expression under way.

An expression is a stack of `Frame`s, one for each open bracket of an expression, above the *base
frame* of the expression as a whole. A frame knows what its part of the expression has left on the
machine's stack and which operators wait for an operand. -/

namespace OnePass

/-! ## Frames -/

/-- What the bracket of a frame is for. -/
inductive FrameKind where
  /-- no bracket: the expression as a whole -/
  | base
  /-- parentheses around an expression -/
  | group
  /-- the arguments of a call; `start` is where their code begins, inside a method -/
  | call (site : CallSite) (start : Option Nat)
  /-- the arguments of a construction; `type` is what the name means -/
  | construct (type : Option TypeId) (name : String) (start : Option Nat)
  /-- an array literal; without a `start` it stands outside of methods and is only counted -/
  | sequence (start : Option Nat) (elementStart : Nat) (elements : List MethodDraft.Element)
  deriving DecidableEq

/-- The state of the expression inside one bracket. -/
structure Frame where
  kind : FrameKind
  /-- number of values left on the stack -/
  depth : Nat := 0
  /-- whether an operand could not be loaded -/
  failed : Bool := false
  /-- type of the last operand, if known -/
  operand : Option TypeId := none
  /-- a binary operator that waits for its right operand -/
  pendingOp : Option OperatorPlan := none
  pendingNot : Bool := false
  pendingNeg : Bool := false
  /-- types of the arguments that are complete -/
  args : List (Option TypeId) := []
  deriving DecidableEq

namespace Frame

/-- Whether an operand was read, even if it could not be loaded. -/
def hasValue (frame : Frame) : Bool := frame.depth > 0 || frame.failed

/-- Whether neither an operand nor an operator was read. -/
def isIdle (frame : Frame) : Bool :=
  !frame.hasValue && frame.pendingOp.isNone && !frame.pendingNot && !frame.pendingNeg

/-- Forgets operands and operators. -/
def resetOperand (frame : Frame) : Frame :=
  { frame with
    depth := 0
    failed := false
    operand := none
    pendingOp := none
    pendingNot := false
    pendingNeg := false }

/-- Notes an operand that could not be loaded. -/
def failOperand (frame : Frame) : Frame := { frame.resetOperand with failed := true }

/-- Ends an argument. -/
def finishArg (frame : Frame) : Frame :=
  if frame.hasValue then { frame.resetOperand with args := frame.args ++ [frame.operand] } else frame.resetOperand

/-- Whether the frame is an array literal. -/
def isSequence (frame : Frame) : Bool :=
  match frame.kind with
  | .sequence .. => true
  | _ => false

/-- Whether the frame is an array literal outside of methods. -/
def isCounted (frame : Frame) : Bool :=
  match frame.kind with
  | .sequence none _ _ => true
  | _ => false

/-- The frame of a new expression. -/
def fresh : Frame := { kind := .base }

end Frame

/-! ## Pending constructs -/

/-- A variable or field that is assigned. -/
inductive AssignTarget where
  | var (var : LocalVar)
  | field (ref : MemberRef)
  deriving DecidableEq

/-- What happens to the value of the expression at its end. -/
inductive Consume where
  /-- it is dropped -/
  | normal
  /-- it is stored; the target may be unknown -/
  | assign (target : Option AssignTarget)
  /-- it is returned -/
  | ret
  deriving DecidableEq

/-- Why the next token must end an expression. -/
inductive EndReason where
  | breakpoint
  | extendsClause
  deriving DecidableEq

/-- What a closing brace closes. -/
inductive BlockOwner where
  | type
  | method
  | plain
  deriving DecidableEq

/-- Numbers of open brackets: 32-bit counters, exactly so below `2 ^ 32`. -/
structure Nesting where
  blocks : Nat := 0
  statements : Nat := 0
  sequences : Nat := 0
  deriving DecidableEq

/-- One problem for every kind of bracket that is open. -/
def Nesting.unclosed (nesting : Nesting) : List Problem :=
  ([(nesting.blocks, Bracket.block), (nesting.statements, .statement), (nesting.sequences, .sequence)].filter
    (·.1 > 0)).map fun (count, bracket) => .unclosed count bracket

/-! ## The compiler -/

/-- Everything that the compiler remembers between two tokens. -/
structure Compiler where
  /-- the module under construction -/
  session : Session
  /-- the files that can be included and imported -/
  files : FileTree
  /-- the tokens still to be read -/
  stream : List Token
  /-- the namespace of the next declarations -/
  space : String := ""
  /-- namespaces in which names are looked up, in order -/
  usings : List String := []
  /-- segments of the dotted name under way -/
  literals : List String := []
  /-- whether a dot asks for another segment -/
  expectLiteral : Bool := false
  nesting : Nesting := {}
  /-- owners of the open blocks, innermost first -/
  blocks : List BlockOwner := []
  pendingExtends : Bool := false
  /-- the name under way in a list of interfaces -/
  interfaces : Option String := none
  consume : Consume := .normal
  needEnd : Option EndReason := none
  /-- whether the next word is the name of a directive -/
  inDirective : Bool := false
  /-- whether problems are dropped -/
  tryRegion : Bool := false
  /-- the expression as a whole -/
  base : Frame := .fresh
  /-- open brackets of the expression, innermost first -/
  frames : List Frame := []
  pendingNew : Bool := false
  /-- marks for the next function -/
  methodAttrs : MethodAttrs := {}
  /-- the variable just declared, which an assignment may initialise -/
  lastDeclared : Option AssignTarget := none
  /-- the type of a call result that was dropped by the last instruction -/
  retractable : Option TypeId := none
  /-- token libraries already spliced in -/
  imported : List String := []

namespace Compiler

/-- The innermost frame. -/
def frame (compiler : Compiler) : Frame := compiler.frames.head?.getD compiler.base

/-- Changes the innermost frame. -/
def modifyFrame (change : Frame → Frame) (compiler : Compiler) : Compiler :=
  match compiler.frames with
  | [] => { compiler with base := change compiler.base }
  | frame :: rest => { compiler with frames := change frame :: rest }

/-- Changes the base frame. -/
def modifyBase (change : Frame → Frame) (compiler : Compiler) : Compiler :=
  { compiler with base := change compiler.base }

/-- Opens a frame. -/
def pushFrame (kind : FrameKind) (compiler : Compiler) : Compiler :=
  { compiler with frames := { kind := kind } :: compiler.frames }

/-- Whether the expression is inside an array literal outside of methods. -/
def countingOnly (compiler : Compiler) : Bool := compiler.frames.any (·.isCounted)

/-- Forgets the dotted name under way. -/
def clearName (compiler : Compiler) : Compiler := { compiler with literals := [], expectLiteral := false }

end Compiler

/-! ## Actions -/

/-- A part of the compiler's work: it reads and changes the state, and may report problems. Only a
fault stops it. Problems are never read back. -/
def Compile (α : Type) : Type := Compiler → Except Fault (α × Compiler × List Problem)

namespace Compile

variable {α : Type}

instance : Monad Compile where
  pure a := fun compiler => .ok (a, compiler, [])
  bind action next := fun compiler =>
    match action compiler with
    | .error fault => .error fault
    | .ok (a, compiler, problems) =>
      match next a compiler with
      | .error fault => .error fault
      | .ok (b, compiler, more) => .ok (b, compiler, problems ++ more)

/-- Work that needs no state. -/
def lift (result : Except Fault α) : Compile α := fun compiler =>
  match result with
  | .error fault => .error fault
  | .ok a => .ok (a, compiler, [])

instance : MonadLift (Except Fault) Compile where
  monadLift := lift

/-- The state. -/
def get : Compile Compiler := fun compiler => .ok (compiler, compiler, [])

/-- Changes the state. -/
def modify (change : Compiler → Compiler) : Compile Unit := fun compiler => .ok ((), change compiler, [])

/-- Reports problems. -/
def reportAll (problems : List Problem) : Compile Unit := fun compiler => .ok ((), compiler, problems)

/-- Reports a problem. -/
def report (problem : Problem) : Compile Unit := reportAll [problem]

/-- Work that may turn out to be impossible, which is then reported. -/
def attempt (result : Except Failure α) : Compile (Option α) :=
  match result with
  | .ok a => pure (some a)
  | .error (.problem problem) => do
    report problem
    return none
  | .error (.fault fault) => lift (.error fault)

/-- Work on the session. -/
def onSession (work : Session → Except Failure (α × Session)) : Compile (Option α) := do
  match ← attempt (work (← get).session) with
  | none => return none
  | some (a, session) =>
    modify ({ · with session := session })
    return some a

/-- Work on the session that reports problems of its own. -/
def closing (work : Session → Except Fault (Session × List Problem)) : Compile Unit := do
  let (session, problems) ← work (← get).session
  modify ({ · with session := session })
  reportAll problems

/-- How an emission ended. -/
inductive Emitted (α : Type) where
  /-- there is no open method to emit to -/
  | outside
  /-- the code could not be emitted -/
  | refused
  | done (result : α)

/-- Emits code to the current method. Code outside of methods is a problem. -/
def emitting (work : SymbolTable → MethodDraft → Except Failure (α × MethodDraft)) : Compile (Emitted α) := do
  let session := (← get).session
  match ← session.currentMethod? with
  | none =>
    report .codeOutsideMethod
    return .outside
  | some method =>
    match ← attempt (work session.table method) with
    | none => return .refused
    | some (a, method) =>
      let session ← session.setMethod method
      modify ({ · with session := session })
      return .done a

/-- Emits code that has no result. -/
def emit (work : MethodDraft → MethodDraft) : Compile Unit := do
  let _ ← emitting fun _ method => .ok ((), work method)

/-- The position of the next instruction in the current method. -/
def position? : Compile (Option Nat) := do
  return (← (← get).session.currentMethod?).map (·.position)

end Compile

end OnePass
