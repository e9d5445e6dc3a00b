import OnePass.Compiler.State

/-! # Expressions

How the tokens of an expression become code. There is no tree: a dotted name is collected until it
is known to be a value, the target of an assignment or the head of a call; a value on the stack
meets the operators that wait for it; a bracket opens a frame, and what the bracket holds is turned
into a value of the frame below when it closes. The arguments of a call are emitted before the call
is resolved, so a receiver is put in front of them afterwards. -/

namespace OnePass.Compile

/-! ## Operands -/

/-- Takes the operators of the innermost frame that wait for an operand. -/
def takePending : Compile (Bool × Bool × Option OperatorPlan) := do
  let frame := (← get).frame
  modify (·.modifyFrame ({ · with pendingNeg := false, pendingNot := false, pendingOp := none }))
  return (frame.pendingNeg, frame.pendingNot, frame.pendingOp)

/-- Emits waiting operators, and tells the type that they leave. -/
def applyPending (neg not : Bool) (plan : Option OperatorPlan) (type : Option TypeId)
    (table : SymbolTable) (method : MethodDraft) : Option TypeId × MethodDraft :=
  let method := if neg then method.emit .neg else method
  let (type, method) := if not then (some table.wellKnown.boolean, method.negate) else (type, method)
  match plan with
  | none => (type, method)
  | some plan => (plan.result, method.apply plan)

/-- Takes note of a value that was put on the stack, and applies the operators that wait for it. -/
def pushOperand (type : Option TypeId) : Compile Unit := do
  let (neg, not, plan) ← takePending
  let result ←
    if neg || not || plan.isSome then
      match ← emitting fun table method => .ok (applyPending neg not plan type table method) with
      | .done result => pure result
      | .refused | .outside => pure none
    else pure type
  modify (·.modifyFrame fun frame =>
    { frame with
      depth := if plan.isNone || frame.depth == 0 then frame.depth + 1 else frame.depth
      operand := result })

/-- Takes note of an operand that could not be loaded. -/
def failOperand : Compile Unit := modify (·.modifyFrame Frame.failOperand)

/-- Takes the segments of the dotted name under way. -/
def takeName : Compile (List String) := do
  let segments := (← get).literals
  modify (·.clearName)
  return segments

/-- What a dotted name means here. -/
def resolveHere (segments : List String) : Compile Reference := do
  let compiler ← get
  compiler.session.resolveReference segments compiler.usings

/-- Loads the dotted name under way, if there is one, as a value. -/
def flushReference : Compile Unit := do
  if (← get).literals.isEmpty then return
  let segments ← takeName
  if (← get).countingOnly then return
  let reference ← resolveHere segments
  match ← emitting fun table method => method.loadReference table reference with
  | .done type => pushOperand (some type)
  | .refused | .outside => failOperand

/-- Loads a literal value. -/
def value (literal : Literal) : Compile Unit := do
  flushReference
  if (← get).countingOnly then return
  match ← emitting fun table method => .ok (method.loadConstant table literal) with
  | .done type => pushOperand (some type)
  | .refused | .outside => return

/-! ## Operators -/

/-- Reads a binary operator: it is planned now and applied after its right operand. -/
def binary (op : Operator) : Compile Unit := do
  flushReference
  let compiler ← get
  let frame := compiler.frame
  if !frame.hasValue then report (.missingLeftOperand op)
  else
    match frame.pendingOp with
    | some previous => report (.operatorAfterOperator op previous.op)
    | none =>
      match ← attempt (compiler.session.table.planOperator frame.operand op) with
      | none => return
      | some plan => modify (·.modifyFrame ({ · with pendingOp := some plan }))

/-- Turns the result of a call that was just dropped back into an operand. -/
def retractDiscard (type : TypeId) : Compile Unit := do
  let compiler ← get
  if !compiler.frames.isEmpty then return
  match ← compiler.session.currentMethod? with
  | none => return
  | some method =>
    if method.last?.map (·.opcode) == some .pop then
      let session ← compiler.session.setMethod method.dropLast
      modify ({ · with session := session })
      modify (·.modifyBase fun base => { base with depth := base.depth + 1, operand := some type })

/-- The target of an assignment: the dotted name under way, or else the variable just declared. The
receiver of an instance field is loaded now, in front of the value. -/
def takeTarget : Compile (Option AssignTarget) := do
  let compiler ← get
  if compiler.literals.isEmpty then
    modify ({ · with lastDeclared := none })
    if compiler.lastDeclared.isNone then report .assignmentWithoutTarget
    return compiler.lastDeclared
  let segments ← takeName
  match ← resolveHere segments with
  | .var var => return some (.var var)
  | .field receiver ref =>
    match receiver with
    | none => pure ()
    | some receiver =>
      let _ ← emitting fun table method => method.loadReceiver table receiver
    return some (.field ref)
  | .constant _ =>
    report (.constantAssigned (dotted segments))
    return none
  | .missing name =>
    report (.unknownName name)
    return none

/-- Loads the target of a compound assignment. A receiver is kept for the store. -/
def loadTarget (target : AssignTarget) (table : SymbolTable) (method : MethodDraft) :
    Except Failure (TypeId × MethodDraft) :=
  match target with
  | .var var => .ok (var.type, method.loadVar var)
  | .field ref => do
    let field ← table.field ref
    let method := if field.isStatic then method else method.emit .dup
    method.loadField table ref

/-- Reads a compound assignment: the target is loaded, and the operator waits for the value. -/
def compoundAssign (op : Operator) : Compile Unit := do
  let target ← takeTarget
  match target with
  | none => pure ()
  | some target =>
    match ← emitting (loadTarget target) with
    | .refused | .outside => pure ()
    | .done type =>
      modify (·.modifyBase fun base => { base with depth := base.depth + 1, operand := some type })
      match ← attempt ((← get).session.table.planOperator (some type) op) with
      | none => pure ()
      | some plan => modify (·.modifyBase ({ · with pendingOp := some plan }))
  modify ({ · with consume := .assign target })

/-- Steps a field by one. -/
def stepField (op : Operator) (receiver : Option Receiver) (ref : MemberRef) (table : SymbolTable)
    (method : MethodDraft) : Except Failure (Unit × MethodDraft) := do
  let method ←
    match receiver with
    | none => pure method
    | some receiver =>
      let (_, method) ← method.loadReceiver table receiver
      pure (method.emit .dup)
  let (_, method) ← method.loadField table ref
  let method ← (method.step op).storeField table ref
  return ((), method)

/-- Steps a named variable by one. -/
def stepName (op : Operator) (segments : List String) : Compile Unit := do
  match ← resolveHere segments with
  | .var var =>
    match ← emitting fun _ method => .ok ((), (method.loadVar var).step op) with
    | .refused | .outside => return
    | .done () =>
      let _ ← emitting fun _ method => do return ((), ← method.storeVar var)
  | .field receiver ref =>
    let _ ← emitting (stepField op receiver ref)
  | .constant _ => report (.constantChanged (dotted segments))
  | .missing name => report (.unknownName name)

/-- Reads an increment or decrement, of the dotted name under way or else of the value on the
stack. -/
def stepValue (op : Operator) : Compile Unit := do
  let compiler ← get
  if compiler.literals.isEmpty then
    if compiler.frame.hasValue then emit (·.step op) else report (.missingOperand op)
  else
    let segments ← takeName
    stepName op segments

/-- Whether a minus sign stands before an operand rather than between two. -/
def isSign (compiler : Compiler) : Bool :=
  compiler.literals.isEmpty && (!compiler.frame.hasValue || compiler.frame.pendingOp.isSome)

/-- Reads an operator. `retract` is the type of a call result that the token before has dropped. -/
def operator (op : Operator) (retract : Option TypeId) : Compile Unit := do
  match retract with
  | some type => retractDiscard type
  | none => pure ()
  match op with
  | .assign =>
    let target ← takeTarget
    modify ({ · with consume := .assign target })
  | .inc | .dec => stepValue op
  | .not =>
    flushReference
    modify (·.modifyFrame fun frame => { frame with pendingNot := !frame.pendingNot })
  | _ =>
    if op == .sub && isSign (← get) then
      modify (·.modifyFrame fun frame => { frame with pendingNeg := !frame.pendingNeg })
    else
      match op.compoundBase? with
      | some base => compoundAssign base
      | none => binary op

/-! ## Ends of expressions -/

/-- Stores the value of the expression. -/
def store (target : Option AssignTarget) : Compile Unit := do
  let base := (← get).base
  if base.pendingOp.isSome then return
  if !base.hasValue then
    if target.isSome then report .assignmentWithoutValue
    return
  if base.depth == 0 then return
  let stored ←
    match target with
    | none => pure .refused
    | some (.var var) => emitting fun _ method => do return ((), ← method.storeVar var)
    | some (.field ref) => emitting fun table method => do return ((), ← method.storeField table ref)
  match stored with
  | .done () => modify (·.modifyBase fun base => { base with depth := base.depth - 1 })
  | .refused | .outside => return

/-- Stores or returns the value of the expression, as an earlier token asked for. -/
def finishConsume : Compile Unit := do
  flushReference
  let consume := (← get).consume
  modify ({ · with consume := .normal })
  match consume with
  | .normal => return
  | .assign target => store target
  | .ret =>
    emit (·.emit .ret)
    modify (·.modifyBase Frame.resetOperand)

/-- Drops values from the stack. -/
def dropValues (count : Nat) : Compile Unit := do
  if count > 0 then emit (·.append (List.replicate count ⟨.pop, .none⟩))

/-- Forgets what waits for the rest of the expression. -/
def forgetWaiting : Compile Unit := do
  if (← get).pendingNew then
    modify ({ · with pendingNew := false })
    report .newNotFollowedByCall
  modify ({ · with lastDeclared := none })

/-- Ends the expression: values that it has left are dropped. -/
def endExpression : Compile Unit := do
  flushReference
  let base := (← get).base
  modify ({ · with base := .fresh })
  match base.pendingOp with
  | some plan => report (.missingRightOperand plan.op)
  | none => pure ()
  dropValues base.depth
  forgetWaiting

/-! ## Calls and groups -/

/-- Reads an opening parenthesis: after a name it begins arguments, else a group. -/
def openStatement : Compile Unit := do
  modify fun compiler =>
    { compiler with nesting := { compiler.nesting with statements := compiler.nesting.statements + 1 } }
  let compiler ← get
  modify ({ · with pendingNew := false })
  if compiler.literals.isEmpty || compiler.expectLiteral then
    if compiler.pendingNew then report .newWithoutType
    modify (·.pushFrame .group)
  else
    let segments ← takeName
    let start ← position?
    if compiler.pendingNew then
      let name := dotted segments
      let type := compiler.session.table.resolveType name compiler.usings
      modify (·.pushFrame (.construct type name start))
    else
      let site ← compiler.session.resolveCallSite segments compiler.usings
      modify (·.pushFrame (.call site start))

/-- Drops the arguments of a call that cannot be made. -/
def abandonCall (start : Option Nat) : Compile Unit := do
  match start with
  | none => pure ()
  | some start =>
    let session := (← get).session
    match ← session.currentMethod? with
    | none => pure ()
    | some method =>
      let session ← session.setMethod (method.cut start)
      modify ({ · with session := session })
  failOperand

/-- Emits a call whose arguments are on the stack. The receiver is put in front of the code of the
arguments. -/
def callCode (receiver : Option Receiver) (start : Option Nat) (ref : MemberRef) (discard : Bool)
    (table : SymbolTable) (method : MethodDraft) : Except Failure (Option TypeId × MethodDraft) := do
  let method ←
    match receiver with
    | none => pure method
    | some receiver =>
      let start := start.getD 0
      let args := method.tail start
      let (_, method) ← (method.cut start).loadReceiver table receiver
      pure (method.append args)
  method.call table ref discard

/-- Makes a call. If nothing waits for its result, the result is dropped; an operator right after
the call can take it back. -/
def emitCall (site : CallSite) (start : Option Nat) (args : List (Option TypeId)) : Compile Unit := do
  let compiler ← get
  match ← attempt (compiler.session.resolveCallee site args) with
  | none => abandonCall start
  | some ref =>
    let discard := compiler.frames.isEmpty && compiler.consume == .normal && compiler.base.isIdle
    let method ← compiler.session.table.method ref
    let isVoid ← compiler.session.table.isVoid method.result
    let receiver := if method.isStatic then none else site.receiver?
    match ← emitting (callCode receiver start ref discard) with
    | .done (some type) => pushOperand (some type)
    | .done none =>
      if discard && !isVoid then modify ({ · with retractable := some method.result })
    | .refused => abandonCall start
    | .outside => return

/-- Constructs an object. -/
def emitConstruct (type : Option TypeId) (name : String) (start : Option Nat) (args : List (Option TypeId)) :
    Compile Unit := do
  match type with
  | none =>
    report (.unknownConstructedType name)
    abandonCall start
  | some type =>
    match ← emitting fun table method => method.constructFrom table type args with
    | .done type => pushOperand (some type)
    | .refused => abandonCall start
    | .outside => return

/-- Ends a group: its value is an operand of the frame below. -/
def finishGroup (frame : Frame) : Compile Unit := do
  match frame.pendingOp with
  | some plan => report (.missingRightOperand plan.op)
  | none => pure ()
  if frame.depth > 0 then pushOperand frame.operand
  else if frame.failed then failOperand

/-- Reads a closing parenthesis. -/
def closeStatement : Compile Unit := do
  let compiler ← get
  if compiler.nesting.statements == 0 then report (.closedWithoutOpen .statement)
  else if compiler.frames.head?.any (·.isSequence) then report .statementClosedInArray
  else
    modify fun compiler =>
      { compiler with nesting := { compiler.nesting with statements := compiler.nesting.statements - 1 } }
    flushReference
    match (← get).frames with
    | [] => return
    | frame :: rest =>
      modify ({ · with frames := rest })
      match frame.kind with
      | .base | .group | .sequence .. => finishGroup frame
      | .call site start => emitCall site start frame.finishArg.args
      | .construct type name start => emitConstruct type name start frame.finishArg.args

/-! ## Array literals -/

/-- Ends an element of an array literal whose code ends at some position. -/
def finishElementAt (position : Nat) (frame : Frame) : Frame :=
  match frame.kind with
  | .sequence (some start) elementStart elements =>
    let elements :=
      if frame.hasValue then elements ++ [⟨elementStart, position, frame.operand⟩] else elements
    { frame.resetOperand with kind := .sequence (some start) position elements }
  | _ => frame.resetOperand

/-- Ends an element of the innermost array literal. -/
def finishElement : Compile Unit := do
  let position := (← position?).getD 0
  modify fun compiler =>
    match compiler.frames with
    | [] => compiler
    | frame :: rest => { compiler with frames := finishElementAt position frame :: rest }

/-- Reads a comma: it ends an argument or an element; elsewhere it drops the dotted name under
way. -/
def separate : Compile Unit := do
  let kind : Option FrameKind := (← get).frames.head?.map (·.kind)
  match kind with
  | some (.call ..) | some (.construct ..) =>
    flushReference
    modify (·.modifyFrame Frame.finishArg)
  | some (.sequence ..) =>
    flushReference
    finishElement
  | _ => modify (·.clearName)

/-- Reads an opening bracket. -/
def openSequence : Compile Unit := do
  modify fun compiler =>
    { compiler with nesting := { compiler.nesting with sequences := compiler.nesting.sequences + 1 } }
  flushReference
  let start ← if (← get).countingOnly then pure none else position?
  modify (·.pushFrame (.sequence start (start.getD 0) []))

/-- Reads a closing bracket: the code of the elements becomes the construction of an array. -/
def closeSequence : Compile Unit := do
  let compiler ← get
  if compiler.nesting.sequences == 0 then report (.closedWithoutOpen .sequence)
  else if !compiler.frames.head?.any (·.isSequence) then report .arrayClosedInStatement
  else
    modify fun compiler =>
      { compiler with nesting := { compiler.nesting with sequences := compiler.nesting.sequences - 1 } }
    flushReference
    finishElement
    match (← get).frames with
    | [] => return
    | frame :: rest =>
      modify ({ · with frames := rest })
      match frame.kind with
      | .sequence (some start) _ elements =>
        match ← emitting fun table method => .ok (method.lowerSequence table start elements) with
        | .done type => pushOperand (some type)
        | .refused | .outside => return
      | _ => return

end OnePass.Compile
