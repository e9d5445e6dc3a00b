import OnePass.Compiler.Expression
import OnePass.Compiler.Declaration
import OnePass.Compiler.Directive

/-! # One step of the compiler

`Compile.step` processes one token. First come the constructs that wait for it, in a fixed order: an
expression that must end, a base type, a list of interfaces, a value that is to be stored or
returned. Then `Compile.dispatch` acts on the kind of the token. -/

namespace OnePass.Compile

/-! ## Base types and interfaces -/

/-- Changes the current type, or reports why it cannot be changed. -/
def amendCurrent (change : TypeDraft → Option TypeDraft) (refusal : Problem) : Compile Unit := do
  let session := (← get).session
  match session.amend (← session.current?) change with
  | some session => modify ({ · with session := session })
  | none => report refusal

/-- A name without the dots at its end. -/
def trimDots (name : String) : String :=
  String.ofList (name.toList.reverse.dropWhile (· == '.')).reverse

/-- Names an interface of the current type. -/
def implementCurrent (name : String) : Compile Unit := do
  let name := trimDots name
  if name == "" then return
  amendCurrent (·.implement name) (.noTypeToImplement name)

/-- Takes a base type that the token before asked for. Tells whether the token is used up. -/
def readBase (token : Token) : Compile Bool := do
  if !(← get).pendingExtends then return false
  modify ({ · with pendingExtends := false })
  match token with
  | .literal name =>
    amendCurrent (·.extend name) (.noTypeToExtend name)
    modify ({ · with needEnd := some .extendsClause })
    return true
  | _ =>
    report (.expectedBaseType token)
    return false

/-- Whether the next word belongs to the name under way. -/
def wantsSegment (current : String) : Bool := current == "" || current.toList.getLast? == some '.'

/-- Takes a part of a list of interfaces. Tells whether the token is used up. -/
def readInterfaces (token : Token) : Compile Bool := do
  match (← get).interfaces with
  | none => return false
  | some current =>
    match token with
    | .literal name =>
      if wantsSegment current then modify ({ · with interfaces := some (current ++ name) })
      else
        modify ({ · with interfaces := some name })
        implementCurrent current
      return true
    | .separator .member =>
      if current == "" then report .separatorWithoutLiteral
      else modify ({ · with interfaces := some (current ++ ".") })
      return true
    | .separator .statement =>
      modify ({ · with interfaces := some "" })
      implementCurrent current
      return true
    | .newLine => return false
    | _ =>
      if token.isEnd then
        modify ({ · with interfaces := none })
        implementCurrent current
        return false
      else
        report (.expectedInterface token)
        return true

/-! ## Declarations -/

/-- Reads the head of a type declaration. -/
def declareType (name : String) (kind : ClassKind) (visibility : Visibility) : Compile Unit := do
  let space := (← get).space
  match ← onSession fun session => do session.declareType name space kind visibility with
  | none => return
  | some _ =>
    let session ← (← get).session.modifyType ({ · with initializing := true })
    modify ({ · with session := session })

/-- The result type of a function. -/
def resultType (name returnType : String) : Compile TypeId := do
  let compiler ← get
  let table := compiler.session.table
  if returnType == "" then return table.wellKnown.void
  match table.resolveType returnType compiler.usings with
  | some result => return result
  | none =>
    report (.unknownReturnType returnType name)
    return table.wellKnown.void

/-- Reads the head of a function declaration. -/
def openFunction (name returnType : String) (kind : FuncKind) (visibility : Visibility) : Compile Unit := do
  let result ← resultType name returnType
  let compiler ← get
  modify ({ · with methodAttrs := {} })
  let isFree := compiler.session.options.header == .script && (← compiler.session.isDefaultCurrent)
  let attrs := { compiler.methodAttrs with script := compiler.methodAttrs.script || isFree }
  match ← onSession (·.openMethod name result kind visibility attrs) with
  | some (.method ref) =>
    if isFree then modify fun compiler => { compiler with session := compiler.session.addScriptFunction ref }
  | _ => return

/-- The type of a parameter or field. -/
def variableType (name typeName : String) : Compile (Option TypeId) := do
  let compiler ← get
  let type := compiler.session.table.resolveType typeName compiler.usings
  if type.isNone then report (.unknownVariableType typeName name)
  return type

/-- Reads a variable as a parameter. -/
def declareParam (name typeName : String) : Compile Unit := do
  match ← variableType name typeName with
  | none => return
  | some type =>
    let _ ← onSession (·.declareParam name type)

/-- Reads a variable as a local. -/
def declareLocal (name typeName : String) (isFinal : Bool) : Compile Unit := do
  let usings := (← get).usings
  match ← onSession (·.declareLocal name typeName usings isFinal) with
  | none => return
  | some var => modify ({ · with lastDeclared := some (.var var) })

/-- Reads a variable as a field. -/
def declareField (name typeName : String) (isFinal : Bool) : Compile Unit := do
  match ← variableType name typeName with
  | none => return
  | some type =>
    match ← onSession (·.declareField name type isFinal) with
    | none => return
    | some ref => modify ({ · with lastDeclared := some (.field ref) })

/-- Reads a variable: a parameter before the body of a method, a local in it, and else a field. -/
def declareVar (name typeName : String) (isFinal : Bool) : Compile Unit := do
  flushReference
  let session := (← get).session
  match ← session.currentMethod? with
  | some method => if method.paramsOpen then declareParam name typeName else declareLocal name typeName isFinal
  | none =>
    if (← session.currentType?).isSome then declareField name typeName isFinal
    else report (.variableOutsideType name)

/-! ## Blocks and ends -/

/-- What a block that opens now belongs to: a type whose body has not begun, or a method whose
parameters are open. -/
def blockOwner : Option TypeDraft → BlockOwner
  | none => .plain
  | some type =>
    if type.initializing then .type
    else if type.currentMethod?.any (·.paramsOpen) then .method
    else .plain

/-- Begins the body that a block belongs to. -/
def beginBody (owner : BlockOwner) (type : TypeDraft) : TypeDraft :=
  match owner, type.openMethods with
  | .type, _ => { type with initializing := false }
  | .method, method :: rest => { type with openMethods := method.closeParams :: rest }
  | _, _ => type

/-- Reads an opening brace. -/
def openBlock : Compile Unit := do
  endExpression
  modify fun compiler =>
    { compiler with nesting := { compiler.nesting with blocks := compiler.nesting.blocks + 1 } }
  let session := (← get).session
  let owner := blockOwner (← session.currentType?)
  let session ← session.modifyType (beginBody owner)
  modify fun compiler => { compiler with session := session, blocks := owner :: compiler.blocks }

/-- Closes what a block belongs to. -/
def closeOwner (owner : Option BlockOwner) : Compile Unit := do
  let usings := (← get).usings
  match owner with
  | some .type => closing (·.closeType usings)
  | some .method => closing (·.closeMethod)
  | some .plain | none => return

/-- Reads a closing brace. -/
def closeBlock : Compile Unit := do
  endExpression
  let compiler ← get
  if compiler.nesting.blocks == 0 then report (.closedWithoutOpen .block)
  else
    modify fun compiler =>
      { compiler with
        nesting := { compiler.nesting with blocks := compiler.nesting.blocks - 1 }
        blocks := compiler.blocks.tail }
    closeOwner compiler.blocks.head?

/-- Reads the end of an expression. It also closes a type or a method without a body. -/
def expressionEnd : Compile Unit := do
  endExpression
  let compiler ← get
  match ← compiler.session.currentType? with
  | none => return
  | some type =>
    if type.initializing then closing (·.closeType compiler.usings)
    else if type.currentMethod?.any (·.paramsOpen) then closing (·.closeMethod)

/-! ## Dispatch -/

/-- Reads a word: the name of a directive, or a segment of a dotted name. -/
def literal (text : String) : Compile Unit := do
  let compiler ← get
  if compiler.inDirective then
    modify ({ · with inDirective := false })
    directive text
  else
    if !compiler.literals.isEmpty && !compiler.expectLiteral then flushReference
    modify fun compiler => { compiler with literals := compiler.literals ++ [text], expectLiteral := false }

/-- Reads a dot. -/
def memberSeparator : Compile Unit := do
  if (← get).literals.isEmpty then report .separatorWithoutLiteral else modify ({ · with expectLiteral := true })

/-- Reports brackets that are open where a clause of a type begins. -/
def checkClosed : Compile Unit := do reportAll (← get).nesting.unclosed

/-- Acts on a token. -/
def dispatch (token : Token) (retract : Option TypeId) : Compile Unit :=
  match token with
  | .newLine => modify ({ · with inDirective := false })
  | .classOpen name kind visibility => declareType name kind visibility
  | .function name returnType kind visibility => openFunction name returnType kind visibility
  | .var name typeName isFinal => declareVar name typeName isFinal
  | .block true => openBlock
  | .block false => closeBlock
  | .statement true => openStatement
  | .statement false => closeStatement
  | .sequence true => openSequence
  | .sequence false => closeSequence
  | .literal text => literal text
  | .separator .member => memberSeparator
  | .separator .statement => separate
  | .expressionEnd => expressionEnd
  | .operator op => operator op retract
  | .value content => value content
  | .directive => modify ({ · with inDirective := true })
  | .enterNamespace _ | .usingNamespace _ | .includeModule _ | .importLibrary _ => declaration token
  | .breakpoint => do
    emit (·.emit .breakpoint)
    modify ({ · with needEnd := some .breakpoint })
  | .extendsClause => do
    checkClosed
    modify ({ · with pendingExtends := true })
  | .implementsClause => do
    checkClosed
    modify ({ · with interfaces := some "" })
  | .new => modify ({ · with pendingNew := true })
  | .label name => do
    let _ ← emitting fun _ method => do return ((), ← method.label name)
  | .goto name => emit (·.branch name)
  | .returnValue => modify ({ · with consume := .ret })
  | .actual _ | .async _ | .parameterType _ | .reserved _ => return

/-- Whether a token ends an expression that must end for some reason. -/
def endsFor (token : Token) : EndReason → Bool
  | .breakpoint => token.isEnd
  | .extendsClause => token.isEnd || token == .implementsClause

/-- The problem of an expression that must end for some reason and does not. -/
def notEnded : EndReason → Problem
  | .breakpoint => .breakpointNotEnded
  | .extendsClause => .extendsNotEnded

/-- Checks that an expression ends where it must. A line break decides nothing. -/
def checkEnd (token : Token) : Compile Unit := do
  match (← get).needEnd with
  | none => return
  | some reason =>
    if token == .newLine then return
    modify ({ · with needEnd := none })
    if !endsFor token reason then report (notEnded reason)

/-- Takes the type of a call result that the token before has dropped. -/
def takeRetractable : Compile (Option TypeId) := do
  let retract := (← get).retractable
  modify ({ · with retractable := none })
  return retract

/-- Processes a token: first the constructs that wait for it, then the token itself. -/
def step (token : Token) : Compile Unit := do
  let retract ← takeRetractable
  checkEnd token
  if ← readBase token then return
  if ← readInterfaces token then return
  if (← get).consume != .normal && token.isEnd then finishConsume
  dispatch token retract

/-- Reports a type whose body has not begun. -/
def reportUnended (session : Session) : Compile Unit := do
  match ← session.currentType? with
  | none => return
  | some type => if type.initializing then report (.declarationNotEnded (← session.table.typeName type.id))

/-- Reports what waits for a token. -/
def reportWaiting (compiler : Compiler) : Compile Unit := do
  if compiler.pendingExtends then report .extendsWithoutBase
  if compiler.interfaces.isSome then report .implementsNotEnded
  match compiler.consume with
  | .normal => pure ()
  | .assign _ => report .assignmentNotEnded
  | .ret => report .returnNotEnded
  if compiler.needEnd.isSome then report .breakpointNotEnded
  if compiler.pendingNew then report .newWithoutCall
  reportUnended compiler.session

/-- Reports everything that is unfinished after the last token. -/
def checkTermination : Compile Unit := do
  let compiler ← get
  reportAll compiler.nesting.unclosed
  reportWaiting compiler

end OnePass.Compile
