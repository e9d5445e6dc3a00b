import OnePass.Module.Basic
import OnePass.Symbols.Host

/-! # Build sessions

A `Session` is the module under construction: the symbol table, the drafts of the declared types in
the order of their declaration, the stack of types that are open, the constants of the program, and
its entry point.

The implicit class of a class or script file is the *default type*. It is current whenever no
declared type is open, and it is closed by `Session.finish` only. -/

namespace OnePass

/-- A module under construction. -/
structure Session where
  options : BuildOptions
  table : SymbolTable
  moduleName : String
  /-- declared types, in order -/
  drafts : List TypeDraft := []
  /-- positions of the open declared types among the drafts, innermost first -/
  openTypes : List Nat := []
  /-- position of the implicit class among the drafts -/
  defaultType : Option Nat := none
  /-- the implicit main function of a script -/
  defaultMethod : Option MemberRef := none
  /-- constants of the program, the latest first -/
  constants : List (String × Literal) := []
  /-- free functions of a script, in order -/
  scriptFunctions : List MemberRef := []
  entryPoint : Option MemberRef := none
  deriving DecidableEq

namespace Session

/-! ## Creation -/

/-- The output kind that a header asks for. -/
def outputOf (options : BuildOptions) : OutputKind :=
  match options.header with
  | .library => .dll
  | .console => .consoleApplication
  | .gui => .windowApplication
  | _ => options.output

/-- The implicit class of a file. -/
def defaultDef (options : BuildOptions) : TypeDef :=
  { TypeDef.bare options.mainClassName "" .static .declared with
    visibility := .ownType
    base := some Host.table.wellKnown.object }

/-- The implicit main function of a script. -/
def mainDef : MethodDef :=
  ⟨"Main", [], Host.table.wellKnown.void, true, false, .ownType, ⟨true, true⟩⟩

/-- Opens the implicit class. If its name is taken there is none. -/
def openDefault (session : Session) : Session :=
  match session.table.define (defaultDef session.options) with
  | .error _ => session
  | .ok (id, table) =>
    { session with table := table, drafts := [{ id := id }], defaultType := some 0 }

/-- Opens the implicit main function of a script in the implicit class. -/
def openMain (session : Session) : Except Fault Session :=
  match session.drafts with
  | [] => .ok session
  | draft :: rest => do
    let (ref, table) ← session.table.addMethod draft.id mainDef
    let method : MethodDraft := { slot := .method ref, isStatic := true, paramsOpen := false }
    return { session with
      table := table
      drafts := (draft.addMember.openMethod method) :: rest
      defaultMethod := some ref
      entryPoint := some ref }

/-- An empty module over the host library, named after the application or after its file. -/
def blank (options : BuildOptions) (autoName : Bool) : Session where
  options := { options with output := outputOf options }
  table := Host.table
  moduleName := if autoName then options.appName else options.moduleStem

/-- A new session. -/
def create (options : BuildOptions) (autoName : Bool) : Except Fault Session :=
  let session := blank options autoName
  match options.header with
  | .singleClass => .ok session.openDefault
  | .script => session.openDefault.openMain
  | _ => .ok session

/-! ## The current type and method -/

/-- The draft at some position. -/
def draft (session : Session) (index : Nat) : Except Fault TypeDraft :=
  match session.drafts[index]? with
  | some draft => .ok draft
  | none => .error .noSuchDraft

/-- Puts a draft at some position. -/
def setDraft (session : Session) (index : Nat) (draft : TypeDraft) : Session :=
  { session with drafts := session.drafts.set index draft }

/-- The innermost open type, or else the default type if it is open, with its position. -/
def current? (session : Session) : Except Fault (Option (Nat × TypeDraft)) :=
  match session.openTypes.head?.or session.defaultType with
  | none => .ok none
  | some index => do
    let draft ← session.draft index
    return if draft.isOpen then some (index, draft) else none

/-- The current type. -/
def currentType? (session : Session) : Except Fault (Option TypeDraft) := do
  return (← session.current?).map (·.2)

/-- Whether the default type is current. -/
def isDefaultCurrent (session : Session) : Except Fault Bool := do
  match ← session.current? with
  | none => return false
  | some (index, _) => return session.defaultType == some index

/-- The innermost open method of the current type. -/
def currentMethod? (session : Session) : Except Fault (Option MethodDraft) := do
  return (← session.currentType?).bind (·.currentMethod?)

/-- Changes the current type. -/
def modifyType (session : Session) (change : TypeDraft → TypeDraft) : Except Fault Session := do
  match ← session.current? with
  | none => return session
  | some (index, draft) => return session.setDraft index (change draft)

/-- The default type, open or not, with its position. -/
def default? (session : Session) : Except Fault (Option (Nat × TypeDraft)) :=
  match session.defaultType with
  | none => .ok none
  | some index => do return some (index, ← session.draft index)

/-- Names a base or an interface of a type, if there is a type that takes it. -/
def amend (session : Session) (type : Option (Nat × TypeDraft)) (change : TypeDraft → Option TypeDraft) :
    Option Session := do
  let (index, draft) ← type
  let changed ← change draft
  return session.setDraft index changed

/-- Puts a method in the stead of the current one. -/
def setMethod (session : Session) (method : MethodDraft) : Except Fault Session :=
  session.modifyType (·.setMethod method)

/-- Ends the parameter list of the current method. -/
def closeParams (session : Session) : Except Fault Session := do
  match ← session.currentMethod? with
  | none => return session
  | some method => session.setMethod method.closeParams

/-! ## Declarations -/

/-- Declares a type and makes it current. -/
def declareType (session : Session) (name space : String) (kind : ClassKind) (visibility : Visibility) :
    Except Problem (TypeId × Session) := do
  let bare := TypeDef.bare name space kind .declared
  let base := if kind == .interface then none else some session.table.wellKnown.object
  let (id, table) ← session.table.define { bare with visibility := visibility, base := base }
  return (id,
    { session with
      table := table
      drafts := session.drafts ++ [{ id := id }]
      openTypes := session.drafts.length :: session.openTypes })

/-- Adds a method or constructor without parameters to a type. -/
def addFunction (table : SymbolTable) (owner : TypeId) (name : String) (result : TypeId) (kind : FuncKind)
    (isStatic : Bool) (visibility : Visibility) (attrs : MethodAttrs) :
    Except Fault (MethodSlot × SymbolTable) := do
  if kind == .constructor then
    let (ref, table) ← table.addCtor owner ⟨[], visibility⟩
    return (.ctor ref, table)
  else
    let (ref, table) ← table.addMethod owner ⟨name, [], result, isStatic, kind.isVirtual, visibility, attrs⟩
    return (.method ref, table)

/-- The entry point after a function was opened. -/
def entryAfter (session : Session) (slot : MethodSlot) (attrs : MethodAttrs) : Option MemberRef :=
  match slot with
  | .method ref => if attrs.entryPoint then some ref else session.entryPoint
  | .ctor _ => session.entryPoint

/-- Opens a method or constructor of the current type. All functions of a static type are static. -/
def openMethod (session : Session) (name : String) (result : TypeId) (kind : FuncKind) (visibility : Visibility)
    (attrs : MethodAttrs) : Except Failure (MethodSlot × Session) := do
  match ← session.current? with
  | none => throw (.problem (.functionOutsideType name))
  | some (index, draft) =>
    let isStatic := kind == .static || (← session.table.get draft.id).isStatic
    let (slot, table) ← addFunction session.table draft.id name result kind isStatic visibility attrs
    let method : MethodDraft := { slot := slot, isStatic := isStatic && kind != .constructor }
    return (slot,
      { session.setDraft index (draft.addMember.openMethod method) with
        table := table
        entryPoint := session.entryAfter slot attrs })

/-- Adds a parameter to the signature of a method or constructor. -/
def addParam (table : SymbolTable) (slot : MethodSlot) (type : TypeId) : Except Fault SymbolTable :=
  match slot with
  | .method ref => table.addMethodParam ref type
  | .ctor ref => table.addCtorParam ref type

/-- Declares a parameter of the current method. -/
def declareParam (session : Session) (name : String) (type : TypeId) : Except Failure (VarSlot × Session) := do
  match ← session.currentMethod? with
  | none => throw (.problem (.parameterOutsideFunction name))
  | some method =>
    let (slot, changed) ← method.declareParam name type
    let table ← addParam session.table method.slot type
    return (slot, { ← session.setMethod changed with table := table })

/-- Declares a local of the current method. -/
def declareLocal (session : Session) (name typeName : String) (namespaces : List String) (isFinal : Bool) :
    Except Failure (LocalVar × Session) := do
  match ← session.currentMethod? with
  | none => throw (.problem (.localOutsideFunction name))
  | some method =>
    let (var, changed) ← method.declareLocal session.table name typeName namespaces isFinal
    return (var, ← session.setMethod changed)

/-- Declares a field of the current type. All fields of a static type are static. -/
def declareField (session : Session) (name : String) (type : TypeId) (isFinal : Bool) :
    Except Failure (MemberRef × Session) := do
  match ← session.current? with
  | none => throw (.problem (.fieldOutsideType name))
  | some (index, draft) =>
    let owner ← session.table.get draft.id
    if owner.fields.any (·.name == name) then throw (.problem (.duplicateField name))
    else
      let (ref, table) ← session.table.addField draft.id ⟨name, type, owner.isStatic, isFinal, .everywhere⟩
      return (ref, { session.setDraft index draft.addMember with table := table })

/-- The constant with a name. -/
def constant? (session : Session) (name : String) : Option Literal := session.constants.lookup name

/-- Gives a constant a value, in the stead of an earlier one. -/
def setConstant (session : Session) (name : String) (value : Literal) : Session :=
  { session with constants := (name, value) :: session.constants }

/-- Notes a free function of a script. -/
def addScriptFunction (session : Session) (ref : MemberRef) : Session :=
  { session with scriptFunctions := session.scriptFunctions ++ [ref] }

/-- The first free function of a script with a name. -/
def findScriptFunction (session : Session) (name : String) : Except Fault (Option MemberRef) :=
  session.scriptFunctions.findM? fun ref => do return (← session.table.method ref).name == name

/-- Changes the kind of the output. -/
def setOutput (session : Session) (output : OutputKind) : Session :=
  { session with options := { session.options with output := output } }

/-! ## Closing -/

/-- Finishes the current method. -/
def closeMethod (session : Session) : Except Fault (Session × List Problem) := do
  match ← session.current? with
  | none => return (session, [])
  | some (index, draft) =>
    let (closed, problems) ← draft.closeMethod
    return (session.setDraft index closed, problems)

/-- Closes the type at some position. -/
def closeAt (session : Session) (index : Nat) (namespaces : List String) :
    Except Fault (Session × List Problem) := do
  let draft ← session.draft index
  let (closed, table, problems) ← draft.close session.table namespaces
  return ({ session.setDraft index closed with table := table }, problems)

/-- Closes the innermost declared type. -/
def closeType (session : Session) (namespaces : List String) : Except Fault (Session × List Problem) :=
  match session.openTypes with
  | [] => .ok (session, [])
  | index :: rest => closeAt { session with openTypes := rest } index namespaces

/-- Closes the types at some positions, in order. -/
def closeEach (namespaces : List String) : List Nat → Session → Except Fault (Session × List Problem)
  | [], session => .ok (session, [])
  | index :: rest, session => do
    let (session, problems) ← session.closeAt index namespaces
    let (session, more) ← closeEach namespaces rest session
    return (session, problems ++ more)

/-- Finishes the functions that are open inside the main function of a script, and lets the main
function return. -/
def finishMain (draft : TypeDraft) : Except Fault (TypeDraft × List Problem) := do
  let (bodies, problems) ← TypeDraft.finishAll draft.openMethods.dropLast
  let main := draft.openMethods.getLast?.toList.map (·.emit .ret)
  return ({ draft with bodies := draft.bodies ++ bodies, openMethods := main }, problems)

/-- Closes the default type, which has members. -/
def closeDefault (session : Session) (index : Nat) (draft : TypeDraft) (namespaces : List String) :
    Except Fault (Session × List Problem) := do
  let (draft, problems) ← if session.defaultMethod.isSome then finishMain draft else .ok (draft, [])
  let (session, more) ← (session.setDraft index draft).closeAt index namespaces
  return (session, problems ++ more)

/-- The first method of some types that is marked as entry point. -/
def scanEntryPoint (table : SymbolTable) (drafts : List TypeDraft) : Except Fault (Option MemberRef) :=
  drafts.findSomeM? fun draft => do
    return ((← table.get draft.id).methods.findIdx? (·.attrs.entryPoint)).map fun index => ⟨draft.id, index⟩

/-- The drafts without the one at some position. -/
def withoutDraft (dropped : Option Nat) (drafts : List TypeDraft) : List TypeDraft :=
  (drafts.zipIdx.filter fun (_, index) => some index != dropped).map (·.1)

/-- The default type, if it is without members and so is no part of the module. -/
def unusedDefault? (session : Session) : Except Fault (Option Nat) :=
  match session.defaultType with
  | none => .ok none
  | some index => do return if (← session.draft index).isEmpty then some index else none

/-- Closes the default type, if there is one and it has members. -/
def finishDefault (session : Session) (namespaces : List String) : Except Fault (Session × List Problem) :=
  match session.defaultType with
  | none => .ok (session, [])
  | some index => do
    let draft ← session.draft index
    if draft.isEmpty then return (session, []) else session.closeDefault index draft namespaces

/-- Closes everything that is still open and hands over the module. A default type without members
is dropped. -/
def finish (session : Session) (namespaces : List String) : Except Fault (CompiledModule × List Problem) := do
  let dropped ← session.unusedDefault?
  let (session, defaultProblems) ← session.finishDefault namespaces
  let (session, openProblems) ← closeEach namespaces session.openTypes session
  let (session, restProblems) ← closeEach namespaces (List.range session.drafts.length) session
  let kept := withoutDraft dropped session.drafts
  let entryPoint ←
    match session.entryPoint with
    | some ref => .ok (some ref)
    | none => scanEntryPoint session.table kept
  return (
    { name := session.moduleName
      version := session.options.version
      header := session.options.header
      output := session.options.output
      table := session.table
      types := kept.map fun draft => ⟨draft.id, draft.bodies⟩
      entryPoint := entryPoint },
    defaultProblems ++ openProblems ++ restProblems)

end Session

end OnePass
