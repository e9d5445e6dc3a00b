import OnePass.Session.Basic

/-! # What dotted names mean

A dotted name in an expression is a *reference*: a variable of the current method, a constant, a
field of the current type, a field of a variable, or a field reached through a type. In front of an
argument list a dotted name is a *call site*: a function of the script, a method of the enclosing
type, or a method of a variable, type or field. Resolution only reads the session; `loadReference`
and `loadReceiver` append to a method. -/

namespace OnePass

/-- The object that a member is taken from. -/
inductive Receiver where
  | var (var : LocalVar)
  | field (ref : MemberRef)
  /-- the object whose method is running -/
  | this
  deriving DecidableEq

/-- What a dotted name means where a value is expected. -/
inductive Reference where
  | var (var : LocalVar)
  | field (receiver : Option Receiver) (ref : MemberRef)
  | constant (value : Literal)
  | missing (name : String)
  deriving DecidableEq

/-- Whether a reference means nothing. -/
def Reference.isMissing : Reference → Bool
  | missing _ => true
  | _ => false

/-- Where a call goes. -/
inductive CallTarget where
  /-- a method of a type -/
  | static (type : TypeId)
  /-- a method of an object, which is pushed before the arguments -/
  | onInstance (receiver : Receiver) (type : TypeId)
  /-- a free function of the script -/
  | script
  /-- an owner that does not exist -/
  | unresolved (owner : String)
  deriving DecidableEq

/-- A call before its arguments are known. -/
structure CallSite where
  /-- the name of the method -/
  name : String
  target : CallTarget
  deriving DecidableEq

/-- The object that a call is made on. -/
def CallSite.receiver? (site : CallSite) : Option Receiver :=
  match site.target with
  | .onInstance receiver _ => some receiver
  | _ => none

/-- The segments of a dotted name, with the dots between them. -/
def dotted (segments : List String) : String := ".".intercalate segments

namespace Session

/-! ## Values -/

/-- The variable of the current method with a name. -/
def lookupVar (session : Session) (name : String) : Except Fault (Option LocalVar) := do
  return (← session.currentMethod?).bind (·.get? name)

/-- The field of the current type with a name, if the current method can use it: static fields
always, others in instance methods only. -/
def ownField? (session : Session) (name : String) : Except Fault (Option Reference) := do
  match ← session.currentType? with
  | none => return none
  | some type =>
    match ← session.table.fieldOn type.id name with
    | none => return none
    | some ref =>
      if (← session.table.field ref).isStatic then return some (.field none ref)
      else if (← session.currentMethod?).any (!·.isStatic) then return some (.field (some .this) ref)
      else return none

/-- What a single name means: a variable, then a constant, then a field of the current type. -/
def resolveSingle (session : Session) (name : String) : Except Fault Reference := do
  match ← session.lookupVar name with
  | some var => return .var var
  | none =>
    match session.constant? name with
    | some value => return .constant value
    | none => return (← session.ownField? name).getD (.missing name)

/-- What a name with several segments means by way of a type. -/
def resolvePath (session : Session) (segments namespaces : List String) : Except Fault Reference := do
  match ← session.table.resolveField (dotted segments) namespaces with
  | some ref => return .field none ref
  | none => return .missing (dotted segments)

/-- What a dotted name means where a value is expected. The first of two segments may be a variable,
which hides types of its name. -/
def resolveReference (session : Session) (segments namespaces : List String) : Except Fault Reference :=
  match segments with
  | [name] => session.resolveSingle name
  | [owner, member] => do
    match ← session.lookupVar owner with
    | none => session.resolvePath segments namespaces
    | some var =>
      match ← session.table.fieldOn var.type member with
      | some ref => return .field (some (.var var)) ref
      | none => return .missing (dotted segments)
  | _ => session.resolvePath segments namespaces

/-! ## Calls -/

/-- Where a call without an owner goes: to a free function of the script, or to a method of the
current type. In an instance method the running object is the receiver if the type has an instance
method of the name. -/
def localCallTarget (session : Session) (name : String) : Except Fault CallTarget := do
  if (← session.findScriptFunction name).isSome then return .script
  match ← session.currentType? with
  | none => return .unresolved name
  | some type =>
    if !(← session.table.hasMethodNamed type.id name) then return .unresolved name
    let inInstance := (← session.currentMethod?).any (!·.isStatic)
    let onInstance := (← session.table.get type.id).methods.any fun m => m.name == name && !m.isStatic
    if inInstance && onInstance then return .onInstance .this type.id else return .static type.id

/-- Where a call with an owner goes: the owner is a variable, a type, or a field reached through a
type. -/
def ownedCallTarget (session : Session) (owner namespaces : List String) : Except Fault CallTarget := do
  let var ←
    match owner with
    | [single] => session.lookupVar single
    | _ => .ok none
  match var with
  | some var => return .onInstance (.var var) var.type
  | none =>
    match session.table.resolveType (dotted owner) namespaces with
    | some type => return .static type
    | none =>
      match ← session.table.resolveField (dotted owner) namespaces with
      | some ref => return .onInstance (.field ref) (← session.table.field ref).type
      | none => return .unresolved (dotted owner)

/-- Where the call of a dotted name goes. The last segment is the method, the others its owner. -/
def resolveCallSite (session : Session) (segments namespaces : List String) : Except Fault CallSite := do
  match segments.getLast? with
  | none => return ⟨"", .unresolved ""⟩
  | some name =>
    match segments.dropLast with
    | [] => return ⟨name, ← session.localCallTarget name⟩
    | owner => return ⟨name, ← session.ownedCallTarget owner namespaces⟩

/-- The method that a call means once the types of its arguments are known. -/
def resolveCallee (session : Session) (site : CallSite) (args : List (Option TypeId)) :
    Except Failure MemberRef := do
  let found ←
    match site.target with
    | .static type => session.table.findMethod type site.name args
    | .onInstance receiver type => do
      let found ← session.table.findMethod type site.name args
      match found with
      | none => pure none
      | some ref =>
        if (← session.table.method ref).isStatic && receiver != .this then
          throw (Failure.problem (.staticCalledOnInstance site.name (← session.table.typeName type)))
        else pure (some ref)
    | .script => session.findScriptFunction site.name
    | .unresolved owner => throw (Failure.problem (.unknownCallOwner owner site.name))
  match found with
  | some ref => return ref
  | none => throw (.problem (.noOverload site.name args.length))

end Session

/-! ## Loading -/

namespace MethodDraft

/-- Loads a receiver, and tells its type. -/
def loadReceiver (draft : MethodDraft) (table : SymbolTable) : Receiver → Except Fault (TypeId × MethodDraft)
  | .var var => .ok (var.type, draft.loadVar var)
  | .field ref => draft.loadField table ref
  | .this => .ok (table.wellKnown.object, draft.loadThis)

/-- Loads what a name means, and tells its type. -/
def loadReference (draft : MethodDraft) (table : SymbolTable) :
    Reference → Except Failure (TypeId × MethodDraft)
  | .var var => .ok (var.type, draft.loadVar var)
  | .field none ref => draft.loadField table ref
  | .field (some receiver) ref => do
    let (_, draft) ← draft.loadReceiver table receiver
    draft.loadField table ref
  | .constant value => .ok (draft.loadConstant table value)
  | .missing name => .error (.problem (.unknownName name))

end MethodDraft

end OnePass
