import OnePass.Draft.Emission

/-! # Types under construction

A `TypeDraft` is a declared type whose body is being read: the names of its base and interfaces, the
bodies of its finished methods, and the methods that are still open, innermost first.
`TypeDraft.close` closes it: after that its definition in the symbol table is complete. -/

namespace OnePass

/-- A declared type whose body is being read. -/
structure TypeDraft where
  /-- the definition in the symbol table -/
  id : TypeId
  isOpen : Bool := true
  /-- whether the declaration was read and its body not yet begun -/
  initializing : Bool := false
  /-- number of fields, methods and constructors added -/
  members : Nat := 0
  baseName : Option String := none
  interfaceNames : List String := []
  /-- finished methods, in the order in which they were finished -/
  bodies : List MethodBody := []
  /-- open methods, innermost first -/
  openMethods : List MethodDraft := []
  deriving DecidableEq

namespace TypeDraft

/-- Whether no member was added. -/
def isEmpty (draft : TypeDraft) : Bool := draft.members == 0

/-- Counts a member. -/
def addMember (draft : TypeDraft) : TypeDraft := { draft with members := draft.members + 1 }

/-- Names the base type. A closed type takes none. -/
def extend (draft : TypeDraft) (name : String) : Option TypeDraft :=
  if draft.isOpen then some { draft with baseName := some name } else none

/-- Names an interface. A closed type takes none. -/
def implement (draft : TypeDraft) (name : String) : Option TypeDraft :=
  if draft.isOpen then some { draft with interfaceNames := draft.interfaceNames ++ [name] } else none

/-- The innermost open method. -/
def currentMethod? (draft : TypeDraft) : Option MethodDraft := draft.openMethods.head?

/-- Opens a method. -/
def openMethod (draft : TypeDraft) (method : MethodDraft) : TypeDraft :=
  { draft with openMethods := method :: draft.openMethods }

/-- Puts a method in the stead of the innermost open one. -/
def setMethod (draft : TypeDraft) (method : MethodDraft) : TypeDraft :=
  { draft with openMethods := method :: draft.openMethods.tail }

/-- Finishes the innermost open method. -/
def closeMethod (draft : TypeDraft) : Except Fault (TypeDraft × List Problem) :=
  match draft.openMethods with
  | [] => .ok (draft, [])
  | method :: rest => do
    let (body, problems) ← method.finish
    return ({ draft with openMethods := rest, bodies := draft.bodies ++ [body] }, problems)

/-- Finishes methods, in order. -/
def finishAll : List MethodDraft → Except Fault (List MethodBody × List Problem)
  | [] => .ok ([], [])
  | method :: rest => do
    let (body, problems) ← method.finish
    let (bodies, more) ← finishAll rest
    return (body :: bodies, problems ++ more)

/-- Finishes all open methods, innermost first. -/
def closeMethods (draft : TypeDraft) : Except Fault (TypeDraft × List Problem) := do
  let (bodies, problems) ← finishAll draft.openMethods
  return ({ draft with openMethods := [], bodies := draft.bodies ++ bodies }, problems)

/-- Gives a type the base of some name. -/
def resolveBase (id : TypeId) (namespaces : List String) (table : SymbolTable) :
    Option String → Except Fault (SymbolTable × List Problem)
  | none => .ok (table, [])
  | some name =>
    match table.resolveType name namespaces with
    | none => .ok (table, [.unknownBase name])
    | some base => do
      if (← table.get base).isInterface then return (table, [.baseIsInterface name])
      else return (← table.update id fun type => { type with base := some base }, [])

/-- Adds an interface to a definition that does not have it yet. -/
def addInterface (interface : TypeId) (type : TypeDef) : TypeDef :=
  if type.interfaces.contains interface then type
  else { type with interfaces := type.interfaces ++ [interface] }

/-- Gives a type the interfaces of some names. -/
def resolveInterfaces (id : TypeId) (namespaces : List String) :
    SymbolTable → List String → Except Fault (SymbolTable × List Problem)
  | table, [] => .ok (table, [])
  | table, name :: rest =>
    match table.resolveType name namespaces with
    | none => do
      let (table, problems) ← resolveInterfaces id namespaces table rest
      return (table, .unknownInterface name :: problems)
    | some interface => do
      if (← table.get interface).isInterface then
        resolveInterfaces id namespaces (← table.update id (addInterface interface)) rest
      else
        let (table, problems) ← resolveInterfaces id namespaces table rest
        return (table, .notAnInterface name :: problems)

/-- Closes a type: finishes its methods and resolves the names of its base and interfaces. A closed
type stays as it is. -/
def close (draft : TypeDraft) (table : SymbolTable) (namespaces : List String) :
    Except Fault (TypeDraft × SymbolTable × List Problem) :=
  if !draft.isOpen then .ok (draft, table, [])
  else do
    let (closed, methodProblems) ← draft.closeMethods
    let (table, baseProblems) ← resolveBase draft.id namespaces table draft.baseName
    let (table, interfaceProblems) ← resolveInterfaces draft.id namespaces table draft.interfaceNames
    return ({ closed with initializing := false, isOpen := false }, table,
      methodProblems ++ baseProblems ++ interfaceProblems)

end TypeDraft

end OnePass
