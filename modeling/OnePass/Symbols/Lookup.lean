import OnePass.Symbols.Table
import OnePass.Text.Split

/-! # Finding members

The members of a type are its own and those of its supertypes, in the order of `ancestry`: the type
itself, its base chain, then the interfaces reachable from these, nearest first. Base and interface
edges may form cycles; each type is visited once.

An overload is chosen by its parameter types: an exact match wins, else the first method whose
parameters accept the arguments. An argument whose type is unknown is accepted everywhere and
matches nothing exactly. -/

namespace OnePass.SymbolTable

/-! ## Supertypes -/

/-- Follows base edges from a type until they end or repeat. -/
def baseChain (table : SymbolTable) : (fuel : Nat) → (seen : List TypeId) → TypeId → Except Fault (List TypeId)
  | 0, seen, _ => .ok seen
  | fuel + 1, seen, id =>
    if id ∈ seen then .ok seen
    else do
      match (← table.get id).base with
      | none => return seen ++ [id]
      | some base => table.baseChain fuel (seen ++ [id]) base

/-- The ids that are not yet in a list, each once. -/
def fresh (seen : List TypeId) : List TypeId → List TypeId
  | [] => []
  | id :: rest => if id ∈ seen then fresh seen rest else id :: fresh (seen ++ [id]) rest

/-- Follows interface edges, nearest first. `visited` are the types whose edges are followed,
`waiting` those found since. -/
def interfaceClosure (table : SymbolTable) :
    (fuel : Nat) → (visited waiting : List TypeId) → Except Fault (List TypeId)
  | 0, visited, waiting => .ok (visited ++ waiting)
  | _ + 1, visited, [] => .ok visited
  | fuel + 1, visited, id :: waiting => do
    let type ← table.get id
    let found := fresh (visited ++ id :: waiting) type.interfaces
    table.interfaceClosure fuel (visited ++ [id]) (waiting ++ found)

/-- A type and its supertypes: the type, its base chain, then every interface reachable from
them. -/
def ancestry (table : SymbolTable) (id : TypeId) : Except Fault (List TypeId) := do
  let chain ← table.baseChain (table.types.length + 1) [] id
  table.interfaceClosure (table.types.length + 1) [] chain

/-- Whether a value of one type can stand where another is expected. -/
def isAssignable (table : SymbolTable) (source target : TypeId) : Except Fault Bool :=
  if source == target || target == table.wellKnown.object then .ok true
  else do return (← table.ancestry source).contains target

/-! ## Fields -/

/-- The field of a type or its supertypes with a name. -/
def fieldOn (table : SymbolTable) (owner : TypeId) (name : String) : Except Fault (Option MemberRef) := do
  (← table.ancestry owner).findSomeM? fun id => do
    return ((← table.get id).fields.findIdx? (·.name == name)).map fun index => ⟨id, index⟩

/-- The field that a dotted name means: all but its last part names the owner. -/
def resolveField (table : SymbolTable) (dotted : String) (namespaces : List String) :
    Except Fault (Option MemberRef) :=
  match Text.splitLast? '.' dotted with
  | none => .ok none
  | some (owner, member) =>
    match table.resolveType owner namespaces with
    | none => .ok none
    | some id => table.fieldOn id member

/-! ## Overloads -/

/-- Whether the arguments have exactly the parameter types. -/
def matchesExactly (params : List TypeId) (args : List (Option TypeId)) : Bool :=
  (params.zip args).all fun (param, arg) => arg == some param

/-- Whether the parameters accept the arguments. -/
def accepts (table : SymbolTable) (params : List TypeId) (args : List (Option TypeId)) : Except Fault Bool :=
  (params.zip args).allM fun (param, arg) =>
    match arg with
    | none => .ok true
    | some type => table.isAssignable type param

/-- Whether a type or one of its supertypes has a method with a name. -/
def hasMethodNamed (table : SymbolTable) (owner : TypeId) (name : String) : Except Fault Bool := do
  (← table.ancestry owner).anyM fun id => do
    return (← table.get id).methods.any (·.name == name)

/-- The methods of one type with a name and a number of parameters. -/
def overloads (type : TypeDef) (id : TypeId) (name : String) (arity : Nat) : List (MemberRef × MethodDef) :=
  type.methods.zipIdx.filterMap fun (method, index) =>
    if method.name == name && method.params.length == arity then some (⟨id, index⟩, method) else none

/-- The method that a call with the given argument types means. -/
def findMethod (table : SymbolTable) (owner : TypeId) (name : String) (args : List (Option TypeId)) :
    Except Fault (Option MemberRef) := do
  let found ← (← table.ancestry owner).mapM fun id => do
    return overloads (← table.get id) id name args.length
  let candidates := found.flatten
  match candidates.find? fun (_, method) => matchesExactly method.params args with
  | some (ref, _) => return some ref
  | none => return (← candidates.findM? fun (_, method) => table.accepts method.params args).map (·.1)

/-- The static two-argument method that stands for an operator, whose first parameter accepts the
left operand. -/
def findOperator (table : SymbolTable) (lhs : TypeId) (name : String) : Except Fault (Option MemberRef) := do
  (← table.ancestry lhs).findSomeM? fun id => do
    let candidates := (← table.get id).methods.zipIdx
    let found ← candidates.findM? fun (method, _) =>
      if method.name == name && method.isStatic && method.params.length == 2 then
        match method.params with
        | first :: _ => table.isAssignable lhs first
        | [] => .ok false
      else .ok false
    return found.map fun (_, index) => ⟨id, index⟩

/-- The constructor of a type that `new` with the given argument types means. -/
def findCtor (table : SymbolTable) (owner : TypeId) (args : List (Option TypeId)) :
    Except Fault (Option MemberRef) := do
  let candidates := (← table.get owner).ctors.zipIdx.filter (·.1.params.length == args.length)
  match candidates.find? fun (ctor, _) => matchesExactly ctor.params args with
  | some (_, index) => return some ⟨owner, index⟩
  | none =>
    let found ← candidates.findM? fun (ctor, _) => table.accepts ctor.params args
    return found.map fun (_, index) => ⟨owner, index⟩

end OnePass.SymbolTable
