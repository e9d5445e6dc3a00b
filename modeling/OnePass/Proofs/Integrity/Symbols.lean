import OnePass.Proofs.Integrity.Outcome
import OnePass.Proofs.ModuleImage

/-! # Symbols

A symbol is anything that an id or a member reference can stand for. `SymbolTable.Has` says that a
table has a symbol. Below it, everything that the compiler holds on to has a list of its symbols:
instructions and drafts, plans of operators, call sites and frames. -/

namespace OnePass

/-- What an id or a reference stands for. -/
inductive Symbol where
  | type (id : TypeId)
  | field (ref : MemberRef)
  | method (ref : MemberRef)
  | ctor (ref : MemberRef)

namespace SymbolTable

variable {table : SymbolTable}

/-- The table has a type, or a type with a member at some position. -/
def Has (table : SymbolTable) : Symbol → Prop
  | .type id => id < table.types.length
  | .field ref => ∃ type, table.types[ref.owner]? = some type ∧ ref.index < type.fields.length
  | .method ref => ∃ type, table.types[ref.owner]? = some type ∧ ref.index < type.methods.length
  | .ctor ref => ∃ type, table.types[ref.owner]? = some type ∧ ref.index < type.ctors.length

/-- The table has some symbols. -/
def Holds (table : SymbolTable) (symbols : List Symbol) : Prop :=
  ∀ symbol ∈ symbols, table.Has symbol

@[simp]
theorem has_type {id : TypeId} : table.Has (.type id) ↔ id < table.types.length := Iff.rfl

@[simp]
theorem holds_nil : table.Holds [] := List.forall_mem_nil _

@[simp]
theorem holds_cons {symbol : Symbol} {symbols : List Symbol} :
    table.Holds (symbol :: symbols) ↔ table.Has symbol ∧ table.Holds symbols :=
  List.forall_mem_cons

@[simp]
theorem holds_append {symbols others : List Symbol} :
    table.Holds (symbols ++ others) ↔ table.Holds symbols ∧ table.Holds others :=
  List.forall_mem_append

@[simp]
theorem holds_flatMap {α : Type} {f : α → List Symbol} {list : List α} :
    table.Holds (list.flatMap f) ↔ ∀ a ∈ list, table.Holds (f a) := by
  simp only [Holds, List.mem_flatMap]
  exact ⟨fun holds a here symbol inside => holds symbol ⟨a, here, inside⟩,
    fun holds symbol ⟨a, here, inside⟩ => holds a here symbol inside⟩

@[simp]
theorem holds_map {α : Type} {f : α → Symbol} {list : List α} :
    table.Holds (list.map f) ↔ ∀ a ∈ list, table.Has (f a) :=
  List.forall_mem_map

/-- A member belongs to a type of the table. -/
theorem Has.exists_field {ref : MemberRef} (has : table.Has (.field ref)) :
    ∃ field, table.field ref = .ok field := by
  obtain ⟨type, found, inRange⟩ := has
  exact ⟨type.fields[ref.index], by simp [field, get, member, found, inRange, bind, Except.bind]⟩

theorem Has.exists_method {ref : MemberRef} (has : table.Has (.method ref)) :
    ∃ method, table.method ref = .ok method := by
  obtain ⟨type, found, inRange⟩ := has
  exact ⟨type.methods[ref.index], by simp [method, get, member, found, inRange, bind, Except.bind]⟩

theorem Has.owner {symbol : Symbol} (has : table.Has symbol) :
    match symbol with
    | .type id => id < table.types.length
    | .field ref | .method ref | .ctor ref => ref.owner < table.types.length := by
  cases symbol with
  | type id => exact has
  | field ref | method ref | ctor ref =>
    obtain ⟨type, found, -⟩ := has
    exact (List.getElem?_eq_some_iff.mp found).1

/-- One table has all symbols of another. -/
def Grows (table later : SymbolTable) : Prop := ∀ symbol, table.Has symbol → later.Has symbol

theorem Grows.refl (table : SymbolTable) : table.Grows table := fun _ has => has

theorem Grows.trans {table later last : SymbolTable} (first : table.Grows later)
    (second : later.Grows last) : table.Grows last :=
  fun symbol has => second symbol (first symbol has)

theorem Holds.grow {later : SymbolTable} {symbols : List Symbol} (holds : table.Holds symbols)
    (grows : table.Grows later) : later.Holds symbols :=
  fun symbol here => grows symbol (holds symbol here)

end SymbolTable

/-! ## Code -/

/-- The symbol of an operand. -/
def Operand.symbols : Operand → List Symbol
  | .field ref => [.field ref]
  | .method ref => [.method ref]
  | .ctor ref => [.ctor ref]
  | .type id => [.type id]
  | _ => []

/-- The symbols of some code. -/
def codeSymbols (code : List Instruction) : List Symbol := code.flatMap (·.operand.symbols)

/-- The code that an operator is lowered to has the symbols of the lowering. -/
def Lowering.symbols : Lowering → List Symbol
  | .call method => [.method method]
  | _ => []

/-- The symbols of a type that may be unknown. -/
def typeSymbols (type : Option TypeId) : List Symbol := type.toList.map .type

def OperatorPlan.symbols (plan : OperatorPlan) : List Symbol :=
  plan.lowering.symbols ++ typeSymbols plan.result

/-! ## Drafts -/

def LocalVar.symbols (var : LocalVar) : List Symbol := [.type var.type]

def MethodSlot.symbols : MethodSlot → List Symbol
  | method ref => [.method ref]
  | ctor ref => [.ctor ref]

def MethodBody.symbols (body : MethodBody) : List Symbol :=
  body.slot.symbols ++ body.params.map (.type ·.type) ++ body.locals.map .type ++
    codeSymbols body.code

def MethodDraft.symbols (draft : MethodDraft) : List Symbol :=
  draft.slot.symbols ++ draft.params.map (.type ·.type) ++ draft.locals.map (.type ·.type) ++
    codeSymbols draft.code

def TypeDraft.symbols (draft : TypeDraft) : List Symbol :=
  .type draft.id :: draft.bodies.flatMap (·.symbols) ++ draft.openMethods.flatMap (·.symbols)

def ModuleType.symbols (type : ModuleType) : List Symbol :=
  .type type.id :: type.bodies.flatMap (·.symbols)

/-! ## Names in expressions -/

def Receiver.symbols : Receiver → List Symbol
  | var loc => loc.symbols
  | field ref => [.field ref]
  | this => []

def Reference.symbols : Reference → List Symbol
  | var loc => loc.symbols
  | field receiver ref => receiver.toList.flatMap (·.symbols) ++ [.field ref]
  | constant _ | missing _ => []

def CallTarget.symbols : CallTarget → List Symbol
  | static type => [.type type]
  | onInstance receiver type => receiver.symbols ++ [.type type]
  | script | unresolved _ => []

def CallSite.symbols (site : CallSite) : List Symbol := site.target.symbols

/-! ## Expressions under way -/

def FrameKind.symbols : FrameKind → List Symbol
  | base | group => []
  | call site _ => site.symbols
  | construct type _ _ => typeSymbols type
  | sequence _ _ elements => elements.flatMap fun element => typeSymbols element.type

def Frame.symbols (frame : Frame) : List Symbol :=
  frame.kind.symbols ++ typeSymbols frame.operand ++ frame.pendingOp.toList.flatMap (·.symbols) ++
    frame.args.flatMap typeSymbols

def AssignTarget.symbols : AssignTarget → List Symbol
  | var loc => loc.symbols
  | field ref => [.field ref]

def Consume.symbols : Consume → List Symbol
  | assign target => target.toList.flatMap (·.symbols)
  | normal | ret => []

end OnePass
