import OnePass.Proofs.ModuleFile

/-! # Images of modules

A module refers to types by their ids, its file by their full names. `CompiledModule.named` is the
module with every id replaced by the name that the symbol table gives it. It is defined on every
module; where all ids are in range of the table (`CompiledModule.InRange`), it is the image that is
written (`image_eq_ok`).

The main statement is `CompiledModule.write_eq_ok_iff_read_eq_ok`: such a module can be written
exactly when its lengths fit in four bytes, and its file is the one file from which its named image
is read. -/

namespace OnePass

open List

theorem mapM_eq_ok {α β ε : Type} {f : α → Except ε β} {g : α → β} {list : List α}
    (each : ∀ a ∈ list, f a = .ok (g a)) : list.mapM f = .ok (list.map g) := by
  induction list with
  | nil => rfl
  | cons a list ih =>
    have first : f a = .ok (g a) := each a mem_cons_self
    have others : list.mapM f = .ok (list.map g) := ih fun b here => each b (mem_cons_of_mem a here)
    simp only [mapM_cons, first, others, bind, Except.bind, pure, Except.pure, map_cons]

theorem optionMapM_eq_ok {α β ε : Type} {f : α → Except ε β} {g : α → β} {value : Option α}
    (each : ∀ a ∈ value, f a = .ok (g a)) : value.mapM f = .ok (value.map g) := by
  cases value with
  | none => rfl
  | some a =>
    have here : f a = .ok (g a) := each a rfl
    simp only [Option.mapM, here, Functor.map, Except.map, Option.map_some]

/-! ## Names for ids -/

namespace SymbolTable

variable {table : SymbolTable} {id : TypeId}

/-- The definition of a type; a type without name and members where there is none. -/
def definition (table : SymbolTable) (id : TypeId) : TypeDef :=
  table.types[id]?.getD (.bare "" "" .plain .declared)

/-- The full name of a type. -/
def nameOf (table : SymbolTable) (id : TypeId) : String := (table.definition id).fullName

theorem get_eq_ok (inRange : id < table.types.length) :
    table.get id = .ok (table.definition id) := by
  simp only [get, definition, getElem?_eq_getElem inRange, Option.getD_some]

theorem typeName_eq_ok (inRange : id < table.types.length) :
    table.typeName id = .ok (table.nameOf id) := by
  simp only [typeName, get_eq_ok inRange, nameOf, bind, Except.bind, pure, Except.pure]

end SymbolTable

section Named

variable (name : TypeId → String)

/-- A member with its owner's name. -/
def MemberRef.named (ref : MemberRef) : MemberImage := ⟨name ref.owner, ref.index⟩

/-- A field with names for ids. -/
def FieldDef.named (field : FieldDef) : FieldImage :=
  ⟨field.name, name field.type, field.isStatic, field.isFinal, field.visibility⟩

/-- A method with names for ids. -/
def MethodDef.named (method : MethodDef) : MethodImage where
  name := method.name
  params := method.params.map name
  result := name method.result
  isStatic := method.isStatic
  isVirtual := method.isVirtual
  visibility := method.visibility
  attrs := method.attrs

/-- A constructor with names for ids. -/
def CtorDef.named (ctor : CtorDef) : CtorImage := ⟨ctor.params.map name, ctor.visibility⟩

/-- An operand with names for ids. -/
def Operand.named : Operand → OperandImage
  | .none => .none
  | .i4 value => .i4 value
  | .i8 value => .i8 value
  | .r4 bits => .r4 bits
  | .r8 bits => .r8 bits
  | .string value => .string value
  | .loc index => .loc index
  | .arg index => .arg index
  | .field ref => .field (ref.named name)
  | .method ref => .method (ref.named name)
  | .ctor ref => .ctor (ref.named name)
  | .type id => .type (name id)
  | .target position => .target position

/-- An instruction with names for ids. -/
def Instruction.named (instruction : Instruction) : InstructionImage :=
  ⟨instruction.opcode, instruction.operand.named name⟩

/-- The position of a method or constructor among those of its type. -/
def MethodSlot.place : MethodSlot → SlotImage
  | .method ref => .method ref.index
  | .ctor ref => .ctor ref.index

/-- A body with names for ids. -/
def MethodBody.named (body : MethodBody) : BodyImage where
  slot := body.slot.place
  locals := body.locals.map name
  code := body.code.map (·.named name)

/-- A type and the bodies of its methods, with names for ids. -/
def TypeDef.named (type : TypeDef) (bodies : List MethodBody) : TypeImage where
  name := type.name
  space := type.space
  kind := type.kind
  visibility := type.visibility
  base := type.base.map name
  interfaces := type.interfaces.map name
  fields := type.fields.map (·.named name)
  methods := type.methods.map (·.named name)
  ctors := type.ctors.map (·.named name)
  bodies := bodies.map (·.named name)

end Named

/-- The module with names for ids. -/
def CompiledModule.named (compiled : CompiledModule) : ModuleImage where
  name := compiled.name
  version := compiled.version
  header := compiled.header
  output := compiled.output
  entryPoint := compiled.entryPoint.map (·.named compiled.table.nameOf)
  types := compiled.types.map fun type =>
    (compiled.table.definition type.id).named compiled.table.nameOf type.bodies

/-! ## The ids in a module -/

/-- The ids in a method. -/
def MethodDef.typeIds (method : MethodDef) : List TypeId := method.result :: method.params

/-- The ids in an operand. -/
def Operand.typeIds : Operand → List TypeId
  | .field ref | .method ref | .ctor ref => [ref.owner]
  | .type id => [id]
  | _ => []

/-- The ids in a body. -/
def MethodBody.typeIds (body : MethodBody) : List TypeId :=
  body.locals ++ body.code.flatMap (·.operand.typeIds)

/-- The ids in a definition. -/
def TypeDef.typeIds (type : TypeDef) : List TypeId :=
  type.base.toList ++ type.interfaces ++ type.fields.map (·.type) ++ type.methods.flatMap
    (·.typeIds) ++ type.ctors.flatMap (·.params)

/-- The ids in a declared type: its own, those in its definition and those in its bodies. -/
def ModuleType.typeIds (table : SymbolTable) (type : ModuleType) : List TypeId :=
  type.id :: (table.definition type.id).typeIds ++ type.bodies.flatMap (·.typeIds)

/-- The ids in a module. -/
def CompiledModule.typeIds (compiled : CompiledModule) : List TypeId :=
  compiled.entryPoint.toList.map (·.owner) ++ compiled.types.flatMap (·.typeIds compiled.table)

/-! ## The image of a module in range -/

namespace SymbolTable

variable {table : SymbolTable}

/-- The table has the types with the given ids. -/
def HasTypes (table : SymbolTable) (ids : List TypeId) : Prop := ∀ id ∈ ids, id < table.types.length

instance (ids : List TypeId) : Decidable (table.HasTypes ids) :=
  inferInstanceAs (Decidable (∀ id ∈ ids, id < table.types.length))

@[simp]
theorem hasTypes_nil : table.HasTypes [] := forall_mem_nil _

@[simp]
theorem hasTypes_cons {id : TypeId} {ids : List TypeId} :
    table.HasTypes (id :: ids) ↔ id < table.types.length ∧ table.HasTypes ids :=
  forall_mem_cons

@[simp]
theorem hasTypes_append {ids others : List TypeId} :
    table.HasTypes (ids ++ others) ↔ table.HasTypes ids ∧ table.HasTypes others :=
  forall_mem_append

@[simp]
theorem hasTypes_flatMap {α : Type} {f : α → List TypeId} {list : List α} :
    table.HasTypes (list.flatMap f) ↔ ∀ a ∈ list, table.HasTypes (f a) := by
  simp only [HasTypes, mem_flatMap]
  exact ⟨fun has a here id inside => has id ⟨a, here, inside⟩,
    fun has id ⟨a, here, inside⟩ => has a here id inside⟩

theorem HasTypes.typeNames_eq_ok {ids : List TypeId} (has : table.HasTypes ids) :
    ids.mapM table.typeName = .ok (ids.map table.nameOf) :=
  mapM_eq_ok fun id here => typeName_eq_ok (has id here)

theorem memberImage_eq_ok {ref : MemberRef} (inRange : ref.owner < table.types.length) :
    table.memberImage ref = .ok (ref.named table.nameOf) := by
  simp only [memberImage, typeName_eq_ok inRange, MemberRef.named]
  rfl

theorem fieldImage_eq_ok {field : FieldDef} (inRange : field.type < table.types.length) :
    table.fieldImage field = .ok (field.named table.nameOf) := by
  simp only [fieldImage, typeName_eq_ok inRange, FieldDef.named]
  rfl

theorem methodImage_eq_ok {method : MethodDef} (has : table.HasTypes method.typeIds) :
    table.methodImage method = .ok (method.named table.nameOf) := by
  obtain ⟨result, params⟩ := hasTypes_cons.mp has
  simp only [methodImage, params.typeNames_eq_ok, typeName_eq_ok result, MethodDef.named]
  rfl

theorem ctorImage_eq_ok {ctor : CtorDef} (has : table.HasTypes ctor.params) :
    table.ctorImage ctor = .ok (ctor.named table.nameOf) := by
  simp only [ctorImage, has.typeNames_eq_ok, CtorDef.named]
  rfl

theorem operandImage_eq_ok {operand : Operand} (has : table.HasTypes operand.typeIds) :
    table.operandImage operand = .ok (operand.named table.nameOf) := by
  cases operand with
  | field ref | method ref | ctor ref =>
    simp only [operandImage, memberImage_eq_ok (hasTypes_cons.mp has).1, Operand.named]
    rfl
  | type id =>
    -- The only operand that is an id itself; the members have one as their owner.
    simp only [operandImage, typeName_eq_ok (hasTypes_cons.mp has).1, Operand.named]
    rfl
  | _ => rfl

theorem instructionImage_eq_ok {instruction : Instruction}
    (has : table.HasTypes instruction.operand.typeIds) :
    table.instructionImage instruction = .ok (instruction.named table.nameOf) := by
  simp only [instructionImage, operandImage_eq_ok has, Instruction.named]
  rfl

theorem bodyImage_eq_ok {body : MethodBody} (has : table.HasTypes body.typeIds) :
    table.bodyImage body = .ok (body.named table.nameOf) := by
  simp only [MethodBody.typeIds, hasTypes_append, hasTypes_flatMap] at has
  obtain ⟨locals, code⟩ := has
  have code_eq := mapM_eq_ok fun instruction here => instructionImage_eq_ok (code instruction here)
  have slot_eq : slotImage body.slot = body.slot.place := by cases body.slot <;> rfl
  simp only [bodyImage, locals.typeNames_eq_ok, code_eq, slot_eq, MethodBody.named]
  rfl

theorem typeImage_eq_ok {type : ModuleType} (has : table.HasTypes (type.typeIds table)) :
    table.typeImage type = .ok ((table.definition type.id).named table.nameOf type.bodies) := by
  simp only [ModuleType.typeIds, TypeDef.typeIds, cons_append, hasTypes_cons, hasTypes_append,
    hasTypes_flatMap] at has
  obtain ⟨inRange, ⟨⟨⟨⟨base, interfaces⟩, fields⟩, methods⟩, ctors⟩, bodies⟩ := has
  have base_eq := optionMapM_eq_ok fun id here =>
    typeName_eq_ok (base id (Option.mem_toList.mpr here))
  have fields_eq := mapM_eq_ok fun (field : FieldDef) here =>
    fieldImage_eq_ok (fields field.type (mem_map_of_mem here))
  have methods_eq := mapM_eq_ok fun method here => methodImage_eq_ok (methods method here)
  have ctors_eq := mapM_eq_ok fun ctor here => ctorImage_eq_ok (ctors ctor here)
  have bodies_eq := mapM_eq_ok fun body here => bodyImage_eq_ok (bodies body here)
  simp only [typeImage, get_eq_ok inRange, base_eq, interfaces.typeNames_eq_ok,
    fields_eq, methods_eq, ctors_eq, bodies_eq, TypeDef.named, bind, Except.bind, pure, Except.pure]

end SymbolTable

namespace CompiledModule

/-- The table has every type that the module refers to. -/
abbrev InRange (compiled : CompiledModule) : Prop := compiled.table.HasTypes compiled.typeIds

theorem image_eq_ok {compiled : CompiledModule} (inRange : compiled.InRange) :
    compiled.image = .ok compiled.named := by
  simp only [InRange, typeIds, SymbolTable.hasTypes_append, SymbolTable.hasTypes_flatMap] at inRange
  obtain ⟨entryPoint, types⟩ := inRange
  have entry_eq := optionMapM_eq_ok fun (ref : MemberRef) here => SymbolTable.memberImage_eq_ok
    (entryPoint ref.owner (mem_map_of_mem (Option.mem_toList.mpr here)))
  -- The definitions of the declared types are read from the table, hence their ids are in range
  -- too.
  have types_eq := mapM_eq_ok fun type here => SymbolTable.typeImage_eq_ok (types type here)
  simp only [image, entry_eq, types_eq, named, bind, Except.bind, pure, Except.pure]

/-- A program of one class with a field, a constructor and the method where it starts. -/
def sample : CompiledModule where
  name := "sample"
  version := "1.0"
  header := .console
  output := .consoleApplication
  table := ⟨[.bare "Void" "System" .struct .host, .bare "Int32" "System" .struct .host,
    { TypeDef.bare "Main" "" .plain .declared with
      base := some 1
      fields := [⟨"count", 1, true, false, .everywhere⟩]
      methods := [⟨"run", [1], 0, true, false, .everywhere, ⟨true, false⟩⟩]
      ctors := [⟨[1, 2], .everywhere⟩] }], [], {}⟩
  types := [⟨2, [⟨.method ⟨2, 0⟩, [], [1], [⟨.ldarg, .arg 0⟩, ⟨.stloc, .loc 0⟩,
    ⟨.ldcR4, .r4 0x7FC00000⟩, ⟨.stsfld, .field ⟨2, 0⟩⟩, ⟨.newarr, .type 1⟩, ⟨.call, .method ⟨2, 0⟩⟩,
      ⟨.ret, .none⟩]⟩]⟩]
  entryPoint := some ⟨2, 0⟩

end CompiledModule

end OnePass
