import OnePass.Proofs.Integrity.Growth
import OnePass.Proofs.Outline.Action

/-! # Signatures in the symbol table

The *signature* of a method is the place of its definition together with the types of its
parameters. The definition of a type lists the signatures of its methods and constructors, numbered
in order.

Changes of the table are described by what they do to this list: `SymbolTable.Revises` says that one
definition was changed, and how its signatures changed. What such a change adds is filled into a
definition that the table has; names and kinds of types stay as they are, and methods keep their
marks (`SymbolTable.Fills`). When a type is closed, its definition gets a base and interfaces, but
no members (`SymbolTable.Derives`). -/

namespace OnePass

open List Option

/-! ## Signatures -/

/-- The place of a method or constructor, and the types of its parameters. -/
structure Signature where
  slot : MethodSlot
  params : List TypeId
  deriving DecidableEq

/-- One more parameter for the method in some place. -/
def Signature.extend (slot : MethodSlot) (type : TypeId) (signature : Signature) : Signature :=
  if signature.slot = slot then { signature with params := signature.params ++ [type] } else signature

theorem Signature.map_extend_of_ne {slot : MethodSlot} {type : TypeId} {signatures : List Signature}
    (others : ∀ signature ∈ signatures, signature.slot ≠ slot) :
    signatures.map (·.extend slot type) = signatures := by
  rw [map_congr_left fun signature here => show signature.extend slot type = id signature from
    if_neg (others signature here), List.map_id]

/-- The signatures of members that are numbered from zero. -/
def numbered (slot : Nat → MethodSlot) (params : List (List TypeId)) : List Signature :=
  params.mapIdx fun index types => ⟨slot index, types⟩

section Numbered

variable {slot : Nat → MethodSlot} {params : List (List TypeId)}

theorem numbered_concat (types : List TypeId) :
    numbered slot (params ++ [types]) = numbered slot params ++ [⟨slot params.length, types⟩] :=
  mapIdx_concat

theorem mem_numbered {signature : Signature} : signature ∈ numbered slot params ↔
    ∃ index, signature.slot = slot index ∧ params[index]? = some signature.params := by
  rw [numbered, mem_iff_getElem?]
  refine exists_congr fun index => ?_
  rw [getElem?_mapIdx, map_eq_some_iff]
  constructor
  · rintro ⟨types, found, rfl⟩
    exact ⟨rfl, found⟩
  · rintro ⟨same, found⟩
    exact ⟨signature.params, found, by rw [← same]⟩

theorem slots_numbered : (numbered slot params).map (·.slot) = (range params.length).map slot := by
  apply ext_getElem?
  intro index
  by_cases inRange : index < params.length <;> simp [numbered, inRange]

theorem numbered_modify (injective : Function.Injective slot) (index : Nat) (type : TypeId) :
    numbered slot (params.modify index (· ++ [type])) = (numbered slot params).map
    (·.extend (slot index) type) := by
  apply ext_getElem?
  intro place
  simp only [numbered, getElem?_mapIdx, getElem?_modify, getElem?_map, Option.map_eq_map,
    Option.map_map]
  refine Option.map_congr fun types _ => ?_
  by_cases same : index = place
  · simp [Signature.extend, same]
  · have other : slot place ≠ slot index := fun equal => same (injective equal).symm
    simp [Signature.extend, same, other]

theorem numbered_extend_other {other : MethodSlot} (apart : ∀ index, slot index ≠ other)
    (type : TypeId) : (numbered slot params).map (·.extend other type) = numbered slot params := by
  refine Signature.map_extend_of_ne fun signature here => ?_
  obtain ⟨index, place, -⟩ := mem_numbered.mp here
  rw [place]
  exact apart index

end Numbered

/-- The type that a method or constructor belongs to. -/
def MethodSlot.owner : MethodSlot → TypeId
  | method ref | ctor ref => ref.owner

theorem MethodSlot.method_injective (id : TypeId) : Function.Injective fun index =>
      method ⟨id, index⟩ :=
  fun _ _ same => (MemberRef.mk.inj (method.inj same)).2

theorem MethodSlot.ctor_injective (id : TypeId) : Function.Injective fun index => ctor ⟨id, index⟩ :=
  fun _ _ same => (MemberRef.mk.inj (ctor.inj same)).2

/-- A view of the elements after one of them was changed, if the view of the change depends on the
view only. -/
theorem map_modify {α β : Type} {view : α → β} {change : α → α} (seen : β → β)
    (commutes : ∀ a, view (change a) = seen (view a)) (list : List α) (index : Nat) :
    (list.modify index change).map view = (list.map view).modify index seen := by
  apply ext_getElem?
  intro place
  simp only [getElem?_map, getElem?_modify, Option.map_eq_map, Option.map_map]
  refine Option.map_congr fun a _ => ?_
  by_cases same : index = place <;> simp [same, commutes]

theorem map_modify_of_kept {α β : Type} {view : α → β} {change : α → α}
    (kept : ∀ a, view (change a) = view a) (list : List α) (index : Nat) :
    (list.modify index change).map view = list.map view :=
  (map_modify (fun seen => seen) kept list index).trans (modify_id _ _)

namespace TypeDef

variable {type : TypeDef} {id : TypeId}

/-- The places of the methods and constructors of a type. -/
def slots (type : TypeDef) (id : TypeId) : List MethodSlot :=
  (range type.methods.length).map (fun index => .method ⟨id, index⟩) ++
    (range type.ctors.length).map (fun index => .ctor ⟨id, index⟩)

/-- The signatures of the methods and constructors of a type. -/
def signatures (type : TypeDef) (id : TypeId) : List Signature :=
  numbered (fun index => .method ⟨id, index⟩) (type.methods.map (·.params)) ++
    numbered (fun index => .ctor ⟨id, index⟩) (type.ctors.map (·.params))

theorem slots_signatures : (type.signatures id).map (·.slot) = type.slots id := by
  rw [signatures, map_append, slots_numbered, slots_numbered, length_map, length_map, slots]

theorem nodup_slots : (type.slots id).Nodup := by
  refine nodup_append.mpr ⟨nodup_range.map (MethodSlot.method_injective id),
    nodup_range.map (MethodSlot.ctor_injective id), ?_⟩
  rintro _ isMethod _ isCtor rfl
  obtain ⟨_, -, rfl⟩ := List.mem_map.mp isMethod
  obtain ⟨_, -, isMethod⟩ := List.mem_map.mp isCtor
  cases isMethod

theorem owner_of_mem_signatures (type : TypeDef) {signature : Signature}
    (here : signature ∈ type.signatures id) : signature.slot.owner = id := by
  rcases mem_append.mp here with isMethod | isCtor
  · obtain ⟨index, place, -⟩ := mem_numbered.mp isMethod
    rw [place, MethodSlot.owner]
  · obtain ⟨index, place, -⟩ := mem_numbered.mp isCtor
    rw [place, MethodSlot.owner]

theorem signatures_eq_nil : type.signatures id = [] ↔ type.methods = [] ∧ type.ctors = [] := by
  simp [signatures, numbered]

theorem signatures_addMethod (method : MethodDef) :
    ({ type with methods := type.methods ++ [method] }.signatures id).Perm
      (⟨.method ⟨id, type.methods.length⟩, method.params⟩ :: type.signatures id) := by
  rw [signatures, map_append, map_singleton, numbered_concat, length_map, append_assoc]
  exact perm_middle

theorem signatures_addCtor (ctor : CtorDef) :
    ({ type with ctors := type.ctors ++ [ctor] }.signatures id).Perm
      (⟨.ctor ⟨id, type.ctors.length⟩, ctor.params⟩ :: type.signatures id) := by
  rw [signatures, map_append, map_singleton, numbered_concat, length_map, ← append_assoc]
  exact perm_append_singleton _ _

theorem signatures_methodParam (index : Nat) (added : TypeId) :
    { type with
      methods := type.methods.modify index fun m => { m with params := m.params ++ [added] } }.signatures id =
      (type.signatures id).map (·.extend (.method ⟨id, index⟩) added) := by
  have apart : ∀ place, MethodSlot.ctor ⟨id, place⟩ ≠ .method ⟨id, index⟩ := fun _ => nofun
  rw [signatures, signatures, map_append, numbered_extend_other apart,
    map_modify (· ++ [added]) fun _ => rfl, numbered_modify (MethodSlot.method_injective id)]

theorem signatures_ctorParam (index : Nat) (added : TypeId) :
    { type with
      ctors := type.ctors.modify index fun c => { c with params := c.params ++ [added] } }.signatures id =
      (type.signatures id).map (·.extend (.ctor ⟨id, index⟩) added) := by
  have apart : ∀ place, MethodSlot.method ⟨id, place⟩ ≠ .ctor ⟨id, index⟩ := fun _ => nofun
  rw [signatures, signatures, map_append, numbered_extend_other apart,
    map_modify (· ++ [added]) fun _ => rfl, numbered_modify (MethodSlot.ctor_injective id)]

/-- What a definition says of the type itself, without its base, its interfaces and its members. -/
def head (type : TypeDef) : TypeDef :=
  { type with base := none, interfaces := [], fields := [], methods := [], ctors := [] }

end TypeDef

/-! ## Definitions that change -/

/-- What a method is marked as: whether it is static, and its attributes. -/
def MethodDef.marks (method : MethodDef) : Bool × MethodAttrs := (method.isStatic, method.attrs)

namespace SymbolTable

variable {table later : SymbolTable} {id : TypeId} {revised : List Signature →
  List Signature → Prop}
variable {ref : MemberRef}
variable {last : SymbolTable}
variable {change : TypeDef → TypeDef}

/-- The marks of the method in some place. -/
def marks? (table : SymbolTable) (ref : MemberRef) : Option (Bool × MethodAttrs) :=
  table.types[ref.owner]?.bind fun type => type.methods[ref.index]?.map (·.marks)

theorem marks?_eq_some {marks : Bool × MethodAttrs} : table.marks? ref = some marks ↔
    ∃ type, table.types[ref.owner]? = some type ∧
      ∃ method, type.methods[ref.index]? = some method ∧ method.marks = marks := by
  simp only [marks?, bind_eq_some_iff, map_eq_some_iff]

/-- The table has a method in some place that is marked as the start of the program. -/
def StartsAt (table : SymbolTable) (ref : MemberRef) : Prop :=
  ∃ type, table.types[ref.owner]? = some type ∧
    ∃ method, type.methods[ref.index]? = some method ∧ method.attrs.entryPoint = true

theorem startsAt_iff :
    table.StartsAt ref ↔ ∃ marks, table.marks? ref = some marks ∧ marks.2.entryPoint = true := by
  constructor
  · rintro ⟨type, found, method, here, marked⟩
    exact ⟨method.marks, marks?_eq_some.mpr ⟨type, found, method, here, rfl⟩, marked⟩
  · rintro ⟨_, isThere, marked⟩
    obtain ⟨type, found, method, here, rfl⟩ := marks?_eq_some.mp isThere
    exact ⟨type, found, method, here, marked⟩

/-- Methods keep their marks. -/
def Retains (table later : SymbolTable) : Prop :=
  ∀ ref marks, table.marks? ref = some marks → later.marks? ref = some marks

theorem Retains.refl (table : SymbolTable) : table.Retains table := fun _ _ here => here

theorem Retains.trans (first : table.Retains later) (second : later.Retains last) :
    table.Retains last :=
  fun ref marks here => second ref marks (first ref marks here)

/-- Definitions are filled in: the types are the same, and so are their names and the marks of their
methods. -/
structure Fills (table later : SymbolTable) : Prop where
  heads : later.types.map (·.head) = table.types.map (·.head)
  names : later.names = table.names
  retains : table.Retains later

theorem Fills.refl (table : SymbolTable) : table.Fills table := ⟨rfl, rfl, .refl table⟩

theorem Fills.trans (first : table.Fills later) (second : later.Fills last) :
    table.Fills last :=
  ⟨second.heads.trans first.heads, second.names.trans first.names,
    first.retains.trans second.retains⟩

theorem Fills.startsAt (fills : table.Fills later) (starts : table.StartsAt ref) :
    later.StartsAt ref := by
  obtain ⟨marks, here, marked⟩ := startsAt_iff.mp starts
  exact startsAt_iff.mpr ⟨marks, fills.retains ref marks here, marked⟩

/-- One definition changes, its signatures as given. -/
structure Revises (id : TypeId) (revised : List Signature → List Signature → Prop)
    (table later : SymbolTable) : Prop where
  others : ∀ other, id ≠ other → later.types[other]? = table.types[other]?
  this : ∀ type, table.types[id]? = some type → ∃ changed, later.types[id]? = some changed ∧
    revised (type.signatures id) (changed.signatures id)
  fills : table.Fills later

theorem Revises.refl (id : TypeId) (table : SymbolTable) : table.Revises id Eq table :=
  ⟨fun _ _ => rfl, fun type found => ⟨type, found, rfl⟩, .refl table⟩

theorem Revises.trans (first : table.Revises id Eq later) (second : later.Revises id Eq last) :
    table.Revises id Eq last := by
  refine ⟨fun other apart => (second.others other apart).trans (first.others other apart),
    fun type found => ?_, first.fills.trans second.fills⟩
  obtain ⟨changed, foundLater, same⟩ := first.this type found
  obtain ⟨final, foundLast, sameLater⟩ := second.this changed foundLater
  exact ⟨final, foundLast, same.trans sameLater⟩

theorem gives_get : Gives (table.get id) fun type => table.types[id]? = some type := by
  rw [get]
  split
  · assumption
  · exact gives_error

theorem gives_update :
    Gives (table.update id change) fun later =>
      later = { table with types := table.types.modify id change } := by
  rw [update]
  split
  · exact gives_ok.mpr rfl
  · exact gives_error

/-- Methods keep their marks where a definition is changed, if those it had come first. -/
theorem retains_modify (marks : ∀ type, table.types[id]? = some type →
      type.methods.map (·.marks) <+: (change type).methods.map (·.marks)) :
    table.Retains { table with types := table.types.modify id change } := by
  intro ref held here
  obtain ⟨type, found, method, isMethod, rfl⟩ := marks?_eq_some.mp here
  rw [marks?]
  by_cases same : id = ref.owner
  · subst same
    obtain ⟨rest, kept⟩ := marks type found
    have inRange : ref.index < (type.methods.map (·.marks)).length := by
      rw [length_map]
      exact (List.getElem?_eq_some_iff.mp isMethod).1
    rw [getElem?_modify_eq, found]
    show (change type).methods[ref.index]?.map (·.marks) = some method.marks
    rw [← getElem?_map, ← kept, getElem?_append_left inRange, getElem?_map, isMethod, map_some]
  · rw [getElem?_modify_ne _ _ same, found, bind_some, isMethod, map_some]

theorem revises_modify (updated : later = { table with types := table.types.modify id change })
    (heads : ∀ type, (change type).head = type.head)
    (marks : ∀ type, table.types[id]? = some type →
      type.methods.map (·.marks) <+: (change type).methods.map (·.marks))
    (signatures : ∀ type, table.types[id]? = some type →
      revised (type.signatures id) ((change type).signatures id)) :
    table.Revises id revised later := by
  subst updated
  refine ⟨fun other apart => ?_, fun type found =>
    ⟨change type, ?_, signatures type found⟩, ?_, rfl, retains_modify marks⟩
  · exact getElem?_modify_ne _ _ apart
  · rw [getElem?_modify_eq, found]
    rfl
  · exact map_modify_of_kept heads _ _

/-- One definition gets its base or interfaces: all members stay. -/
structure Derives (id : TypeId) (table later : SymbolTable) : Prop where
  revises : table.Revises id Eq later
  fields : later.types.map (·.fields) = table.types.map (·.fields)

theorem Derives.refl (id : TypeId) (table : SymbolTable) : table.Derives id table :=
  ⟨.refl id table, rfl⟩

theorem Derives.trans (first : table.Derives id later) (second : later.Derives id last) :
    table.Derives id last :=
  ⟨first.revises.trans second.revises, second.fields.trans first.fields⟩

theorem derives_modify (updated : later = { table with types := table.types.modify id change })
    (derived : ∀ type, ∃ base interfaces, change type =
      { type with base := base, interfaces := interfaces }) :
    table.Derives id later := by
  refine ⟨revises_modify updated (fun type => ?_) (fun type _ => ?_) fun type _ => ?_, ?_⟩
  · obtain ⟨base, interfaces, same⟩ := derived type
    rw [same]
    rfl
  · obtain ⟨base, interfaces, same⟩ := derived type
    rw [same]
  · obtain ⟨base, interfaces, same⟩ := derived type
    rw [same]
    rfl
  · rw [updated]
    refine map_modify_of_kept (fun type => ?_) _ _
    obtain ⟨base, interfaces, same⟩ := derived type
    rw [same]

theorem gives_addField (field : FieldDef) :
    Gives (table.addField id field) fun (_, later) => table.Revises id Eq later := by
  rw [addField, gives_bind]
  refine gives_get.imp fun type found => ?_
  rw [gives_bind]
  refine gives_update.imp fun later updated => ?_
  exact revises_modify updated (fun _ => rfl) (fun _ _ => prefix_rfl) fun _ _ => rfl

theorem gives_addCtor (ctor : CtorDef) : Gives (table.addCtor id ctor) fun (ref, later) =>
    table.Revises id (fun before after => after.Perm (⟨.ctor ref, ctor.params⟩ :: before)) later := by
  rw [addCtor, gives_bind]
  refine gives_get.imp fun type found => ?_
  rw [gives_bind]
  refine gives_update.imp fun later updated => ?_
  refine revises_modify updated (fun _ => rfl) (fun _ _ => prefix_rfl) fun same foundAgain => ?_
  obtain rfl : type = same := Option.some.inj (found.symm.trans foundAgain)
  exact TypeDef.signatures_addCtor ctor

/-- A method is added with a place of its own, where its marks are. -/
theorem gives_addMethod (method : MethodDef) : Gives (table.addMethod id method) fun (ref, later) =>
    table.Revises id (fun before after => after.Perm (⟨.method ref, method.params⟩ :: before))
      later ∧ ref.owner = id ∧ later.marks? ref = some method.marks := by
  rw [addMethod, gives_bind]
  refine gives_get.imp fun type found => ?_
  rw [gives_bind]
  refine gives_update.imp fun later updated => ⟨?_, rfl, marks?_eq_some.mpr ?_⟩
  · refine revises_modify updated (fun _ => rfl) (fun _ _ => ?_) fun same foundAgain => ?_
    · rw [map_append]
      exact prefix_append _ _
    · obtain rfl : type = same := Option.some.inj (found.symm.trans foundAgain)
      exact TypeDef.signatures_addMethod method
  · refine ⟨{ type with methods := type.methods ++ [method] }, ?_, method, getElem?_concat_length, rfl⟩
    rw [updated, getElem?_modify_eq, found]
    rfl

end SymbolTable

namespace Session

variable {table : SymbolTable}

/-- A function is added with a place of its own and without parameters. If it is no constructor, its
marks are there. -/
theorem gives_addFunction (owner : TypeId) (name : String) (result : TypeId) (kind : FuncKind)
    (isStatic : Bool) (visibility : Visibility) (attrs : MethodAttrs) :
    Gives (addFunction table owner name result kind isStatic visibility attrs) fun (slot, later) =>
      table.Revises owner (fun before after => after.Perm (⟨slot, []⟩ :: before)) later ∧
        match slot with
        | .method ref => kind ≠ .constructor ∧ ref.owner = owner ∧
      later.marks? ref = some (isStatic, attrs)
        | .ctor _ => kind = .constructor := by
  rw [addFunction]
  split
  · rename_i isCtor
    rw [gives_bind]
    exact (SymbolTable.gives_addCtor _).imp fun _ revises => ⟨revises, beq_iff_eq.mp isCtor⟩
  · rename_i isMethod
    rw [gives_bind]
    refine (SymbolTable.gives_addMethod _).imp fun _ ⟨revises, here⟩ =>
      ⟨revises, fun isCtor => ?_, here⟩
    exact isMethod (beq_iff_eq.mpr isCtor)

theorem gives_addParam (slot : MethodSlot) (type : TypeId) :
    Gives (addParam table slot type)
      (table.Revises slot.owner fun before after => after = before.map (·.extend slot type)) := by
  cases slot with
  | method ref =>
    rw [addParam, SymbolTable.addMethodParam]
    refine gives_bind_ok fun _ _ => SymbolTable.gives_update.imp fun later updated => ?_
    refine SymbolTable.revises_modify updated (fun _ => rfl) (fun owner _ => ?_) fun owner _ => ?_
    · have kept : ∀ m : MethodDef, { m with params := m.params ++ [type] }.marks = m.marks := fun _ => rfl
      rw [map_modify_of_kept kept]
    · exact TypeDef.signatures_methodParam ref.index type
  | ctor ref =>
    rw [addParam, SymbolTable.addCtorParam]
    refine gives_bind_ok fun _ _ => SymbolTable.gives_update.imp fun later updated => ?_
    refine SymbolTable.revises_modify updated (fun _ => rfl) (fun _ _ => prefix_rfl) fun owner _ => ?_
    exact TypeDef.signatures_ctorParam ref.index type

end Session

end OnePass
