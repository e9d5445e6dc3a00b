import OnePass.Proofs.Integrity.Symbols

/-! # Sound symbol tables

A table is sound if every id in it is in range. In a sound table all searches stay in range and find
symbols that the table has; adding types and members keeps it sound and loses no symbol. -/

namespace OnePass

/-- The ids of the host types that the compiler refers to. -/
def WellKnown.typeIds (known : WellKnown) : List TypeId :=
  [known.object, known.void, known.boolean, known.char, known.sbyte, known.int16, known.int32,
    known.int64, known.single, known.double, known.string, known.array, known.math]

/-- Every id in the table is in range: those in definitions, those that names have, and those of the
host types. -/
structure SymbolTable.Sound (table : SymbolTable) : Prop where
  types : ∀ type ∈ table.types, table.HasTypes type.typeIds
  names : table.HasTypes (table.names.map (·.2))
  wellKnown : table.HasTypes table.wellKnown.typeIds

theorem Host.table_sound : Host.table.Sound where
  types := by decide
  names := by decide
  wellKnown := by decide

namespace SymbolTable

variable {table : SymbolTable} {id : TypeId}

/-! ## Definitions -/

theorem ensures_get [Stops Fault] (inRange : id < table.types.length) :
    Ensures (table.get id) fun type => table.types[id]? = some type := by
  rw [get, List.getElem?_eq_getElem inRange, ensures_ok]

theorem ensures_member [Stops Fault] {α : Type} {members : List α} {index : Nat}
    (inRange : index < members.length) : Ensures (member members index) (· ∈ members) := by
  rw [member, List.getElem?_eq_getElem inRange, ensures_ok]
  exact List.getElem_mem inRange

theorem ensures_typeName (inRange : id < table.types.length) :
    Ensures (table.typeName id) fun _ => True := by
  rw [typeName, ensures_bind]
  exact (ensures_get inRange).imp fun _ _ => trivial

theorem ensures_category (inRange : id < table.types.length) :
    Ensures (table.category id) fun _ => True := by
  rw [category, ensures_bind]
  exact (ensures_get inRange).imp fun _ _ => trivial

theorem ensures_isVoid (inRange : id < table.types.length) :
    Ensures (table.isVoid id) fun _ => True := by
  rw [isVoid, ensures_bind]
  exact (ensures_category inRange).imp fun _ _ => trivial

namespace Sound

variable (sound : table.Sound)

include sound

theorem definition {type : TypeDef} (found : table.types[id]? = some type) :
    table.HasTypes type.typeIds :=
  sound.types type (List.mem_of_getElem? found)

theorem ensures_field [Stops Fault] {ref : MemberRef} (has : table.Has (.field ref)) :
    Ensures (table.field ref) fun field => field.type < table.types.length := by
  obtain ⟨type, found, inRange⟩ := has
  have ids := sound.definition found
  simp only [TypeDef.typeIds, hasTypes_append] at ids
  simp only [field, get, found, ensures_bind, ensures_ok]
  exact (ensures_member inRange).imp fun field here => ids.1.1.2 _ (List.mem_map_of_mem here)

theorem ensures_method {ref : MemberRef} (has : table.Has (.method ref)) :
    Ensures (table.method ref) fun method => table.HasTypes method.typeIds := by
  obtain ⟨type, found, inRange⟩ := has
  have ids := sound.definition found
  simp only [TypeDef.typeIds, hasTypes_append, hasTypes_flatMap] at ids
  simp only [method, get, found, ensures_bind, ensures_ok]
  exact (ensures_member inRange).imp fun method here => ids.1.2 method here

/-! ## Names -/

theorem lookup_inRange {name : String} (found : table.lookup name = some id) :
    id < table.types.length := by
  obtain ⟨before, after, names, -⟩ := List.lookup_eq_some_iff.mp found
  have here : (name, id) ∈ table.names := by simp [names]
  exact sound.names id (List.mem_map_of_mem here)

theorem resolveType_inRange {name : String} {namespaces : List String}
    (found : table.resolveType name namespaces = some id) : id < table.types.length := by
  rw [resolveType, Option.or_eq_some_iff] at found
  rcases found with found | ⟨-, found⟩
  · exact sound.lookup_inRange found
  · obtain ⟨space, -, found⟩ := List.exists_of_findSome?_eq_some found
    exact sound.lookup_inRange found

theorem literalType_inRange (value : Literal) : table.literalType value < table.types.length := by
  have known := sound.wellKnown
  simp only [WellKnown.typeIds, hasTypes_cons] at known
  cases value <;> simp only [literalType] <;> tauto

theorem object_inRange : table.wellKnown.object < table.types.length :=
  sound.wellKnown _ (by simp [WellKnown.typeIds])

theorem void_inRange : table.wellKnown.void < table.types.length :=
  sound.wellKnown _ (by simp [WellKnown.typeIds])

theorem boolean_inRange : table.wellKnown.boolean < table.types.length :=
  sound.wellKnown _ (by simp [WellKnown.typeIds])

theorem double_inRange : table.wellKnown.double < table.types.length :=
  sound.wellKnown _ (by simp [WellKnown.typeIds])

theorem array_inRange : table.wellKnown.array < table.types.length :=
  sound.wellKnown _ (by simp [WellKnown.typeIds])

theorem math_inRange : table.wellKnown.math < table.types.length :=
  sound.wellKnown _ (by simp [WellKnown.typeIds])

end Sound

end SymbolTable

end OnePass
