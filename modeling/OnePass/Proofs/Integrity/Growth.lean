import OnePass.Proofs.Integrity.Table
import OnePass.Proofs.Inclusion

/-! # Adding types and members

Definitions are added at the end of the table and members at the end of their type, so that a table
that grows loses no symbol. The types of an included module follow those of the table, and every id
in them is one that a name has. -/

namespace OnePass

open List TypeDef

/-- No member is lost. -/
def TypeDef.Extends (type later : TypeDef) : Prop :=
  type.fields.length ≤ later.fields.length ∧ type.methods.length ≤ later.methods.length ∧
    type.ctors.length ≤ later.ctors.length

namespace SymbolTable

variable {table later : SymbolTable} {id : TypeId} {change : TypeDef → TypeDef}

/-- The table became a sound one without losing a symbol. -/
structure Evolves (table later : SymbolTable) : Prop where
  sound : later.Sound
  grows : table.Grows later

theorem Sound.refl (sound : table.Sound) : table.Evolves table := ⟨sound, .refl table⟩

theorem Evolves.trans {last : SymbolTable} (first : table.Evolves later)
    (second : later.Evolves last) : table.Evolves last :=
  ⟨second.sound, first.grows.trans second.grows⟩

/-- A table with the same types, whose members may be more, has all symbols. -/
theorem grows_of_extends (kept : ∀ (id : TypeId) (type : TypeDef), table.types[id]? = some type →
    ∃ other, later.types[id]? = some other ∧ type.Extends other) : table.Grows later := by
  intro symbol has
  cases symbol with
  | type id =>
    obtain ⟨other, found, -⟩ := kept id _ (getElem?_eq_getElem has)
    exact (List.getElem?_eq_some_iff.mp found).1
  | field ref =>
    obtain ⟨type, here, inRange⟩ := has
    obtain ⟨other, found, fields, -, -⟩ := kept ref.owner type here
    exact ⟨other, found, inRange.trans_le fields⟩
  | method ref =>
    obtain ⟨type, here, inRange⟩ := has
    obtain ⟨other, found, -, methods, -⟩ := kept ref.owner type here
    exact ⟨other, found, inRange.trans_le methods⟩
  | ctor ref =>
    obtain ⟨type, here, inRange⟩ := has
    obtain ⟨other, found, -, -, ctors⟩ := kept ref.owner type here
    exact ⟨other, found, inRange.trans_le ctors⟩

theorem grows_of_agree (agree : ∀ id < table.types.length, later.types[id]? = table.types[id]?) :
    table.Grows later := by
  refine grows_of_extends fun id type found => ⟨type, ?_, le_rfl, le_rfl, le_rfl⟩
  rw [agree id (List.getElem?_eq_some_iff.mp found).1, found]

theorem HasTypes.grow {ids : List TypeId} (has : table.HasTypes ids) (grows : table.Grows later) :
    later.HasTypes ids :=
  fun id here => grows (.type id) (has id here)

/-! ## Types -/

theorem forall_mem_modify {α : Type} {p : α → Prop} {list : List α} {index : Nat} {change : α → α}
    (each : ∀ a ∈ list, p a) (changed : ∀ a, list[index]? = some a → p (change a)) :
    ∀ a ∈ list.modify index change, p a := by
  intro a here
  obtain ⟨position, inside, rfl⟩ := mem_iff_getElem.mp here
  rw [length_modify] at inside
  rw [getElem_modify]
  split
  · rename_i same
    subst same
    exact changed _ (getElem?_eq_getElem inside)
  · exact each _ (getElem_mem inside)

theorem Sound.ensures_define (sound : table.Sound) {type : TypeDef}
    (ids : table.HasTypes type.typeIds) : Ensures (table.define type) fun (id, later) =>
      table.Evolves later ∧ id = table.types.length ∧ later.types = table.types ++ [type] := by
  rw [define]
  split
  · exact ensures_problem
  · rw [ensures_ok]
    refine ⟨?_, rfl, rfl⟩
    -- The new definition stands behind all others, so that every position keeps its type.
    have grows : table.Grows { table with
        types := table.types ++ [type]
        names := (type.fullName, table.types.length) :: table.names } :=
      grows_of_agree fun id inRange => getElem?_append_left inRange
    refine ⟨⟨?_, ?_, ?_⟩, grows⟩
    · intro other here
      rcases mem_append.mp here with old | new
      · exact (sound.types other old).grow grows
      · rw [mem_singleton.mp new]
        exact ids.grow grows
    · simpa using sound.names.grow grows
    · exact sound.wellKnown.grow grows

theorem Sound.modify (sound : table.Sound)
    (changes : ∀ type, table.types[id]? = some type → table.HasTypes (change type).typeIds) :
    ({ table with types := table.types.modify id change } : SymbolTable).Sound := by
  have same (ids : List TypeId) (has : table.HasTypes ids) :
      ({ table with types := table.types.modify id change } : SymbolTable).HasTypes ids := by
    simpa [HasTypes] using has
  refine ⟨fun type here => same _ ?_, same _ sound.names, same _ sound.wellKnown⟩
  exact forall_mem_modify sound.types changes type here

theorem Sound.ensures_update (sound : table.Sound) (inRange : id < table.types.length)
    (changes : ∀ type, table.types[id]? = some type →
      type.Extends (change type) ∧ table.HasTypes (change type).typeIds) :
    Ensures (table.update id change) fun later =>
      table.Evolves later ∧ later.types = table.types.modify id change := by
  rw [update, if_pos inRange, ensures_ok]
  refine ⟨⟨sound.modify fun type found => (changes type found).2, ?_⟩, rfl⟩
  refine grows_of_extends fun other type found => ?_
  by_cases same : id = other
  · subst same
    exact ⟨change type, by simp [found], (changes type found).1⟩
  · exact ⟨type, by simp [found, same], le_rfl, le_rfl, le_rfl⟩

/-! ## Members -/

theorem Sound.ensures_add (sound : table.Sound) (inRange : id < table.types.length)
    {size : TypeDef → Nat}
    (changes : ∀ type, table.HasTypes type.typeIds →
      type.Extends (change type) ∧ table.HasTypes (change type).typeIds) :
    Ensures (do
        let type ← table.get id
        let changed ← table.update id change
        return ((⟨id, size type⟩ : MemberRef), changed)) fun (ref, later) =>
      table.Evolves later ∧ ∃ type, later.types[ref.owner]? = some (change type) ∧
        ref.index = size type := by
  rw [ensures_bind]
  refine (ensures_get inRange).imp fun owner found => ?_
  rw [ensures_bind]
  have updated := sound.ensures_update inRange fun type here => changes type (sound.definition here)
  refine updated.imp fun later ⟨evolves, types⟩ => ⟨evolves, owner, ?_, rfl⟩
  simp [types, found]

theorem Sound.ensures_addField (sound : table.Sound) (inRange : id < table.types.length)
    {field : FieldDef} (type : field.type < table.types.length) :
    Ensures (table.addField id field) fun (ref, later) => table.Evolves later ∧
      later.Has (.field ref) := by
  refine (sound.ensures_add inRange fun owner ids => ?_).imp
      fun (ref, later) ⟨evolves, owner, found, index⟩ =>
    ⟨evolves, _, found, by simp [index]⟩
  simp_all [TypeDef.Extends, typeIds]

theorem Sound.ensures_addMethod (sound : table.Sound) (inRange : id < table.types.length)
    {method : MethodDef} (signature : table.HasTypes method.typeIds) :
    Ensures (table.addMethod id method) fun (ref, later) => table.Evolves later ∧
      later.Has (.method ref) := by
  refine (sound.ensures_add inRange fun owner ids => ?_).imp
      fun (ref, later) ⟨evolves, owner, found, index⟩ =>
    ⟨evolves, _, found, by simp [index]⟩
  simp_all [TypeDef.Extends, typeIds]

theorem Sound.ensures_addCtor (sound : table.Sound) (inRange : id < table.types.length)
    {ctor : CtorDef} (params : table.HasTypes ctor.params) :
    Ensures (table.addCtor id ctor) fun (ref, later) => table.Evolves later ∧
      later.Has (.ctor ref) := by
  refine (sound.ensures_add inRange fun owner ids => ?_).imp
      fun (ref, later) ⟨evolves, owner, found, index⟩ =>
    ⟨evolves, _, found, by simp [index]⟩
  simp_all [TypeDef.Extends, typeIds]

theorem Sound.ensures_addMethodParam (sound : table.Sound) {ref : MemberRef}
    (has : table.Has (.method ref)) (inRange : id < table.types.length) :
    Ensures (table.addMethodParam ref id) table.Evolves := by
  rw [addMethodParam, ensures_bind]
  refine (sound.ensures_method has).imp fun _ _ => ?_
  refine (sound.ensures_update has.owner fun owner found => ?_).imp fun later post => post.1
  have ids := sound.definition found
  simp only [typeIds, hasTypes_append, hasTypes_flatMap] at ids ⊢
  refine ⟨by simp [TypeDef.Extends], ⟨ids.1.1, ?_⟩, ids.2⟩
  refine forall_mem_modify ids.1.2 fun method here => ?_
  simpa [MethodDef.typeIds, inRange] using ids.1.2 method (mem_of_getElem? here)

theorem Sound.ensures_addCtorParam (sound : table.Sound) {ref : MemberRef}
    (has : table.Has (.ctor ref)) (inRange : id < table.types.length) :
    Ensures (table.addCtorParam ref id) table.Evolves := by
  rw [addCtorParam, ensures_bind]
  have read : Ensures (table.ctor ref) fun _ => True := by
    obtain ⟨type, found, inside⟩ := has
    simp only [ctor, get, found, ensures_bind, ensures_ok]
    exact (ensures_member inside).imp fun _ _ => trivial
  refine read.imp fun _ _ => ?_
  refine (sound.ensures_update has.owner fun owner found => ?_).imp fun later post => post.1
  have ids := sound.definition found
  simp only [typeIds, hasTypes_append, hasTypes_flatMap] at ids ⊢
  refine ⟨by simp [TypeDef.Extends], ids.1, ?_⟩
  refine forall_mem_modify ids.2 fun ctor here => ?_
  simpa [inRange] using ids.2 ctor (mem_of_getElem? here)

end SymbolTable

/-! ## Included modules -/

theorem exists_mem_of_forall₂ {α β : Type} {R : α → β → Prop} {list : List α} {results : List β}
    (related : List.Forall₂ R list results) {b : β} (here : b ∈ results) : ∃ a ∈ list, R a b := by
  induction related with
  | nil => cases here
  | @cons a other list results first _ ih =>
    rcases mem_cons.mp here with rfl | later
    · exact ⟨a, mem_cons_self, first⟩
    · obtain ⟨found, inside, relates⟩ := ih later
      exact ⟨found, mem_cons_of_mem _ inside, relates⟩

theorem TypeImage.Resolves.exists_name {lookup : String → Option TypeId} {image : TypeImage}
    {type : TypeDef} (resolves : image.Resolves lookup type) {id : TypeId}
    (inside : id ∈ type.typeIds) : ∃ name, lookup name = some id := by
  have each {names : List String} {ids : List TypeId}
      (means : List.Forall₂ (Means lookup) names ids) (here : id ∈ ids) : ∃ name,
          lookup name = some id := by
    obtain ⟨name, -, known⟩ := exists_mem_of_forall₂ means here
    exact ⟨name, known⟩
  simp only [typeIds, mem_append, Option.mem_toList, mem_map, mem_flatMap] at inside
  rcases inside with (((base | interface) | ⟨field, member, rfl⟩) | ⟨method, member, here⟩)
    | ⟨ctor, member, here⟩
  · obtain ⟨name, means⟩ : ∃ name, Means lookup name id := by
      have named := resolves.base
      rw [Option.mem_def.mp base] at named
      generalize image.base = written at named
      cases named with
      | some means => exact ⟨_, means⟩
    exact ⟨name, means⟩
  · exact each resolves.interfaces interface
  · obtain ⟨_, -, means⟩ := exists_mem_of_forall₂ resolves.fields member
    exact ⟨_, means.type⟩
  · obtain ⟨_, -, means⟩ := exists_mem_of_forall₂ resolves.methods member
    rcases mem_cons.mp here with rfl | param
    · exact ⟨_, means.result⟩
    · exact each means.params param
  · obtain ⟨_, -, means⟩ := exists_mem_of_forall₂ resolves.ctors member
    exact each means.params here

namespace ModuleImage

variable {table : SymbolTable}

/-- A sound table is sound after a module was included, and has lost no symbol. -/
theorem Installed.evolves {image : ModuleImage} {ids : List TypeId} {later : SymbolTable}
    (sound : table.Sound) (installed : image.Installed table ids later) : table.Evolves later := by
  obtain ⟨added, types, resolves⟩ := installed.types
  have grows : table.Grows later := SymbolTable.grows_of_agree fun id isOld => by
    rw [types, getElem?_append_left isOld]
  have length : later.types.length = table.types.length + image.types.length := by
    rw [types, length_append, resolves.length_eq]
  -- A name has the id of an old type or of one that was added.
  have names : later.HasTypes (later.names.map (·.2)) := by
    obtain ⟨entries, shape, inIds⟩ := installed.named.entries
    rw [shape, map_append, SymbolTable.hasTypes_append]
    refine ⟨fun id here => ?_, sound.names.grow grows⟩
    obtain ⟨entry, inside, rfl⟩ := mem_map.mp here
    have place := inIds entry inside
    rw [installed.places, mem_range'_1] at place
    rw [length]
    exact place.2
  refine ⟨⟨fun type here => ?_, names, ?_⟩, grows⟩
  · rw [types] at here
    rcases mem_append.mp here with old | new
    · exact (sound.types type old).grow grows
    · intro id inside
      obtain ⟨image, -, resolved⟩ := exists_mem_of_forall₂ resolves new
      obtain ⟨name, found⟩ := resolved.exists_name inside
      obtain ⟨before, after, shape, -⟩ := lookup_eq_some_iff.mp found
      exact names id (mem_map.mpr ⟨(name, id), by simp [shape], rfl⟩)
  · rw [installed.named.wellKnown]
    exact sound.wellKnown.grow grows

theorem ensures_register (sound : table.Sound) (image : ModuleImage) :
    Ensures (image.register table) fun (_, later) => table.Evolves later := by
  by_cases fits : image.FitsInto table
  · obtain ⟨ids, later, installed, result⟩ := install_of_fits fits
    rw [register, installed]
    exact result.evolves sound
  · obtain ⟨problem, refused⟩ := install_of_not_fits fits
    rw [register, refused]
    trivial

end ModuleImage

end OnePass
