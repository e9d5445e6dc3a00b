import OnePass.Proofs.SelfContained

/-! # Included modules agree with what was compiled

A type that is declared in one build and included in another passes through two tables and a file.
In the file its references are names, which the second table resolves to ids of its own, where the
host library may know the same type under several names.

* `TypeDef.Agrees` — two definitions, each with the names of its own table, say the same.
* `Faithful` — a name is found at an id that has this name, so that it is written as it was read.

The main statement is `included_agrees_with_compiled`: the file of a self-contained module is read
and included by a build that knows only the host library, and gives definitions that agree with
those that were compiled. -/

namespace OnePass

open List

theorem map_eq_of_forall₂ {α β : Type} {R : α → β → Prop} {back : β → α} {list : List α}
    {results : List β} (related : List.Forall₂ R list results)
    (each : ∀ a ∈ list, ∀ b, R a b → back b = a) : results.map back = list := by
  induction related with
  | nil => rfl
  | cons here _ ih =>
    rw [forall_mem_cons] at each
    rw [map_cons, each.1 _ here, ih each.2]

/-! ## Names and the types they are found at -/

section Faithful

variable (lookup : String → Option TypeId) (name : TypeId → String)

/-- What is found under a reference has the reference as its name. -/
def Faithful (reference : String) : Prop := ∀ id, Means lookup reference id → name id = reference

variable {lookup name}

theorem FieldImage.Resolves.named_eq {image : FieldImage} {field : FieldDef}
    (resolves : image.Resolves lookup field) (faithful : Faithful lookup name image.type) :
    field.named name = image := by
  simp only [FieldDef.named, resolves.name, faithful _ resolves.type, resolves.isStatic,
    resolves.isFinal, resolves.visibility]

theorem MethodImage.Resolves.named_eq {image : MethodImage} {method : MethodDef}
    (resolves : image.Resolves lookup method)
    (params : ∀ reference ∈ image.params, Faithful lookup name reference)
    (result : Faithful lookup name image.result) : method.named name = image := by
  simp only [MethodDef.named, resolves.name, map_eq_of_forall₂ resolves.params params,
    result _ resolves.result, resolves.isStatic, resolves.isVirtual, resolves.visibility,
      resolves.attrs]

theorem CtorImage.Resolves.named_eq {image : CtorImage} {ctor : CtorDef}
    (resolves : image.Resolves lookup ctor) (params : ∀ reference ∈ image.params,
      Faithful lookup name reference) : ctor.named name = image := by
  simp only [CtorDef.named, map_eq_of_forall₂ resolves.params params, resolves.visibility]

theorem base_named_eq {reference : Option String} {base : Option TypeId}
    (means : Option.Rel (Means lookup) reference base)
    (faithful : ∀ here ∈ reference, Faithful lookup name here) : base.map name = reference := by
  cases means with
  | none => rfl
  | some found => rw [Option.map_some, faithful _ rfl _ found]

end Faithful

/-- Two definitions say the same of a type: the references in each of them stand for the names that
they have in the table of the definition. -/
structure TypeDef.Agrees (type : TypeDef) (nameOf : TypeId → String) (other : TypeDef)
    (otherNameOf : TypeId → String) : Prop where
  name : other.name = type.name
  space : other.space = type.space
  kind : other.kind = type.kind
  visibility : other.visibility = type.visibility
  category : other.category = type.category
  base : other.base.map otherNameOf = type.base.map nameOf
  interfaces : other.interfaces.map otherNameOf = type.interfaces.map nameOf
  fields : other.fields.map (·.named otherNameOf) = type.fields.map (·.named nameOf)
  methods : other.methods.map (·.named otherNameOf) = type.methods.map (·.named nameOf)
  ctors : other.ctors.map (·.named otherNameOf) = type.ctors.map (·.named nameOf)

/-- A definition that was made from the image of another one agrees with it, where all names in the
image are faithful. -/
theorem TypeImage.Resolves.agrees {type other : TypeDef} {name otherName : TypeId → String}
    {bodies : List MethodBody} {lookup : String → Option TypeId}
    (resolves : (type.named name bodies).Resolves lookup other)
    (faithful : ∀ reference, (type.named name bodies).Mentions reference →
      Faithful lookup otherName reference) (category :
        type.category = TypeDef.categoryOf type.kind) : type.Agrees name other otherName where
  name := resolves.name
  space := resolves.space
  kind := resolves.kind
  visibility := resolves.visibility
  category := resolves.category.trans category.symm
  base := base_named_eq resolves.base fun reference here => faithful reference (.base here)
  interfaces := map_eq_of_forall₂ resolves.interfaces fun reference here =>
    faithful reference (.interface here)
  fields := map_eq_of_forall₂ resolves.fields fun _ member _ means =>
    means.named_eq (faithful _ (.field member rfl))
  methods := map_eq_of_forall₂ resolves.methods fun _ member _ means =>
    means.named_eq (fun reference here => faithful reference (.param member here))
      (faithful _ (.result member rfl))
  ctors := map_eq_of_forall₂ resolves.ctors fun _ member _ means =>
    means.named_eq fun reference here => faithful reference (.ctorParam member here)

/-- The full name of a type is faithful, other than an alias. -/
theorem SymbolTable.Catalogued.faithful {table : SymbolTable} (catalogued : table.Catalogued)
    {id : TypeId} {type : TypeDef} (found : table.types[id]? = some type) :
    Faithful table.lookup table.nameOf type.fullName := by
  intro other means
  have known := catalogued id type found
  rw [means] at known
  obtain rfl := Option.some.inj known
  exact nameOf_eq found

/-! ## Including a module -/

/-- Every type of an included module is found under its name, and defined as its image says. -/
theorem ModuleImage.Installed.definitions {image : ModuleImage} {table later : SymbolTable}
    {ids : List TypeId} (installed : image.Installed table ids later) :
    List.Forall₂ (fun type id => later.lookup type.fullName = some id ∧
      ∃ definition, later.types[id]? = some definition ∧ type.Resolves later.lookup definition)
        image.types ids := by
  obtain ⟨places, ⟨added, types, resolves⟩, named⟩ := installed
  refine List.forall₂_iff_get.mpr ⟨named.own.length_eq, fun position inImage inIds => ?_⟩
  obtain ⟨sameLength, each⟩ := List.forall₂_iff_get.mp resolves
  have inAdded : position < added.length := sameLength ▸ inImage
  have known := (List.forall₂_iff_get.mp named.own).2 position inImage inIds
  refine ⟨known, added[position], ?_, each position inImage inAdded⟩
  have place : ids.get ⟨position, inIds⟩ = table.types.length + position := by simp [places]
  rw [place, types, List.getElem?_append_right (Nat.le_add_right _ _), Nat.add_sub_cancel_left]
  exact List.getElem?_eq_getElem inAdded

namespace CompiledModule.Rostered

variable {compiled : CompiledModule} (rostered : compiled.Rostered) {ids : List TypeId}
  {later : SymbolTable}

include rostered

/-- What another build has of the module is there under the same name. -/
theorem exists_supplied {id : TypeId} (inRange : id < compiled.table.types.length)
    (supplied : compiled.Supplies id) (registered : compiled.named.register Host.table =
      .ok (ids, later)) :
    ∃ (place : TypeId) (definition : TypeDef), later.types[place]? = some definition ∧
      definition.fullName = compiled.table.nameOf id := by
  rcases supplied with isHost | isOwn
  · -- A host type has the same name in both tables, as both continue that of the host library.
    obtain ⟨type, found⟩ : ∃ type, compiled.table.types[id]? = some type :=
      ⟨_, getElem?_eq_getElem inRange⟩
    rw [SymbolTable.definition_eq found] at isHost
    have isOld := (rostered.table.origin_eq_host_iff found).mp isHost
    obtain ⟨before, host⟩ : ∃ before, Host.table.types[id]? = some before :=
      ⟨_, getElem?_eq_getElem isOld⟩
    obtain ⟨here, foundHere, sameHere⟩ := rostered.table.exists_later host
    obtain ⟨there, foundThere, sameThere⟩ := (SymbolTable.continues_register
      registered).exists_later host
    refine ⟨id, there, foundThere, ?_⟩
    rw [SymbolTable.nameOf_eq foundHere]
    exact TypeDef.fullName_of_head (sameThere.trans sameHere.symm)
  · -- A type of the module has the name of its image.
    obtain ⟨own, isType, rfl⟩ := mem_map.mp isOwn
    obtain ⟨position, inTypes, rfl⟩ := mem_iff_getElem.mp isType
    have definitions := (ModuleImage.installed_of_register registered).definitions
    rw [CompiledModule.named, forall₂_map_left_iff] at definitions
    obtain ⟨sameLength, each⟩ := forall₂_iff_get.mp definitions
    obtain ⟨-, definition, found, resolves⟩ := each position inTypes (sameLength ▸ inTypes)
    refine ⟨_, definition, found, ?_⟩
    rw [TypeDef.fullName, resolves.name, resolves.space]
    rfl

/-- The definitions of a self-contained module are the same in a build that includes it. -/
theorem agrees_of_register (contained : compiled.SelfContained)
    (registered : compiled.named.register Host.table = .ok (ids, later)) :
    List.Forall₂ (fun type id => later.lookup (compiled.table.nameOf type.id) = some id ∧
      ∃ definition, later.types[id]? = some definition ∧
        (compiled.table.definition type.id).Agrees compiled.table.nameOf definition later.nameOf)
      compiled.types ids := by
  have catalogued := (SymbolTable.continues_register registered).catalogued_of_host
  have definitions := (ModuleImage.installed_of_register registered).definitions
  rw [CompiledModule.named, forall₂_map_left_iff] at definitions
  have together := (forall₂_and_left (p := (· ∈ compiled.types)) _ _).mpr ⟨fun _ here => here,
    definitions⟩
  refine together.imp ?_
  rintro type id ⟨here, known, definition, found, resolves⟩
  refine ⟨known, definition, found, resolves.agrees (fun reference mentions => ?_) ?_⟩
  · obtain ⟨other, inside, rfl⟩ := TypeDef.mentions_named.mp mentions
    have inRange := rostered.reference_inRange here inside
    obtain ⟨place, there, foundThere, sameName⟩ :=
      rostered.exists_supplied inRange (contained type here other inside) registered
    rw [← sameName]
    exact catalogued.faithful foundThere
  · obtain ⟨declared, foundHere, isDeclared⟩ := rostered.declared type here
    rw [SymbolTable.definition_eq foundHere]
    have isNew : Host.table.types.length ≤ type.id := by
      by_contra isOld
      have isHost := (rostered.table.origin_eq_host_iff foundHere).mpr (Nat.lt_of_not_le isOld)
      cases isDeclared.symm.trans isHost
    exact (rostered.table.joins type.id declared foundHere isNew).category

end CompiledModule.Rostered

/-- Compiling a module, writing its file and including the file agrees with compiling it. A module
that a build produced has a file exactly if four bytes hold every length in it. If its types refer
to host types and to each other only, then its file is read and included by a build that knows only
the host library. This gives one definition for each type of the module, in order and under the same
full name, with the same name, namespace, kind, visibility and category, and with the same fields,
methods, constructors, base and interfaces in the same order, where each reference to a type stands
for the same full name. -/
theorem included_agrees_with_compiled {files : FileTree} {stream : TokenStream}
    {options : BuildOptions} {autoName : Bool} {result : BuildResult}
    (built : build files stream options autoName = .ok result)
    (contained : result.compiled.SelfContained) :
    ((∃ bytes, result.compiled.write = .ok (.ok bytes)) ↔ result.compiled.named.Fits) ∧
      ∀ bytes, result.compiled.write = .ok (.ok bytes) →
        ∃ image ids later, ModuleImage.read bytes = .ok image ∧
          image.register Host.table = .ok (ids, later) ∧
            List.Forall₂ (fun type id => later.lookup (result.compiled.table.nameOf type.id) =
              some id ∧ ∃ definition, later.types[id]? = some definition ∧
                (result.compiled.table.definition type.id).Agrees result.compiled.table.nameOf
                  definition later.nameOf)
            result.compiled.types ids := by
  have sound := (ends_build files stream options autoName).of_ok built
  have rostered := rostered_of_build built
  rw [sound.write_eq_ok, ← ModuleImage.write_succeeds]
  simp only [Except.ok.injEq]
  refine ⟨Iff.rfl, fun bytes written => ?_⟩
  have read : ModuleImage.read bytes = .ok result.compiled.named := by
    rw [ModuleImage.read, Reader.run_eq_ok ModuleImage.reader_inverts]
    exact written
  obtain ⟨ids, later, registered⟩ := rostered.register_iff.mpr contained
  exact ⟨_, ids, later, read, registered, rostered.agrees_of_register contained registered⟩

/-- A library with an interface and a class, which refer to host types and to each other. -/
def shapes : TokenStream where
  header := .library
  platform := 0
  tokens :=
    [.enterNamespace "Shapes", .usingNamespace "Shapes",
      .classOpen "Shape" .interface .everywhere, .block true,
        .function "area" "double" .plain .everywhere,
      .expressionEnd, .block false,
      .classOpen "Square" .plain .everywhere, .implementsClause, .literal "Shape", .block true,
      .var "side" "double" true, .expressionEnd,
      .function "Square" "" .constructor .everywhere, .var "side" "double" false, .block true,
        .block false,
      .function "grow" "Square" .plain .everywhere, .var "by" "Shape" false, .block true,
        .block false, .block false]

/-- Both types of `shapes` are written, and come back as they were when the file is included. -/
theorem shapes_included_agree :
    ∃ result bytes image ids later, build (.empty []) shapes {} false = .ok result ∧
      result.compiled.types.map (fun type => result.compiled.table.nameOf type.id) =
        ["Shapes.Shape", "Shapes.Square"] ∧
      result.compiled.write = .ok (.ok bytes) ∧ ModuleImage.read bytes = .ok image ∧
      image.register Host.table = .ok (ids, later) ∧
      List.Forall₂ (fun type id => later.lookup (result.compiled.table.nameOf type.id) = some id ∧
        ∃ definition, later.types[id]? = some definition ∧
          (result.compiled.table.definition type.id).Agrees result.compiled.table.nameOf definition
            later.nameOf)
        result.compiled.types ids := by
  obtain ⟨result, built, names, contained, fits⟩ : ∃ result, build (.empty []) shapes {} false =
      .ok result ∧ result.compiled.types.map (fun type => result.compiled.table.nameOf type.id) =
        ["Shapes.Shape", "Shapes.Square"] ∧ result.compiled.SelfContained ∧ result.compiled.named.Fits :=
    ⟨_, rfl, by decide +kernel, by decide +kernel, by decide +kernel⟩
  obtain ⟨writes, agrees⟩ := included_agrees_with_compiled built contained
  obtain ⟨bytes, written⟩ := writes.mpr fits
  obtain ⟨image, ids, later, read, registered, definitions⟩ := agrees bytes written
  exact ⟨result, bytes, image, ids, later, built, names, written, read, registered, definitions⟩

end OnePass
