import OnePass.Proofs.Roster

/-! # Full names identify types

Types are told apart by their full names, and everything that is written by name relies on this: a
module file names types in full, and so does every reference between modules.

* `SymbolTable.Changes` — what can change a table: a type is defined, a module is included or
  refused, and a build goes from the host library to some state, from there to a later one, and on
  to the module that it hands over.
* `SymbolTable.GrowsInto` — any sequence of such changes.

The main statement is `full_names_identify_types`: in every table that the host library grows into,
each type is what its full name means, no other type has this name, and no further change gives
another meaning to a name. -/

namespace OnePass

/-! ## In a build -/

namespace Session

variable {including : Bool} {session later : Session}

theorem Moves.continues (moves : session.Moves including later) :
    session.table.Continues including later.table := by
  cases moves with
  | code same =>
    have table : later.outline.table = session.outline.table := congrArg Session.table same
    exact (congrArg (session.table.Continues including) table).mpr (.refl session.table)
  | change _ _ _ _ _ _ fills => exact fills.continues
  | add _ _ continues => exact continues

theorem Becomes.continues (becomes : session.Becomes including later)
    (accounted : session.Accounted) : session.table.Continues including later.table := by
  have kept : ∀ before after : Session, before.Accounted → before.Moves including after →
      session.table.Continues including before.table → session.table.Continues including after.table :=
    fun _ _ _ moves continues => continues.trans moves.continues
  exact becomes.keeps_moves accounted kept (.refl _)

theorem HandsOver.fills {namespaces : List String} {dropped : Option Nat} {first last : Session}
    {compiled : CompiledModule} (handsOver : session.HandsOver namespaces dropped first
      last compiled) :
    session.table.Fills compiled.table := by
  rw [handsOver.table]
  exact handsOver.closes_last.table

end Session

namespace Build

variable {files : FileTree} {stream : TokenStream} {options : BuildOptions} {autoName : Bool}
  {state : Build}

theorem Reached.continues_runs (reached : Reached files stream options autoName state)
    {rounds : List Round} {later : Build} (runs : state.Runs rounds later) :
    state.compiler.session.table.Continues true later.compiler.session.table :=
  runs.becomes.continues reached.accounted

theorem Reached.continues_build (reached : Reached files stream options autoName state)
    {result : BuildResult} (built : build files stream options autoName = .ok result) :
    state.compiler.session.table.Continues true result.compiled.table := by
  obtain ⟨rounds, done, runs, -, finished⟩ := reached.exists_runs_to_end built
  obtain ⟨_, _, _, _, handsOver⟩ := (reached.runs runs).exists_handsOver finished
  exact (reached.continues_runs runs).trans handsOver.fills.continues

end Build

/-! ## Including in place -/

/-- The table that is left behind after an image was included or refused. -/
def ModuleImage.tableAfter (image : ModuleImage) (table : SymbolTable) : SymbolTable :=
  match image.install.run table with
  | .ok _ later => later
  | .error _ left => left

namespace SymbolTable

theorem remembers_tableAfter (table : SymbolTable) (image : ModuleImage) :
    table.Remembers (image.tableAfter table) := by
  rw [ModuleImage.tableAfter]
  by_cases fits : image.FitsInto table
  · obtain ⟨ids, later, installed, -⟩ := ModuleImage.install_of_fits fits
    have registered : image.register table = .ok (ids, later) := by rw [ModuleImage.register,
      installed]
    rw [installed]
    exact (continues_register registered).remembers
  · obtain ⟨problem, refused⟩ := ModuleImage.install_of_not_fits fits
    rw [refused]
    exact .refl table

/-! ## Tables that grow -/

/-- What can change a table. -/
inductive Changes : SymbolTable → SymbolTable → Prop
  | define {table later : SymbolTable} {type : TypeDef} {id : TypeId}
      (defined : table.define type = .ok (id, later)) :
      Changes table later
  /-- a module is included or refused -/
  | install (table : SymbolTable) (image : ModuleImage) : Changes table (image.tableAfter table)
  /-- a build comes to some state -/
  | reached {files : FileTree} {stream : TokenStream} {options : BuildOptions} {autoName : Bool}
      {state : Build}
      (reached : Build.Reached files stream options autoName state) :
      Changes Host.table state.compiler.session.table
  /-- a build goes on -/
  | runs {files : FileTree} {stream : TokenStream} {options : BuildOptions} {autoName : Bool}
      {state later : Build}
      {rounds : List Round} (reached : Build.Reached files stream options autoName state)
      (runs : state.Runs rounds later) : Changes state.compiler.session.table later.compiler.session.table
  /-- a build hands its module over -/
  | built {files : FileTree} {stream : TokenStream} {options : BuildOptions} {autoName : Bool}
      {state : Build}
      {result : BuildResult} (reached : Build.Reached files stream options autoName state)
      (built : build files stream options autoName = .ok result) :
      Changes state.compiler.session.table result.compiled.table

/-- What a sequence of changes can make of a table. -/
def GrowsInto (table later : SymbolTable) : Prop := Relation.ReflTransGen Changes table later

variable {table later : SymbolTable}

theorem Changes.remembers (changes : table.Changes later) : table.Remembers later := by
  cases changes with
  | define defined => exact remembers_define.of_ok defined
  | install _ image => exact remembers_tableAfter table image
  | reached reached => exact reached.rostered.table.remembers
  | runs reached runs => exact (reached.continues_runs runs).remembers
  | built reached built => exact (reached.continues_build built).remembers

theorem GrowsInto.remembers (grows : table.GrowsInto later) : table.Remembers later := by
  induction grows with
  | refl => exact .refl table
  | tail _ changes ih => exact ih.trans changes.remembers

end SymbolTable

/-- Full names identify types. In every table that the host library grows into, by declarations, by
modules that are included or refused and by whole builds, the full name of a type means this type,
and no two types have one full name. Whatever becomes of the table, a name or alias that it knows
keeps its meaning, and its types keep their names. -/
theorem full_names_identify_types {table later : SymbolTable}
    (fromHost : Host.table.GrowsInto table) (grows : table.GrowsInto later) :
    (∀ (id : TypeId) (type : TypeDef), table.types[id]? = some type →
      table.lookup type.fullName = some id) ∧
        (∀ (id other : TypeId) (type same : TypeDef), table.types[id]? = some type →
          table.types[other]? = some same → same.fullName = type.fullName → other = id) ∧
      (∀ name id, table.lookup name = some id → later.lookup name = some id) ∧
      ∀ (id : TypeId) (type : TypeDef), table.types[id]? = some type → ∃ same :
        TypeDef, later.types[id]? = some same ∧ same.fullName = type.fullName := by
  have catalogued : table.Catalogued := fromHost.remembers.catalogued Host.catalogued
  refine ⟨catalogued, fun id other type same found foundOther alike =>
    catalogued.id_eq found foundOther alike, grows.remembers.kept, fun id type found => ?_⟩
  obtain ⟨same, foundLater, head⟩ := TypeDef.exists_of_heads grows.remembers.heads found
  exact ⟨same, foundLater, TypeDef.fullName_of_head head⟩

/-- A library with one class, whose name has a dot in it. -/
def pointLibrary : TokenStream where
  header := .library
  platform := 0
  tokens := [.classOpen "Geo.Point" .plain .everywhere]

/-- A module with one class. -/
def moduleOf (space name : String) : ModuleImage where
  name := "Shapes"
  version := "1.0"
  header := .library
  output := .dll
  entryPoint := none
  types := [⟨name, space, .plain, .everywhere, none, [], [], [], [], []⟩]

/-- A build declares `Geo.Point`. A module whose class has this full name, divided in another way,
is refused after that, and one with another class is included. -/
theorem pointLibrary_remembered :
    ∃ table later, Host.table.GrowsInto table ∧ table.GrowsInto later ∧
      table.lookup "Geo.Point" = some Host.table.types.length ∧
      later.types.length = table.types.length + 1 ∧
      later.lookup "Geo.Point" = some Host.table.types.length ∧
        later.lookup "int" = Host.table.lookup "int" := by
  have reached : Build.Reached (.empty []) pointLibrary {} false _ := .step (.start rfl) rfl rfl
  let after (table : SymbolTable) : SymbolTable :=
    (moduleOf "Geo" "Line").tableAfter ((moduleOf "Geo" "Point").tableAfter table)
  obtain ⟨table, fromHost, declared, more⟩ : ∃ table, Host.table.GrowsInto table ∧
      table.lookup "Geo.Point" = some Host.table.types.length ∧
      (after table).types.length = table.types.length + 1 := ⟨_, .single (.reached reached), rfl, rfl⟩
  have grows : table.GrowsInto (after table) := .tail (.single (.install _ _)) (.install _ _)
  obtain ⟨-, -, kept, -⟩ := full_names_identify_types fromHost grows
  obtain ⟨-, -, keptFromHost, -⟩ := full_names_identify_types .refl fromHost
  exact ⟨table, after table, fromHost, grows, declared, more, kept _ _ declared,
    kept _ _ (keptFromHost "int" _ rfl)⟩

end OnePass
