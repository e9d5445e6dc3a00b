import OnePass.Proofs.Bodies.Signature

/-! # Names of types

A type is known by its full name; host types have aliases besides. References between modules are
written by name, so that they mean the same in another table only if names are unique and keep their
meaning.

* `SymbolTable.Catalogued` — every type is what its full name means.
* `SymbolTable.Remembers` — a later table has the types and the names of an earlier one, and full
  names still mean types.
* `SymbolTable.Continues` — what can become of a table: its types stay the types that they are,
  names keep their meaning, and the types that join are declared or, where modules may be included,
  belong to one.

Declaring a type, filling in definitions and including a module all continue a table. -/

namespace OnePass

open List

theorem getElem?_extended {α : Type} {list longer : List α} (extended : list <+: longer)
    {index : Nat} {a : α} (here : list[index]? = some a) : longer[index]? = some a := by
  obtain ⟨inRange, rfl⟩ := List.getElem?_eq_some_iff.mp here
  exact prefix_iff_getElem?.mp extended index inRange

theorem exists_getElem?_of_forall₂ {α β : Type} {R : α → β → Prop} {list : List α}
    {results : List β} (related : List.Forall₂ R list results) {index : Nat} {b : β}
    (here : results[index]? = some b) : ∃ a, list[index]? = some a ∧ R a b := by
  induction related generalizing index with
  | nil => cases here
  | @cons a first _ _ same others ih =>
    cases index with
    | zero =>
      obtain rfl : first = b := by simpa using here
      exact ⟨a, rfl, same⟩
    | succ index => simpa using ih (by simpa using here)

namespace TypeDef

/-- A type that joins a table is declared, or it belongs to a module, if modules may be included. -/
structure Joins (including : Bool) (type : TypeDef) : Prop where
  category : type.category = categoryOf type.kind
  origin : type.origin = .declared ∨ including = true ∧ type.origin = .included

variable {type other : TypeDef} {including : Bool}

theorem Joins.of_head (joins : type.Joins including) (same : other.head = type.head) :
    other.Joins including := by
  have category : other.head.category = categoryOf other.head.kind := by
    rw [same]
    exact joins.category
  have origin : other.head.origin = .declared ∨ including = true ∧ other.head.origin = .included := by
    rw [same]
    exact joins.origin
  exact ⟨category, origin⟩

theorem fullName_of_head (same : other.head = type.head) : other.fullName = type.fullName := by
  show other.head.fullName = type.head.fullName
  rw [same]

/-- Types have the same heads, those of the longer list behind the others aside. -/
theorem exists_of_heads {types others : List TypeDef}
    (heads : types.map (·.head) <+: others.map (·.head)) {id : TypeId}
    (found : types[id]? = some type) : ∃ other, others[id]? = some other ∧ other.head = type.head := by
  refine Option.map_eq_some_iff.mp ?_
  rw [← getElem?_map]
  refine getElem?_extended heads ?_
  rw [getElem?_map, found, Option.map_some]

end TypeDef

namespace SymbolTable

variable {including : Bool} {table later : SymbolTable} {id : TypeId} {type : TypeDef}

/-- Every type is what its full name means. -/
def Catalogued (table : SymbolTable) : Prop :=
  ∀ (id : TypeId) (type : TypeDef), table.types[id]? = some type →
    table.lookup type.fullName = some id

/-- A later table has the types of an earlier one, with the names that they had, and what a name
meant it still means. If types were what their full names mean, they still are. -/
structure Remembers (table later : SymbolTable) : Prop where
  heads : table.types.map (·.head) <+: later.types.map (·.head)
  kept : ∀ (name : String) (id : TypeId), table.lookup name = some id → later.lookup name = some id
  catalogued : table.Catalogued → later.Catalogued

/-- What can become of a table. -/
structure Continues (including : Bool) (table later : SymbolTable) : Prop where
  heads : table.types.map (·.head) <+: later.types.map (·.head)
  joins : ∀ (id : TypeId) (type : TypeDef), later.types[id]? = some type → table.types.length ≤ id →
    type.Joins including
  kept : ∀ (name : String) (id : TypeId), table.lookup name = some id → later.lookup name = some id
  catalogued : table.Catalogued → later.Catalogued

/-! ## Remembering -/

theorem Remembers.refl (table : SymbolTable) : table.Remembers table :=
  ⟨prefix_rfl, fun _ _ found => found, fun catalogued => catalogued⟩

theorem Remembers.trans {last : SymbolTable} (first : table.Remembers later)
    (second : later.Remembers last) : table.Remembers last :=
  ⟨first.heads.trans second.heads, fun name id found =>
    second.kept name id (first.kept name id found), fun catalogued =>
      second.catalogued (first.catalogued catalogued)⟩

/-- Where types are what their full names mean, no two types have one name. -/
theorem Catalogued.id_eq (catalogued : table.Catalogued) {other : TypeId} {same : TypeDef}
    (found : table.types[id]? = some type) (foundOther : table.types[other]? = some same)
    (alike : same.fullName = type.fullName) : other = id := by
  have here := catalogued id type found
  have there := catalogued other same foundOther
  rw [alike, here] at there
  exact (Option.some.inj there).symm

/-! ## Continuing -/

theorem Fills.continues (fills : table.Fills later) : table.Continues including later where
  heads := by rw [fills.heads]
  joins id type found isNew := by
    have count := congrArg length fills.heads
    rw [length_map, length_map] at count
    exact absurd (List.getElem?_eq_some_iff.mp found).1 (by omega)
  kept name id found := by rwa [lookup, fills.names]
  catalogued catalogued id type found := by
    have heads : later.types.map (·.head) <+: table.types.map (·.head) := by rw [fills.heads]
    obtain ⟨before, there, same⟩ := TypeDef.exists_of_heads heads found
    rw [lookup, fills.names, ← TypeDef.fullName_of_head same]
    exact catalogued id before there

theorem Continues.refl (table : SymbolTable) : table.Continues including table :=
  (Fills.refl table).continues

theorem Continues.trans {last : SymbolTable} (first : table.Continues including later)
    (second : later.Continues including last) : table.Continues including last where
  heads := first.heads.trans second.heads
  joins id type found isNew := by
    by_cases isOlder : id < later.types.length
    · -- The type joined with the first, and its head is what it was then.
      have before : later.types[id]? = some later.types[id] := getElem?_eq_getElem isOlder
      obtain ⟨_, foundAgain, same⟩ := TypeDef.exists_of_heads second.heads before
      cases found.symm.trans foundAgain
      exact (first.joins id _ before isNew).of_head same
    · exact second.joins id type found (Nat.le_of_not_lt isOlder)
  kept name id found := second.kept name id (first.kept name id found)
  catalogued catalogued := second.catalogued (first.catalogued catalogued)

theorem Continues.remembers (continues : table.Continues including later) : table.Remembers later :=
  ⟨continues.heads, continues.kept, continues.catalogued⟩

theorem Continues.exists_later (continues : table.Continues including later)
    (found : table.types[id]? = some type) : ∃ same, later.types[id]? = some same ∧
      same.head = type.head :=
  TypeDef.exists_of_heads continues.heads found

theorem remembers_define : Gives (table.define type) fun (_, later) => table.Remembers later := by
  rw [define]
  split
  · exact gives_error
  · rename_i free
    have kept : ∀ (name : String) (id : TypeId), table.lookup name = some id →
        List.lookup name ((type.fullName, table.types.length) :: table.names) = some id := by
      intro name id found
      have differs : (name == type.fullName) = false := by
        rw [beq_eq_false_iff_ne]
        rintro rfl
        cases free.symm.trans found
      rw [lookup_cons, differs]
      exact found
    refine ⟨?_, kept, fun catalogued id other found => ?_⟩
    · rw [map_append]
      exact prefix_append _ _
    · by_cases isOld : id < table.types.length
      · rw [getElem?_append_left isOld] at found
        exact kept _ _ (catalogued id other found)
      · have isNew : table.types.length ≤ id := Nat.le_of_not_lt isOld
        rw [getElem?_append_right isNew, getElem?_singleton] at found
        split at found
        · rename_i isLast
          obtain rfl : type = other := Option.some.inj found
          have place : table.types.length = id := by omega
          simp [lookup, place]
        · cases found

theorem continues_define (including : Bool) (joins : type.Joins including) :
    Gives (table.define type) fun (_, later) => table.Continues including later := by
  refine (remembers_define.and (gives_self _)).imp ?_
  rintro ⟨_, later⟩ ⟨remembers, defined⟩
  refine ⟨remembers.heads, fun id other found isNew => ?_, remembers.kept, remembers.catalogued⟩
  rw [define] at defined
  split at defined
  · cases defined
  · cases defined
    rw [getElem?_append_right isNew] at found
    obtain rfl := mem_singleton.mp (mem_of_getElem? found)
    exact joins

theorem continues_register {image : ModuleImage} {ids : List TypeId}
    (registered : image.register table = .ok (ids, later)) : table.Continues true later := by
  obtain ⟨places, ⟨added, types, resolves⟩, named⟩ := ModuleImage.installed_of_register registered
  refine ⟨?_, fun id type found isNew => ?_, named.kept, fun catalogued id type found => ?_⟩
  · rw [types, map_append]
    exact prefix_append _ _
  · rw [types, getElem?_append_right isNew] at found
    obtain ⟨image, -, means⟩ := exists_getElem?_of_forall₂ resolves found
    exact ⟨by rw [means.category, means.kind], .inr ⟨rfl, means.origin⟩⟩
  · by_cases isOld : id < table.types.length
    · rw [types, getElem?_append_left isOld] at found
      exact named.kept _ _ (catalogued id type found)
    · -- The definition stands beside the image that it was made from, and so does the id.
      have isNew : table.types.length ≤ id := Nat.le_of_not_lt isOld
      rw [types, getElem?_append_right isNew] at found
      obtain ⟨image, here, means⟩ := exists_getElem?_of_forall₂ resolves found
      have inRange := (List.getElem?_eq_some_iff.mp here).1
      have place : ids[id - table.types.length]? = some id := by
        rw [places, getElem?_range' inRange]
        congr 1
        omega
      obtain ⟨same, there, known⟩ := exists_getElem?_of_forall₂ named.own place
      cases here.symm.trans there
      rw [TypeDef.fullName, means.name, means.space]
      exact known

end SymbolTable

/-! ## The host library -/

namespace Host

theorem catalogued : table.Catalogued := by
  have known : ∀ entry ∈ table.types.zipIdx, table.lookup entry.1.fullName =
    some entry.2 := by decide +kernel
  intro id type found
  exact known (type, id) (mem_zipIdx_iff_getElem?.mpr found)

theorem origin_eq {id : TypeId} {type : TypeDef} (found : table.types[id]? = some type) :
    type.origin = .host := by
  have all : ∀ type ∈ table.types, type.origin = .host := by decide
  exact all type (mem_of_getElem? found)

theorem lt_of_lookup {name : String} {id : TypeId} (found : table.lookup name = some id) :
    id < table.types.length := by
  have all : ∀ entry ∈ table.names, entry.2 < table.types.length := by decide +kernel
  obtain ⟨before, after, names, -⟩ := lookup_eq_some_iff.mp found
  exact all (name, id) (by rw [names]; simp)

end Host

namespace SymbolTable.Continues

variable {including : Bool} {table : SymbolTable} (continues : Host.table.Continues including table)
  {id : TypeId} {type : TypeDef} (found : table.types[id]? = some type)

include continues

/-- In every table over the host library, types are what their full names mean. -/
theorem catalogued_of_host : table.Catalogued := continues.catalogued Host.catalogued

include found

theorem origin_eq_host_iff : type.origin = .host ↔ id < Host.table.types.length := by
  constructor
  · intro isHost
    by_contra isNew
    rcases (continues.joins id type found (Nat.le_of_not_lt isNew)).origin with declared
      | ⟨-, included⟩
    · cases isHost.symm.trans declared
    · cases isHost.symm.trans included
  · intro isOld
    have before : Host.table.types[id]? = some Host.table.types[id] := getElem?_eq_getElem isOld
    obtain ⟨_, foundAgain, same⟩ := continues.exists_later before
    cases found.symm.trans foundAgain
    have isHost : Host.table.types[id].origin = .host := Host.origin_eq before
    show type.head.origin = .host
    rw [same]
    exact isHost

theorem lookup_fullName : Host.table.lookup type.fullName = if type.origin = .host then some
      id else none := by
  by_cases isHost : type.origin = .host
  · have isOld := (continues.origin_eq_host_iff found).mp isHost
    have before : Host.table.types[id]? = some Host.table.types[id] := getElem?_eq_getElem isOld
    obtain ⟨_, foundAgain, same⟩ := continues.exists_later before
    cases found.symm.trans foundAgain
    rw [if_pos isHost, TypeDef.fullName_of_head same]
    exact Host.catalogued id _ before
  · rw [if_neg isHost]
    cases known : Host.table.lookup type.fullName with
    | none => rfl
    | some other =>
      -- A host type of that name would be found under it still.
      have later := continues.kept _ _ known
      cases later.symm.trans (continues.catalogued_of_host id type found)
      exact absurd ((continues.origin_eq_host_iff found).mpr (Host.lt_of_lookup known)) isHost

end SymbolTable.Continues

end OnePass
