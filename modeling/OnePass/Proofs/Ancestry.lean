import OnePass.Proofs.Integrity.Lookup
import Mathlib.Logic.Relation

/-! # The supertypes of a type

Bases and interfaces are edges between the types of a table, of which nothing is known but that they
lead to types of the table: they may form cycles. `SymbolTable.ancestry` follows the bases from a
type until they end or come back to a type that was met (`SymbolTable.IsBaseChain`), and then adds
every type that interfaces lead to.

Both loops only ever add types that were not met, so the number of types that are left decreases.
That is what the inductions are on. The second loop scans the list that it extends: the types whose
edges were followed have all their interfaces in the list, and at the end these are all of its
types. -/

namespace OnePass.SymbolTable

open List

variable {id : TypeId}

open Relation (TransGen)

/-- The base and the interfaces of every type are types of the table. -/
def EdgesKnown (table : SymbolTable) : Prop :=
  ∀ type ∈ table.types, (∀ base ∈ type.base, base < table.types.length) ∧
    ∀ interface ∈ type.interfaces, interface < table.types.length

/-- The first type has the second as its base. -/
def BaseEdge (table : SymbolTable) (id base : TypeId) : Prop :=
  ∃ type, table.types[id]? = some type ∧ type.base = some base

/-- The first type has the second among its interfaces. -/
def InterfaceEdge (table : SymbolTable) (id interface : TypeId) : Prop :=
  ∃ type, table.types[id]? = some type ∧ interface ∈ type.interfaces

/-- A type and its bases, in order, up to the first one that was met before. -/
structure IsBaseChain (table : SymbolTable) (id : TypeId) (chain : List TypeId) : Prop where
  starts : chain.head? = some id
  edges : chain.IsChain table.BaseEdge
  distinct : chain.Nodup
  stops : ∀ last ∈ chain.getLast?, ∀ base, table.BaseEdge last base → base ∈ chain

variable {table : SymbolTable}

theorem BaseEdge.unique {id base other : TypeId} (edge : table.BaseEdge id base)
    (edgeToo : table.BaseEdge id other) : base = other := by
  obtain ⟨type, found, isBase⟩ := edge
  obtain ⟨same, foundToo, isOther⟩ := edgeToo
  obtain rfl := Option.some.inj (found.symm.trans foundToo)
  exact Option.some.inj (isBase.symm.trans isOther)

theorem exists_get (inRange : id < table.types.length) :
    ∃ type, type ∈ table.types ∧ table.types[id]? = some type ∧ table.get id = .ok type := by
  have found : table.types[id]? = some table.types[id] := getElem?_eq_getElem inRange
  exact ⟨table.types[id], getElem_mem inRange, found, by rw [get, found]⟩

theorem length_le_of_distinct {ids : List TypeId} (distinct : ids.Nodup)
    (inRange : ∀ id ∈ ids, id < table.types.length) : ids.length ≤ table.types.length := by
  have within : ids ⊆ range table.types.length := fun id here => mem_range.mpr (inRange id here)
  simpa using (distinct.subperm within).length_le

/-- What holds from some fuel on with one more holds from one more on. -/
theorem forall_fuel_succ {p : Nat → Prop} {room : Nat} (more : ∀ fuel ≥ room, p (fuel + 1)) :
    ∀ fuel ≥ room + 1, p fuel
  | 0, enough => absurd enough (Nat.not_succ_le_zero room)
  | fuel + 1, enough => more fuel (Nat.le_of_succ_le_succ enough)

/-! ## Bases -/

/-- Following bases ends, however much fuel there is. `room` counts the types that were not met, and
one more. -/
theorem exists_baseChain (known : table.EdgesKnown) (room : Nat) {seen : List TypeId}
    (full : seen.length + room = table.types.length + 1)
    (inRange : ∀ type ∈ seen, type < table.types.length) (idInRange : id < table.types.length)
    (distinct : seen.Nodup) (edges : (seen ++ [id]).IsChain table.BaseEdge) :
    ∃ chain, (∀ fuel ≥ room, table.baseChain fuel seen id = .ok chain) ∧
      (∀ type ∈ chain, type < table.types.length) ∧ seen <+: chain ∧
      (id ∉ seen → seen ++ [id] <+: chain) ∧ chain.IsChain table.BaseEdge ∧ chain.Nodup ∧
      ∀ last ∈ chain.getLast?, ∀ base, table.BaseEdge last base → base ∈ chain := by
  induction room generalizing seen id with
  | zero =>
    have := length_le_of_distinct distinct inRange
    omega
  | succ room ih =>
    by_cases met : id ∈ seen
    · -- The last of the types that were met leads back to one of them.
      refine ⟨seen, forall_fuel_succ fun fuel _ => ?_, inRange, prefix_rfl, absurd met,
        edges.left_of_append, distinct, fun last isLast base edge => ?_⟩
      · rw [baseChain, if_pos met]
      · have toId := (isChain_append.mp edges).2.2 last isLast id (by simp)
        exact edge.unique toId ▸ met
    obtain ⟨type, here, found, gets⟩ := exists_get idInRange
    have metInRange : ∀ type ∈ seen ++ [id], type < table.types.length :=
      forall_mem_append.mpr ⟨inRange, forall_mem_singleton.mpr idInRange⟩
    have metDistinct : (seen ++ [id]).Nodup := concat_eq_append ▸ distinct.concat met
    have edge_iff (base : TypeId) : table.BaseEdge id base ↔ type.base = some base := by
      refine ⟨?_, fun isBase => ⟨type, found, isBase⟩⟩
      rintro ⟨_, foundToo, isBase⟩
      exact Option.some.inj (found.symm.trans foundToo) ▸ isBase
    cases isBase : type.base with
    | none =>
      refine ⟨seen ++ [id], forall_fuel_succ fun fuel _ => ?_, metInRange, prefix_append _ _,
        fun _ => prefix_rfl, edges, metDistinct, fun last isLast base edge => ?_⟩
      · simp [baseChain, met, gets, isBase, bind, Except.bind, pure, Except.pure]
      · obtain rfl : id = last := by simpa using isLast
        rw [edge_iff, isBase] at edge
        cases edge
    | some base =>
      have further : ((seen ++ [id]) ++ [base]).IsChain table.BaseEdge := by
        refine isChain_append.mpr ⟨edges, by simp, fun last isLast next isNext => ?_⟩
        obtain rfl : id = last := by simpa using isLast
        obtain rfl : base = next := by simpa using isNext
        exact (edge_iff base).mpr isBase
      have room_eq : (seen ++ [id]).length + room = table.types.length + 1 := by
        rw [← full, length_append, length_singleton, Nat.add_assoc, Nat.add_comm 1]
      obtain ⟨chain, ends, within, onward, -, rest⟩ :=
        ih room_eq metInRange ((known type here).1 base isBase) metDistinct further
      refine ⟨chain, forall_fuel_succ fun fuel enough => ?_, within,
        (prefix_append _ _).trans onward, fun _ => onward, rest⟩
      simpa [baseChain, met, gets, isBase, bind, Except.bind] using ends fuel enough

/-! ## Interfaces -/

theorem nodup_append_fresh {seen : List TypeId} (distinct : seen.Nodup) (ids : List TypeId) :
    (seen ++ fresh seen ids).Nodup := by
  induction ids generalizing seen with
  | nil => simpa [fresh] using distinct
  | cons id ids ih =>
    rw [fresh]
    split
    · exact ih distinct
    · rename_i isNew
      have more : (seen ++ [id]).Nodup := concat_eq_append ▸ distinct.concat isNew
      simpa using ih more

theorem mem_append_fresh (seen : List TypeId) {ids : List TypeId} (here : id ∈ ids) :
    id ∈ seen ++ fresh seen ids := by
  induction ids generalizing seen with
  | nil => cases here
  | cons first ids ih =>
    rw [fresh]
    rcases mem_cons.mp here with rfl | inRest
    · split
      · rename_i met
        exact mem_append_left _ met
      · simp
    · split
      · exact ih seen inRest
      · simpa using ih (seen ++ [first]) inRest

/-- Following interfaces ends, however much fuel there is, in a list that has all interfaces of its
types. -/
theorem exists_interfaceClosure (known : table.EdgesKnown) (room : Nat)
    (visited waiting : List TypeId) (full : visited.length + room = table.types.length + 1)
    (inRange : ∀ type ∈ visited ++ waiting, type < table.types.length)
    (distinct : (visited ++ waiting).Nodup) (closed : ∀ id ∈ visited, ∀ interface,
      table.InterfaceEdge id interface → interface ∈ visited ++ waiting) :
    ∃ others, (∀ fuel ≥ room, table.interfaceClosure fuel visited waiting =
      .ok (visited ++ waiting ++ others)) ∧ (visited ++ waiting ++ others).Nodup ∧
      (∀ id ∈ visited ++ waiting ++ others, ∀ interface, table.InterfaceEdge id interface →
        interface ∈ visited ++ waiting ++ others) ∧
      ∀ type ∈ others, ∃ below ∈ visited ++ waiting, TransGen table.InterfaceEdge below type := by
  induction room generalizing visited waiting with
  | zero =>
    have := length_le_of_distinct distinct inRange
    rw [length_append] at this
    omega
  | succ room ih =>
    cases waiting with
    | nil =>
      rw [append_nil] at distinct closed
      refine ⟨[], forall_fuel_succ fun fuel _ =>
        ?_, by simpa using distinct, by simpa using closed, by simp⟩
      simp [interfaceClosure]
    | cons id waiting =>
      obtain ⟨type, here, found, gets⟩ := exists_get (inRange id (by simp))
      have edge_iff (interface : TypeId) : table.InterfaceEdge id interface ↔
          interface ∈ type.interfaces := by
        refine ⟨?_, fun isInterface => ⟨type, found, isInterface⟩⟩
        rintro ⟨_, foundToo, isInterface⟩
        exact Option.some.inj (found.symm.trans foundToo) ▸ isInterface
      -- The list is extended by the interfaces of the type at the scan's position that are not in
      -- it.
      obtain ⟨added, isAdded⟩ : ∃ added, fresh (visited ++ id :: waiting) type.interfaces = added :=
        ⟨_, rfl⟩
      have shift : visited ++ [id] ++ (waiting ++ added) = visited ++ id :: waiting ++ added := by simp
      have addedEdge (interface : TypeId) (new : interface ∈ added) : interface ∈ type.interfaces :=
        Sound.fresh_subset _ _ (isAdded ▸ new)
      obtain ⟨others, ends, rest⟩ := ih (visited ++ [id]) (waiting ++ added)
        (by rw [← full, length_append, length_singleton, Nat.add_assoc, Nat.add_comm 1])
        (by
          rw [shift]
          exact forall_mem_append.mpr
            ⟨inRange, fun interface new => (known type here).2 interface (addedEdge interface new)⟩)
        (by
          rw [shift, ← isAdded]
          exact nodup_append_fresh distinct _)
        (by
          rw [shift]
          intro before isVisited interface edge
          rcases mem_append.mp isVisited with inVisited | isId
          · exact mem_append_left _ (closed before inVisited interface edge)
          · rw [mem_singleton.mp isId, edge_iff] at edge
            exact isAdded ▸ mem_append_fresh _ edge)
      rw [shift] at ends rest
      obtain ⟨stillDistinct, stillClosed, reached⟩ := rest
      rw [append_assoc] at stillDistinct stillClosed
      refine ⟨added ++ others, forall_fuel_succ fun fuel enough => ?_, stillDistinct, stillClosed, ?_⟩
      · simpa [interfaceClosure, gets, isAdded, bind, Except.bind] using ends fuel enough
      · have fromAdded (interface : TypeId) (new : interface ∈ added) : table.InterfaceEdge id
            interface :=
          (edge_iff interface).mpr (addedEdge interface new)
        intro type isOther
        rcases mem_append.mp isOther with isNew | further
        · exact ⟨id, by simp, .single (fromAdded type isNew)⟩
        · obtain ⟨below, isBelow, path⟩ := reached type further
          rcases mem_append.mp isBelow with before | isNew
          · exact ⟨below, before, path⟩
          · exact ⟨id, by simp, .head (fromAdded below isNew) path⟩

/-! ## Supertypes -/

/-- The supertypes of a type are the type and its bases, in order and up to the first repetition,
and after them exactly the types that interfaces lead to, each once. The fuel does not matter: the
loops end by themselves. -/
theorem ancestry_is_exact (known : table.EdgesKnown) {id : TypeId}
    (inRange : id < table.types.length) : ∃ chain others,
      table.ancestry id = .ok (chain ++ others) ∧ (∀ fuel > table.types.length,
        (table.baseChain fuel [] id >>= table.interfaceClosure fuel []) = .ok (chain ++ others)) ∧
      table.IsBaseChain id chain ∧ (chain ++ others).Nodup ∧
      ∀ type, type ∈ chain ++ others ↔ type ∈ chain ∨ ∃ below ∈ chain,
        TransGen table.InterfaceEdge below type := by
  obtain ⟨chain, chainEnds, within, -, starts, edges, distinct, stops⟩ :=
    exists_baseChain known (table.types.length + 1) (Nat.zero_add _) (List.forall_mem_nil _) inRange
      List.nodup_nil (List.isChain_singleton id)
  obtain ⟨others, closureEnds, allDistinct, closed, reached⟩ :=
    exists_interfaceClosure known (table.types.length + 1) [] chain (Nat.zero_add _) within distinct
      (List.forall_mem_nil _)
  rw [List.nil_append] at closureEnds allDistinct closed reached
  have runs (fuel : Nat) (enough : fuel > table.types.length) :
      (table.baseChain fuel [] id >>= table.interfaceClosure fuel []) = .ok (chain ++ others) := by
    rw [chainEnds fuel enough]
    exact closureEnds fuel enough
  refine ⟨chain, others, runs _ (Nat.lt_succ_self _), runs, ⟨?_, edges, distinct, stops⟩,
    allDistinct, fun type => ?_⟩
  · obtain ⟨rest, rfl⟩ := starts List.not_mem_nil
    rfl
  · refine ⟨fun here => (List.mem_append.mp here).imp_right (reached type), ?_⟩
    rintro (inChain | ⟨below, inChain, path⟩)
    · exact List.mem_append_left _ inChain
    · -- The list has the type below, and with each type its interfaces.
      induction path with
      | single edge => exact closed below (List.mem_append_left _ inChain) _ edge
      | tail _ edge ih => exact closed _ ih _ edge

/-- Two classes that are each other's base, and an interface that extends itself and one of the
classes. -/
def cyclicTable : SymbolTable :=
  let type (name : String) (base : Option TypeId) (interfaces : List TypeId) : TypeDef :=
    { TypeDef.bare name "" .plain .declared with base := base, interfaces := interfaces }
  { SymbolTable.empty with
    types := [type "A" (some 1) [], type "B" (some 0) [3], type "C" none [], type "I" none [3, 0, 2]] }

/-- The ancestry of a class ends despite the cycles, and lists each type once. -/
theorem cyclicTable_ancestry : cyclicTable.EdgesKnown ∧ cyclicTable.ancestry 0 = .ok [0, 1, 3, 2] ∧
    ∃ chain others, cyclicTable.ancestry 0 = .ok (chain ++ others) ∧
      (∀ fuel > 4, (cyclicTable.baseChain fuel [] 0 >>= cyclicTable.interfaceClosure fuel []) =
        .ok (chain ++ others)) ∧
      cyclicTable.IsBaseChain 0 chain ∧ (chain ++ others).Nodup ∧
      ∀ type, type ∈ chain ++ others ↔
        type ∈ chain ∨ ∃ below ∈ chain, TransGen cyclicTable.InterfaceEdge below type := by
  have known : cyclicTable.EdgesKnown := by simp [EdgesKnown, cyclicTable]
  exact ⟨known, rfl, ancestry_is_exact known (by decide)⟩

end OnePass.SymbolTable
