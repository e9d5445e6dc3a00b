import Mathlib.Data.List.Nodup
import OnePass.Draft.Method
import OnePass.Symbols.Host

/-! # Numbers of variables

Locals are numbered in the order in which they are declared, and so are parameters, behind the
receiver. A number has two
bytes, and nothing limits how many variables there are: from the 65537th on, a local has the number
of an earlier one and is taken to have its type.

* `MethodDraft.declareAll`: a sequence of declarations in a new method, with the answers of those
  that succeed.
* `MethodDraft.Records`: the answers are those that the lists of the method give. -/

namespace OnePass

open List

/-- A declaration of a variable. -/
inductive Declaration where
  | newParam (name : String) (type : TypeId)
  | newLocal (table : SymbolTable) (name typeName : String) (namespaces : List String) (isFinal : Bool)

/-- The variables that were declared, with their names. -/
structure Declared where
  locals : List (String × LocalVar) := []
  params : List (String × LocalVar) := []

/-- The number of a variable. -/
def VarSlot.number : VarSlot → UInt16
  | mutable index | final index | param index => index

section Lists

variable {α : Type} {items : List α} {name : α → String}

/-- Numbers of two bytes that follow one another differ as long as there are no more than all of
them. -/
theorem nodup_numbers_iff {entry : Nat → α → String × LocalVar} (shift : UInt16)
    (numbered : ∀ position item, (entry position item).2.slot.number = UInt16.ofNat position + shift) :
    ((items.mapIdx entry).map (·.2.slot.number)).Nodup ↔ (items.mapIdx entry).length ≤ 65536 := by
  have numbers : (items.mapIdx entry).map (·.2.slot.number) =
      (range items.length).map fun position => UInt16.ofNat position + shift :=
    ext_getElem (by simp) fun position _ _ => by simp [numbered]
  rw [numbers, length_mapIdx, nodup_map_iff_inj_on nodup_range]
  simp only [mem_range]
  constructor
  · intro differ
    by_contra more
    cases differ 0 (by omega) 65536 (by omega) rfl
  · intro few first firstIn second secondIn same
    have numbers := congrArg UInt16.toNat ((UInt16.add_left_inj shift).mp same)
    rwa [UInt16.toNat_ofNat', UInt16.toNat_ofNat', Nat.mod_eq_of_lt (by omega),
      Nat.mod_eq_of_lt (by omega)] at numbers

theorem nodup_concat (distinct : (items.map name).Nodup) {new : α}
    (fresh : items.any (name · == name new) = false) : ((items ++ [new]).map name).Nodup := by
  rw [map_append, nodup_append_comm]
  exact nodup_cons.mpr ⟨by simpa using fresh, distinct⟩

/-- Where names differ, a name is found at the place of its item. -/
theorem findIdx?_name (distinct : (items.map name).Nodup) {position : Nat}
    (inRange : position < items.length) : items.findIdx? (name · == name items[position]) =
      some position := by
  refine findIdx?_eq_some_iff_getElem.mpr ⟨inRange, by simp, fun other before same => ?_⟩
  have otherIn : other < items.length := Nat.lt_trans before inRange
  have names : (items.map name)[other]? = (items.map name)[position]? := by
    simpa [getElem?_eq_getElem, inRange, otherIn] using same
  exact Nat.ne_of_lt before ((getElem?_inj (by simpa using otherIn) distinct).mp names)

end Lists

namespace MethodDraft

/-- Makes a declaration. One that is refused changes nothing. -/
def declare (state : Declared × MethodDraft) : Declaration → Declared × MethodDraft
  | .newParam name type =>
    match state.2.declareParam name type with
    | .error _ => state
    | .ok (slot, changed) => ({ state.1 with params := state.1.params ++ [(name, ⟨slot, type⟩)] },
      changed)
  | .newLocal table name typeName namespaces isFinal =>
    match state.2.declareLocal table name typeName namespaces isFinal with
    | .error _ => state
    | .ok (var, changed) => ({ state.1 with locals := state.1.locals ++ [(name, var)] }, changed)

/-- Makes declarations in a new method, one after the other. -/
def declareAll (slot : MethodSlot) (isStatic : Bool) (calls : List Declaration) :
    Declared × MethodDraft :=
  calls.foldl declare ({}, { slot := slot, isStatic := isStatic })

/-- What was answered is what the lists of the method say, and no list has a name twice. -/
structure Records (state : Declared × MethodDraft) : Prop where
  locals : state.1.locals = state.2.locals.mapIdx fun position found =>
    (found.name, ⟨localSlot found.isFinal (UInt16.ofNat position), found.type⟩)
  params : state.1.params = state.2.params.mapIdx fun position found =>
    (found.name, ⟨.param (state.2.paramIndex position), found.type⟩)
  localNames : (state.2.locals.map (·.name)).Nodup
  paramNames : (state.2.params.map (·.name)).Nodup

variable {state : Declared × MethodDraft}

theorem Records.declare (records : Records state) (call : Declaration) :
    Records (declare state call) := by
  cases call with
  | newParam name type =>
    rw [MethodDraft.declare, declareParam]
    cases taken : state.2.params.any (·.name == name) with
    | true => exact records
    | false =>
      refine ⟨records.locals, ?_, records.localNames, nodup_concat records.paramNames taken⟩
      simp [records.params, mapIdx_concat, paramIndex]
  | newLocal table name typeName namespaces isFinal =>
    rw [MethodDraft.declare, declareLocal]
    cases table.resolveType typeName namespaces with
    | none => exact records
    | some type =>
      dsimp only
      rw [LocalTable.contains_eq_any, LocalTable.count_eq_length]
      cases taken : state.2.declared.defs.any (·.name == name) with
      | true => exact records
      | false =>
        have names : ((state.2.locals ++ [LocalDef.mk name type isFinal false]).map (·.name)).Nodup :=
          nodup_concat records.localNames taken
        exact ⟨by simp [records.locals, mapIdx_concat], records.params, by simpa using names,
          records.paramNames⟩

theorem records_declareAll (slot : MethodSlot) (isStatic : Bool) (calls : List Declaration) :
    Records (declareAll slot isStatic calls) := by
  have run (state : Declared × MethodDraft) (records : Records state) :
      Records (calls.foldl MethodDraft.declare state) := by
    induction calls generalizing state with
    | nil => exact records
    | cons call rest ih => exact ih _ (records.declare call)
  exact run _ ⟨rfl, rfl, nodup_nil, nodup_nil⟩

theorem Records.nodup_locals_iff (records : Records state) :
    (state.1.locals.map (·.2.slot.number)).Nodup ↔ state.1.locals.length ≤ 65536 := by
  rw [records.locals]
  exact nodup_numbers_iff 0 fun _ found => by cases found.isFinal <;> simp [localSlot,
    VarSlot.number]

/-- A local is found with its number, and with the type of the first local that has this number. -/
theorem Records.get?_local (records : Records state) {position : Nat}
    (inRange : position < state.2.locals.length) :
    ∃ stored, state.2.locals[position % 65536]? = some stored ∧
      state.2.get? state.2.locals[position].name =
        some ⟨localSlot state.2.locals[position].isFinal (UInt16.ofNat position), stored.type⟩ := by
  have wrapped : position % 65536 < state.2.locals.length :=
    Nat.lt_of_le_of_lt (Nat.mod_le ..) inRange
  refine ⟨_, getElem?_eq_getElem wrapped, ?_⟩
  simp [get?, getLocal?, findIdx?_name records.localNames inRange, inRange, wrapped]

theorem Records.get?_param (records : Records state) {position : Nat}
    (inRange : position < state.2.params.length)
    (unhidden : state.2.params[position].name ∉ state.1.locals.map (·.1)) :
    state.2.get? state.2.params[position].name =
      some ⟨.param (state.2.paramIndex position), state.2.params[position].type⟩ := by
  have absent : state.2.locals.findIdx? (·.name == state.2.params[position].name) = none := by
    have names : state.1.locals.map (·.1) = state.2.locals.map (·.name) := by
      rw [records.locals]
      exact ext_getElem (by simp) fun _ _ _ => by simp
    rw [names] at unhidden
    simpa [findIdx?_eq_none_iff] using unhidden
  simp [get?, getLocal?, absent, getParam?, findIdx?_name records.paramNames inRange, inRange]

end MethodDraft

/-- In a new method, all locals that are declared have numbers of their own exactly if there are at
most 65536, and so have the parameters. The name of a local gives the number of that local, and its
type too if there are at most 65536; the name of a parameter that no local hides gives that
parameter. -/
theorem variables_numbered_apart (slot : MethodSlot) (isStatic : Bool) (calls : List Declaration) :
    let state := MethodDraft.declareAll slot isStatic calls
    ((state.1.locals.map (·.2.slot.number)).Nodup ↔ state.1.locals.length ≤ 65536) ∧
      ((state.1.params.map (·.2.slot.number)).Nodup ↔ state.1.params.length ≤ 65536) ∧
      (∀ name var, (name, var) ∈ state.1.locals → (state.2.get? name).map (·.slot) = some var.slot ∧
        (state.1.locals.length ≤ 65536 → state.2.get? name = some var)) ∧
      ∀ name var, (name, var) ∈ state.1.params → name ∉ state.1.locals.map (·.1) →
          state.2.get? name = some var := by
  intro state
  have records : MethodDraft.Records state := MethodDraft.records_declareAll slot isStatic calls
  refine ⟨records.nodup_locals_iff, ?_, fun name var here => ?_, fun name var here unhidden => ?_⟩
  · rw [records.params]
    exact nodup_numbers_iff _ fun _ _ => rfl
  · rw [records.locals, List.length_mapIdx]
    rw [records.locals] at here
    obtain ⟨position, inRange, same⟩ := List.mem_mapIdx.mp here
    cases same
    obtain ⟨stored, isStored, found⟩ := records.get?_local inRange
    refine ⟨by rw [found]; rfl, fun few => ?_⟩
    rw [Nat.mod_eq_of_lt (Nat.lt_of_lt_of_le inRange few),
      List.getElem?_eq_getElem inRange] at isStored
    cases isStored
    exact found
  · rw [records.params] at here
    obtain ⟨position, inRange, same⟩ := List.mem_mapIdx.mp here
    cases same
    exact records.get?_param inRange unhidden

/-- Locals whose names are longer and longer. -/
def longerNames (count : Nat) : List Declaration :=
  (range count).map fun length => .newLocal Host.table (String.ofList (replicate length 'a'))
    "int" [] false

/-- They are all declared, since every name is longer than those before. -/
theorem declareAll_longerNames (count : Nat) :
    let state := MethodDraft.declareAll (.method ⟨0, 0⟩) true (longerNames count)
    state.1.locals.length = count ∧ ∀ found ∈ state.2.locals, found.name.length < count := by
  obtain ⟨type, known⟩ := Option.isSome_iff_exists.mp
    (by decide : (Host.table.resolveType "int" []).isSome = true)
  induction count with
  | zero => exact ⟨rfl, forall_mem_nil _⟩
  | succ count ih =>
    rw [longerNames, range_succ, map_append, ← longerNames, MethodDraft.declareAll, foldl_append,
      ← MethodDraft.declareAll]
    obtain ⟨length, shorter⟩ := ih
    generalize MethodDraft.declareAll (.method ⟨0, 0⟩) true (longerNames count) =
      state at length shorter ⊢
    have fresh : state.2.declared.contains (String.ofList (replicate count 'a')) = false := by
      rw [LocalTable.contains_eq_any, any_eq_false]
      intro found here same
      have less := shorter found here
      simp [(beq_iff_eq.mp same)] at less
    refine ⟨by simp [MethodDraft.declare, MethodDraft.declareLocal, known, fresh, length],
      fun found here => ?_⟩
    have known : found ∈ state.2.locals ∨ found = ⟨String.ofList (replicate count 'a'), type, false,
        false⟩ := by
      simpa [MethodDraft.declare, MethodDraft.declareLocal, known, fresh] using here
    rcases known with before | rfl
    · exact Nat.lt_succ_of_lt (shorter found before)
    · simp

/-- Of 65537 locals two have the same number. -/
theorem longerNames_share_number :
    ¬ ((MethodDraft.declareAll (.method ⟨0, 0⟩) true (longerNames 65537)).1.locals.map
      (·.2.slot.number)).Nodup := by
  rw [(MethodDraft.records_declareAll _ _ _).nodup_locals_iff, (declareAll_longerNames 65537).1]
  decide

end OnePass
