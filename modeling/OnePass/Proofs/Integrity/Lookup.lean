import OnePass.Proofs.Integrity.Table

/-! # Searches stay in range

The supertypes of a type, the members found on them and the plans of operators, in a sound table. -/

namespace OnePass.SymbolTable.Sound

open List

variable {table : SymbolTable} (sound : table.Sound) {id owner : TypeId}
  {args : List (Option TypeId)}

include sound

/-! ## Supertypes -/

theorem ensures_baseChain [Stops Fault] (fuel : Nat) {seen : List TypeId}
    (before : table.HasTypes seen) (inRange : id < table.types.length) :
    Ensures (table.baseChain fuel seen id) table.HasTypes := by
  induction fuel generalizing seen id with
  | zero => exact before
  | succ fuel ih =>
    rw [baseChain]
    split
    · exact before
    · rw [ensures_bind]
      refine (ensures_get inRange).imp fun type found => ?_
      have ids := sound.definition found
      have extended : table.HasTypes (seen ++ [id]) := by simpa using ⟨before, inRange⟩
      split
      · exact extended
      · rename_i base hasBase
        -- The base stands in a definition of the table, so that the walk can go on.
        refine ih extended ?_
        simp only [TypeDef.typeIds, hasTypes_append] at ids
        exact ids.1.1.1.1 base (by simp [hasBase])

omit sound in
theorem fresh_subset (seen ids : List TypeId) : fresh seen ids ⊆ ids := by
  induction ids generalizing seen with
  | nil => exact List.Subset.refl _
  | cons id ids ih =>
    rw [fresh]
    split
    · exact List.Subset.trans (ih seen) (subset_cons_self id ids)
    · exact cons_subset_cons id (ih _)

theorem ensures_interfaceClosure [Stops Fault] (fuel : Nat) {visited waiting : List TypeId}
    (seen : table.HasTypes visited) (left : table.HasTypes waiting) :
    Ensures (table.interfaceClosure fuel visited waiting) table.HasTypes := by
  induction fuel generalizing visited waiting with
  | zero => exact hasTypes_append.mpr ⟨seen, left⟩
  | succ fuel ih =>
    cases waiting with
    | nil => exact seen
    | cons id waiting =>
      obtain ⟨inRange, left⟩ := hasTypes_cons.mp left
      rw [interfaceClosure, ensures_bind]
      refine (ensures_get inRange).imp fun type found => ?_
      have ids := sound.definition found
      simp only [TypeDef.typeIds, hasTypes_append] at ids
      -- The invariant is on both lists: what was visited, and what waits to be.
      refine ih (by simpa using ⟨seen, inRange⟩) (hasTypes_append.mpr ⟨left, ?_⟩)
      exact fun interface here => ids.1.1.1.2 interface (fresh_subset _ _ here)

theorem ensures_ancestry [Stops Fault] (inRange : id < table.types.length) :
    Ensures (table.ancestry id) table.HasTypes := by
  rw [ancestry, ensures_bind]
  refine (sound.ensures_baseChain _ hasTypes_nil inRange).imp fun chain here => ?_
  exact sound.ensures_interfaceClosure _ hasTypes_nil here

theorem ensures_isAssignable {target : TypeId} (inRange : id < table.types.length) :
    Ensures (table.isAssignable id target) fun _ => True := by
  rw [isAssignable]
  split
  · trivial
  · rw [ensures_bind]
    exact (sound.ensures_ancestry inRange).imp fun _ _ => trivial

/-! ## Fields -/

theorem ensures_fieldOn [Stops Fault] (inRange : owner < table.types.length) (name : String) :
    Ensures (table.fieldOn owner name) fun found => ∀ ref ∈ found, table.Has (.field ref) := by
  rw [fieldOn, ensures_bind]
  refine (sound.ensures_ancestry inRange).imp fun supertypes ids => ?_
  refine ensures_findSomeM? fun id here => ?_
  rw [ensures_bind]
  refine (ensures_get (ids id here)).imp fun type found ref at_ref => ?_
  obtain ⟨index, at_index, rfl⟩ := Option.map_eq_some_iff.mp at_ref
  exact ⟨type, found, findIdx?_eq_some_iff_findIdx_eq.mp at_index |>.1⟩

theorem ensures_resolveField [Stops Fault] (dotted : String) (namespaces : List String) :
    Ensures (table.resolveField dotted namespaces) fun found => ∀ ref ∈ found,
      table.Has (.field ref) := by
  rw [resolveField]
  split
  · simp
  · split
    · simp
    · rename_i id found
      exact sound.ensures_fieldOn (sound.resolveType_inRange found) _

/-! ## Overloads -/

theorem ensures_accepts (params : List TypeId)
    (holds : table.Holds (args.flatMap typeSymbols)) :
    Ensures (table.accepts params args) fun _ => True := by
  rw [accepts]
  refine ensures_allM fun (param, arg) here => ?_
  cases arg with
  | none => trivial
  | some type =>
    have known := holds_flatMap.mp holds (some type) (of_mem_zip here).2
    exact sound.ensures_isAssignable (by simpa [typeSymbols] using known)

theorem ensures_hasMethodNamed (inRange : owner < table.types.length) (name : String) :
    Ensures (table.hasMethodNamed owner name) fun _ => True := by
  rw [hasMethodNamed, ensures_bind]
  refine (sound.ensures_ancestry inRange).imp fun supertypes ids => ensures_anyM fun id here => ?_
  rw [ensures_bind]
  exact (ensures_get (ids id here)).imp fun _ _ => trivial

omit sound in
/-- An overload is a method at its position in the definition it was taken from. -/
theorem has_of_mem_overloads {type : TypeDef} (found : table.types[id]? = some type) {name : String}
    {arity : Nat} {candidate : MemberRef × MethodDef}
    (here : candidate ∈ overloads type id name arity) : table.Has (.method candidate.1) := by
  rw [overloads, mem_filterMap] at here
  obtain ⟨⟨method, index⟩, at_index, fits⟩ := here
  simp only [Option.ite_none_right_eq_some, Option.some.injEq] at fits
  obtain ⟨-, rfl⟩ := fits
  exact ⟨type, found, (List.getElem?_eq_some_iff.mp (mem_zipIdx_iff_getElem?.mp at_index)).1⟩

theorem ensures_findMethod (inRange : owner < table.types.length) (name : String)
    (holds : table.Holds (args.flatMap typeSymbols)) :
    Ensures (table.findMethod owner name args) fun found => ∀ ref ∈ found,
      table.Has (.method ref) := by
  rw [findMethod, ensures_bind]
  refine (sound.ensures_ancestry inRange).imp fun supertypes ids => ?_
  rw [ensures_bind]
  have gathered : Ensures
      (supertypes.mapM fun id => do return overloads (← table.get id) id name args.length)
      fun found => ∀ methods ∈ found, ∀ candidate ∈ methods, table.Has (.method candidate.1) := by
    refine ensures_mapM fun id here => ?_
    rw [ensures_bind]
    exact (ensures_get (ids id here)).imp fun type found candidate => has_of_mem_overloads found
  refine gathered.imp fun found all => ?_
  -- Whichever of the candidates is chosen, it exists.
  have has : ∀ candidate ∈ found.flatten, table.Has (.method candidate.1) := by
    intro candidate here
    obtain ⟨methods, inFound, inMethods⟩ := mem_flatten.mp here
    exact all methods inFound candidate inMethods
  dsimp only
  split
  · rename_i ref method exact_match
    simpa using has _ (mem_of_find?_eq_some exact_match)
  · rw [ensures_bind]
    refine (ensures_findM? fun candidate _ => sound.ensures_accepts _ holds).imp
      fun accepted inFound ref at_ref => ?_
    obtain ⟨candidate, here, rfl⟩ := Option.map_eq_some_iff.mp at_ref
    exact has candidate (inFound candidate here)

theorem ensures_findOperator (inRange : id < table.types.length) (name : String) :
    Ensures (table.findOperator id name) fun found => ∀ ref ∈ found, table.Has (.method ref) := by
  rw [findOperator, ensures_bind]
  refine (sound.ensures_ancestry inRange).imp fun supertypes ids => ensures_findSomeM?
    fun owner here => ?_
  rw [ensures_bind]
  refine (ensures_get (ids owner here)).imp fun type found => ?_
  rw [ensures_bind]
  refine Ensures.imp (ensures_findM? fun candidate _ => ?_) fun candidate inMethods ref at_ref => ?_
  · -- A candidate is tested by the first of its two parameters.
    dsimp only
    split
    · split
      · exact sound.ensures_isAssignable inRange
      · trivial
    · trivial
  · obtain ⟨⟨method, index⟩, here, rfl⟩ := Option.map_eq_some_iff.mp at_ref
    have at_index := mem_zipIdx_iff_getElem?.mp (inMethods _ here)
    exact ⟨type, found, (List.getElem?_eq_some_iff.mp at_index).1⟩

theorem ensures_findCtor (inRange : owner < table.types.length)
    (holds : table.Holds (args.flatMap typeSymbols)) :
    Ensures (table.findCtor owner args) fun found => ∀ ref ∈ found, table.Has (.ctor ref) := by
  rw [findCtor, ensures_bind]
  refine (ensures_get inRange).imp fun type found => ?_
  have has : ∀ candidate ∈ type.ctors.zipIdx.filter (·.1.params.length == args.length),
      table.Has (.ctor ⟨owner, candidate.2⟩) := by
    intro candidate here
    have at_index := mem_zipIdx_iff_getElem?.mp (mem_of_mem_filter here)
    exact ⟨type, found, (List.getElem?_eq_some_iff.mp at_index).1⟩
  dsimp only
  split
  · rename_i ctor index exact_match
    simpa using has _ (mem_of_find?_eq_some exact_match)
  · rw [ensures_bind]
    refine (ensures_findM? fun candidate _ => sound.ensures_accepts _ holds).imp
      fun accepted inFound ref at_ref => ?_
    obtain ⟨candidate, here, rfl⟩ := Option.map_eq_some_iff.mp at_ref
    exact has candidate (inFound candidate here)

/-! ## Operators -/

theorem nativePlan_holds {left : Option TypeId} (holds : table.Holds (typeSymbols left))
    (op : Operator) (opcodes : List OpCode) :
    table.Holds (table.nativePlan left op opcodes).symbols := by
  simp only [nativePlan, OperatorPlan.symbols, Lowering.symbols, nil_append]
  split
  · simpa [typeSymbols] using sound.boolean_inRange
  · exact holds

theorem ensures_methodPlan (inRange : id < table.types.length) (op : Operator) :
    Ensures (table.methodPlan id op) fun plan => table.Holds plan.symbols := by
  rw [methodPlan]
  split
  · exact ensures_throw_problem
  · rw [ensures_fault_bind]
    refine (sound.ensures_findOperator inRange _).imp fun found has => ?_
    split
    · rw [ensures_fault_bind]
      exact (ensures_typeName inRange).imp fun _ _ => ensures_throw_problem
    · rename_i ref
      have here := has ref rfl
      rw [ensures_fault_bind]
      refine (sound.ensures_method here).imp fun method ids => ?_
      simpa [OperatorPlan.symbols, Lowering.symbols, typeSymbols, here] using (hasTypes_cons.mp ids).1

theorem ensures_typedPlan (inRange : id < table.types.length) (op : Operator)
    (opcodes : List OpCode) : Ensures (table.typedPlan id op opcodes) fun plan =>
      table.Holds plan.symbols := by
  have known : table.Holds (typeSymbols (some id)) := by simpa [typeSymbols] using inRange
  have native := sound.nativePlan_holds known op opcodes
  have refuses (problem : String → Problem) :
      Ensures (do throw (.problem (problem (← table.typeName id))) : Except Failure OperatorPlan)
        fun plan => table.Holds plan.symbols := by
    rw [ensures_fault_bind]
    exact (ensures_typeName inRange).imp fun _ _ => ensures_throw_problem
  rw [typedPlan, ensures_fault_bind]
  refine (ensures_category inRange).imp fun category _ => ?_
  dsimp only
  -- A remainder needs numbers and logic needs Booleans; other types are refused by name.
  split
  · split
    · exact native
    · exact refuses _
  · split
    · exact native
    · exact refuses _
  · split
    · exact native
    · exact refuses _
  · exact native
  · split
    · exact native
    · split
      -- A sum of strings is a call, and its overload is looked up like any other.
      · rw [ensures_fault_bind]
        have args : table.Holds ([some id, some id].flatMap typeSymbols) := by simpa using known
        refine (sound.ensures_findMethod inRange _ args).imp fun found has => ?_
        split
        · exact ensures_throw_problem
        · rename_i concat
          simpa [OperatorPlan.symbols, Lowering.symbols] using ⟨has concat rfl, known⟩
      · split
        · exact native
        · exact sound.ensures_methodPlan inRange op

theorem ensures_planOperator {left : Option TypeId} (holds : table.Holds (typeSymbols left))
    (op : Operator) : Ensures (table.planOperator left op) fun plan => table.Holds plan.symbols := by
  have untouched : table.Holds (OperatorPlan.symbols ⟨op, .nothing, left⟩) := by
    simpa [OperatorPlan.symbols, Lowering.symbols] using holds
  have double : table.Holds (typeSymbols (some table.wellKnown.double)) := by
    simpa [typeSymbols] using sound.double_inRange
  unfold planOperator
  split
  · exact untouched
  · exact untouched
  -- A power is a call to the host library.
  · dsimp only
    rw [ensures_fault_bind]
    refine (sound.ensures_findMethod sound.math_inRange _ (by simpa using double)).imp
      fun found has => ?_
    split
    · exact ensures_throw_problem
    · rename_i pow
      simpa [OperatorPlan.symbols, Lowering.symbols] using ⟨has pow rfl, double⟩
  · split
    · exact ensures_throw_problem
    · split
      · exact sound.nativePlan_holds holds op _
      · exact sound.ensures_typedPlan (by simpa [typeSymbols] using holds) op _

end OnePass.SymbolTable.Sound
