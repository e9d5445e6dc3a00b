import OnePass.Proofs.Integrity.Lookup
import OnePass.Proofs.Integrity.Growth

/-! # Drafts stay in range

What is emitted to a method, and what a type takes over from its methods, holds symbols of the
table. -/

namespace OnePass

open List Option
open SymbolTable (holds_flatMap holds_nil holds_map ensures_get hasTypes_append)

variable {table : SymbolTable}

/-! ## Code -/

@[simp]
theorem codeSymbols_append (code more : List Instruction) :
    codeSymbols (code ++ more) = codeSymbols code ++ codeSymbols more :=
  flatMap_append

theorem SymbolTable.Holds.code_subset {code part : List Instruction}
    (holds : table.Holds (codeSymbols code)) (subset : part ⊆ code) :
    table.Holds (codeSymbols part) := by
  rw [codeSymbols, holds_flatMap] at holds ⊢
  exact fun instruction here => holds instruction (subset here)

@[simp]
theorem holds_ofLiteral (value : Literal) : table.Holds
      (Instruction.ofLiteral value).operand.symbols := by
  cases value with
  | bool value => cases value <;> exact holds_nil
  | _ => exact holds_nil

theorem Lowering.codeSymbols_code (lowering : Lowering) :
    codeSymbols lowering.code = lowering.symbols := by
  cases lowering <;> simp [codeSymbols, code, symbols, Operand.symbols]

namespace MethodDraft

variable {code : List Instruction} {ref : MemberRef}

/-! ## Variables -/

/-- A local that the method has is found: its number in the code, which is cut to 16 bits, is that
of a local. -/
theorem getLocal?_isSome (draft : MethodDraft) (name : String) :
    (draft.getLocal? name).isSome = draft.locals.any (·.name == name) := by
  rw [getLocal?, ← findIdx?_isSome]
  cases found : draft.locals.findIdx? (·.name == name) with
  | none => rfl
  | some position =>
    obtain ⟨inRange, -⟩ := findIdx?_eq_some_iff_getElem.mp found
    have stored : (UInt16.ofNat position).toNat < draft.locals.length := by
      rw [UInt16.toNat_ofNat']
      omega
    have type := getElem?_eq_getElem stored
    simp only [bind_eq_bind, bind_some, getElem?_eq_getElem inRange, type]
    rfl

theorem getParam?_isSome (draft : MethodDraft) (name : String) :
    (draft.getParam? name).isSome = draft.params.any (·.name == name) := by
  rw [getParam?, ← findIdx?_isSome]
  cases found : draft.params.findIdx? (·.name == name) with
  | none => rfl
  | some position =>
    obtain ⟨inRange, -⟩ := findIdx?_eq_some_iff_getElem.mp found
    simp [getElem?_eq_getElem inRange]

theorem get?_isSome (draft : MethodDraft) (name : String) :
    (draft.get? name).isSome = (draft.locals.any (·.name == name) || draft.params.any
      (·.name == name)) := by
  rw [get?, isSome_or, getLocal?_isSome, getParam?_isSome]

/-! ## Code of a method -/

variable {draft : MethodDraft} (holds : table.Holds draft.symbols)

theorem holds_append :
    table.Holds (draft.append code).symbols ↔ table.Holds draft.symbols ∧
      table.Holds (codeSymbols code) := by
  simp [append, symbols, and_assoc]

theorem holds_emit {opcode : OpCode} {operand : Operand} :
    table.Holds (draft.emit opcode operand).symbols ↔ table.Holds draft.symbols ∧
      table.Holds operand.symbols := by
  rw [emit, holds_append]
  simp [codeSymbols]

theorem holds_new {slot : MethodSlot} (known : table.Holds slot.symbols)
    (isStatic paramsOpen : Bool) : table.Holds
      ({ slot := slot, isStatic := isStatic, paramsOpen := paramsOpen } : MethodDraft).symbols := by
  simpa [symbols, codeSymbols] using known

include holds

theorem holds_slot : table.Holds draft.slot.symbols := by
  simp only [symbols, SymbolTable.holds_append] at holds
  exact holds.1.1.1

theorem holds_code : table.Holds (codeSymbols draft.code) := by
  simp only [symbols, SymbolTable.holds_append] at holds
  exact holds.2

theorem holds_withCode (here : table.Holds (codeSymbols code)) :
    table.Holds ({ draft with code := code } : MethodDraft).symbols := by
  simp only [symbols, SymbolTable.holds_append] at holds ⊢
  exact ⟨holds.1, here⟩

theorem holds_cut (start : Nat) : table.Holds (draft.cut start).symbols :=
  holds_withCode holds ((holds_code holds).code_subset (take_subset start draft.code))

theorem holds_tail (start : Nat) : table.Holds (codeSymbols (draft.tail start)) :=
  (holds_code holds).code_subset (drop_subset start draft.code)

theorem holds_dropLast : table.Holds draft.dropLast.symbols :=
  holds_withCode holds ((holds_code holds).code_subset (dropLast_subset draft.code))

theorem holds_get {name : String} {var : LocalVar} (found : draft.get? name = some var) :
    table.Holds var.symbols := by
  simp only [symbols, SymbolTable.holds_append, holds_map] at holds
  obtain ⟨⟨⟨-, params⟩, locals⟩, -⟩ := holds
  rw [get?, or_eq_some_iff] at found
  rcases found with found | ⟨-, found⟩
  · simp only [getLocal?, bind_eq_bind, bind_eq_some_iff] at found
    obtain ⟨_, _, _, _, stored, here, found⟩ := found
    cases found
    simpa [LocalVar.symbols] using locals stored (mem_of_getElem? here)
  · simp only [getParam?, bind_eq_bind, bind_eq_some_iff] at found
    obtain ⟨_, _, param, here, found⟩ := found
    cases found
    simpa [LocalVar.symbols] using params param (mem_of_getElem? here)

theorem ensures_declareParam (name : String) {type : TypeId} (inRange : type < table.types.length) :
    Ensures (draft.declareParam name type) fun (_, later) => table.Holds later.symbols := by
  rw [declareParam]
  split
  · exact ensures_problem
  · rw [ensures_ok]
    simp only [symbols, SymbolTable.holds_append, holds_map] at holds ⊢
    refine ⟨⟨⟨holds.1.1.1, ?_⟩, holds.1.2⟩, holds.2⟩
    simpa [or_imp, forall_and, inRange] using holds.1.1.2

theorem ensures_declareLocal (sound : table.Sound) (name typeName : String)
    (namespaces : List String) (isFinal : Bool) :
    Ensures (draft.declareLocal table name typeName namespaces isFinal) fun (var, later) =>
      table.Holds var.symbols ∧ table.Holds later.symbols := by
  rw [declareLocal]
  split
  · exact ensures_problem
  · rename_i type found
    have inRange := sound.resolveType_inRange found
    split
    · exact ensures_problem
    · rw [ensures_ok]
      refine ⟨by simpa [LocalVar.symbols] using inRange, ?_⟩
      simp only [symbols, SymbolTable.holds_append, holds_map] at holds ⊢
      refine ⟨⟨holds.1.1, ?_⟩, holds.2⟩
      simpa [or_imp, forall_and, inRange] using holds.1.2

theorem ensures_markAssigned (slot : VarSlot) :
    Ensures (draft.markAssigned slot) fun later => table.Holds later.symbols := by
  cases slot with
  | mutable | param => exact holds
  | final index =>
    rw [markAssigned]
    split
    -- This is the permitted fault.
    · rfl
    · split
      · trivial
      · rw [ensures_ok]
        simp only [symbols, SymbolTable.holds_append, holds_map, locals_mk,
          LocalTable.defs_markAssigned] at holds ⊢
        refine ⟨⟨holds.1.1, ?_⟩, holds.2⟩
        exact SymbolTable.forall_mem_modify holds.1.2 fun declared here =>
          holds.1.2 declared (mem_of_getElem? here)

/-! ## Emission -/

theorem holds_loadConstant (sound : table.Sound) (value : Literal) :
    (draft.loadConstant table value).1 < table.types.length ∧
      table.Holds (draft.loadConstant table value).2.symbols := by
  refine ⟨sound.literalType_inRange value, ?_⟩
  rw [loadConstant, holds_append]
  exact ⟨holds, by simp [codeSymbols]⟩

theorem holds_loadVar (var : LocalVar) : table.Holds (draft.loadVar var).symbols := by
  rw [loadVar]
  split <;> exact holds_emit.mpr ⟨holds, holds_nil⟩

theorem holds_loadThis : table.Holds draft.loadThis.symbols :=
  holds_emit.mpr ⟨holds, holds_nil⟩

theorem ensures_storeVar (var : LocalVar) :
    Ensures (draft.storeVar var) fun later => table.Holds later.symbols := by
  rw [storeVar, ensures_bind]
  refine (ensures_markAssigned holds var.slot).imp fun marked here => ?_
  split <;> exact holds_emit.mpr ⟨here, holds_nil⟩

theorem ensures_loadField (sound : table.Sound) (has : table.Has (.field ref)) :
    Ensures (draft.loadField table ref) fun (type, later) =>
      type < table.types.length ∧ table.Holds later.symbols := by
  rw [loadField, ensures_bind]
  refine (sound.ensures_field has).imp fun field inRange => ⟨inRange, ?_⟩
  exact holds_emit.mpr ⟨holds, by simpa [Operand.symbols] using has⟩

theorem ensures_storeField (sound : table.Sound) (has : table.Has (.field ref)) :
    Ensures (draft.storeField table ref) fun later => table.Holds later.symbols := by
  rw [storeField, ensures_bind]
  refine (sound.ensures_field has).imp fun field _ => ?_
  exact holds_emit.mpr ⟨holds, by simpa [Operand.symbols] using has⟩

theorem ensures_call (sound : table.Sound) (has : table.Has (.method ref)) (discard : Bool) :
    Ensures (draft.call table ref discard) fun (type, later) =>
      table.Holds (typeSymbols type) ∧ table.Holds later.symbols := by
  rw [call, ensures_bind]
  refine (sound.ensures_method has).imp fun method ids => ?_
  have result := (SymbolTable.hasTypes_cons.mp ids).1
  have called : table.Holds
      (draft.emit (if method.isVirtual then .callvirt else .call) (.method ref)).symbols :=
    holds_emit.mpr ⟨holds, by simpa [Operand.symbols] using has⟩
  dsimp only
  rw [ensures_bind]
  refine (SymbolTable.ensures_isVoid result).imp fun isVoid _ => ?_
  split
  · exact ⟨holds_nil, called⟩
  · split
    · exact ⟨holds_nil, holds_emit.mpr ⟨called, holds_nil⟩⟩
    · exact ⟨by simpa [typeSymbols] using result, called⟩

theorem ensures_constructFrom (sound : table.Sound) {type : TypeId}
    (inRange : type < table.types.length) {args : List (Option TypeId)}
    (known : table.Holds (args.flatMap typeSymbols)) : Ensures (draft.constructFrom table type args)
      fun (result, later) =>
      result < table.types.length ∧ table.Holds later.symbols := by
  rw [constructFrom, ensures_fault_bind]
  refine (sound.ensures_findCtor inRange known).imp fun found has => ?_
  split
  · exact ensures_throw_problem
  · rename_i ref
    have here := has ref rfl
    exact ⟨here.owner, holds_emit.mpr ⟨holds, by simpa [Operand.symbols] using here⟩⟩

theorem holds_apply {plan : OperatorPlan} (known : table.Holds plan.symbols) :
    table.Holds (draft.apply plan).symbols := by
  rw [OperatorPlan.symbols, SymbolTable.holds_append] at known
  rw [apply, holds_append, Lowering.codeSymbols_code]
  exact ⟨holds, known.1⟩

theorem holds_negate : table.Holds draft.negate.symbols :=
  holds_emit.mpr ⟨holds_emit.mpr ⟨holds, holds_nil⟩, holds_nil⟩

theorem holds_step (op : Operator) : table.Holds (draft.step op).symbols :=
  holds_emit.mpr ⟨holds_emit.mpr ⟨holds, holds_nil⟩, holds_nil⟩

omit holds in
theorem elementType_inRange (sound : table.Sound) {elements : List Element}
    (known : table.Holds (elements.flatMap fun element => typeSymbols element.type)) :
    elementType table elements < table.types.length := by
  rw [elementType]
  split
  · rename_i first found
    split
    · obtain ⟨element, here, type⟩ := bind_eq_some_iff.mp found
      have inside := SymbolTable.holds_flatMap.mp known element (mem_of_head? here)
      simpa [typeSymbols, type] using inside
    · exact sound.object_inRange
  · exact sound.object_inRange

theorem holds_lowerSequence (sound : table.Sound) (start : Nat) {elements : List Element}
    (known : table.Holds (elements.flatMap fun element => typeSymbols element.type)) :
    (draft.lowerSequence table start elements).1 < table.types.length ∧
      table.Holds (draft.lowerSequence table start elements).2.symbols := by
  refine ⟨sound.array_inRange, ?_⟩
  have type := elementType_inRange sound known
  have stores (element : Element) (index : Nat) : table.Holds
      (codeSymbols (storeElement (elementType table elements) index
        (elementCode start (draft.tail start) element))) := by
    -- Wherever an element is said to begin and end, its code is a part of the tail.
    have inside : elementCode start (draft.tail start) element ⊆ draft.tail start :=
      List.Subset.trans (drop_subset _ _) (take_subset _ _)
    have code := (holds_tail holds start).code_subset inside
    simpa [storeElement, codeSymbols, Operand.symbols, type] using code
  rw [lowerSequence, holds_append, codeSymbols_append, SymbolTable.holds_append]
  refine ⟨holds_cut holds start, by simpa [codeSymbols, Operand.symbols] using type, ?_⟩
  rw [codeSymbols, flatMap_assoc, holds_flatMap]
  exact fun (element, index) _ => stores element index

/-! ## Labels -/

theorem ensures_label (name : String) :
    Ensures (draft.label name) fun later => table.Holds later.symbols := by
  rw [label]
  split
  · exact ensures_problem
  · exact holds

theorem holds_branch (label : String) : table.Holds (draft.branch label).symbols :=
  holds_emit.mpr ⟨holds, holds_nil⟩

omit holds in
theorem ends_resolveFixups (labels : List (String × UInt32)) (fixups : List Fixup)
    (known : table.Holds (codeSymbols code)) :
    Ends (resolveFixups labels fixups code) fun (filled, _) => table.Holds (codeSymbols filled) := by
  induction fixups generalizing code with
  | nil => exact known
  | cons fixup fixups ih =>
    rw [resolveFixups]
    split
    · rw [ends_bind]
      exact (ih known).imp fun _ here => here
    · split
      · refine ih ?_
        rw [codeSymbols, holds_flatMap] at known ⊢
        exact SymbolTable.forall_mem_modify known fun _ _ => holds_nil
      -- This is the fault that only closing a method can end in.
      · trivial

theorem ends_finish : Ends draft.finish fun (body, _) => table.Holds body.symbols := by
  rw [finish, ends_bind]
  refine (ends_resolveFixups _ _ (holds_code holds)).imp fun (code, _) known => ?_
  simp only [symbols, SymbolTable.holds_append, holds_map] at holds
  simp only [ends_pure, MethodBody.symbols, SymbolTable.holds_append, holds_map, List.forall_mem_map]
  exact ⟨holds.1, known⟩

end MethodDraft

/-! ## Types -/

namespace TypeDraft

variable {draft : TypeDraft} {method : MethodDraft}

/-- The base is a name until the type is closed. -/
theorem extend_symbols (name : String) (draft changed : TypeDraft)
    (extended : draft.extend name = some changed) : changed.symbols = draft.symbols := by
  rw [extend, ite_none_right_eq_some] at extended
  cases extended.2
  rfl

/-- The interfaces are names until the type is closed. -/
theorem implement_symbols (name : String) (draft changed : TypeDraft)
    (implemented : draft.implement name = some changed) : changed.symbols = draft.symbols := by
  rw [implement, ite_none_right_eq_some] at implemented
  cases implemented.2
  rfl

theorem holds_iff : table.Holds draft.symbols ↔
    draft.id < table.types.length ∧ (∀ body ∈ draft.bodies, table.Holds body.symbols) ∧
      ∀ method ∈ draft.openMethods, table.Holds method.symbols := by
  simp [symbols]

variable (holds : table.Holds draft.symbols)

include holds

theorem id_inRange : draft.id < table.types.length := (holds_iff.mp holds).1

theorem holds_currentMethod (found : draft.currentMethod? = some method) :
    table.Holds method.symbols :=
  (holds_iff.mp holds).2.2 method (mem_of_head? found)

theorem holds_openMethod (known : table.Holds method.symbols) :
    table.Holds (draft.openMethod method).symbols := by
  obtain ⟨id, bodies, methods⟩ := holds_iff.mp holds
  exact holds_iff.mpr ⟨id, bodies, forall_mem_cons.mpr ⟨known, methods⟩⟩

theorem holds_setMethod (known : table.Holds method.symbols) :
    table.Holds (draft.setMethod method).symbols := by
  obtain ⟨id, bodies, methods⟩ := holds_iff.mp holds
  exact holds_iff.mpr ⟨id, bodies, forall_mem_cons.mpr
    ⟨known, fun other here => methods other (mem_of_mem_tail here)⟩⟩

omit holds in
theorem ends_finishAll {methods : List MethodDraft}
    (known : ∀ method ∈ methods, table.Holds method.symbols) :
    Ends (finishAll methods) fun (bodies, _) => ∀ body ∈ bodies, table.Holds body.symbols := by
  induction methods with
  | nil => exact forall_mem_nil _
  | cons method methods ih =>
    obtain ⟨first, others⟩ := forall_mem_cons.mp known
    rw [finishAll, ends_bind]
    refine (MethodDraft.ends_finish first).imp fun (body, _) inBody => ?_
    rw [ends_bind]
    exact (ih others).imp fun (bodies, _) inBodies => forall_mem_cons.mpr ⟨inBody, inBodies⟩

theorem ends_closeMethod :
    Ends draft.closeMethod fun (later, _) => table.Holds later.symbols := by
  obtain ⟨id, bodies, methods⟩ := holds_iff.mp holds
  rw [closeMethod]
  split
  · exact holds
  · rename_i method rest open_eq
    rw [open_eq] at methods
    obtain ⟨first, others⟩ := forall_mem_cons.mp methods
    rw [ends_bind]
    refine (MethodDraft.ends_finish first).imp fun (body, _) inBody => holds_iff.mpr ⟨id, ?_, others⟩
    simpa [or_imp, forall_and, inBody] using bodies

theorem ends_closeMethods :
    Ends draft.closeMethods fun (later, _) => table.Holds later.symbols := by
  obtain ⟨id, bodies, methods⟩ := holds_iff.mp holds
  rw [closeMethods, ends_bind]
  refine (ends_finishAll methods).imp fun (finished, _) inFinished => holds_iff.mpr ⟨id, ?_, ?_⟩
  · exact forall_mem_append.mpr ⟨bodies, inFinished⟩
  · exact forall_mem_nil _

omit holds in
theorem ensures_resolveBase (sound : table.Sound) {id : TypeId} (inRange : id < table.types.length)
    (namespaces : List String) (name : Option String) :
    Ensures (resolveBase id namespaces table name) fun (later, _) => table.Evolves later := by
  cases name with
  | none => exact sound.refl
  | some name =>
    rw [resolveBase]
    split
    · exact sound.refl
    · rename_i base found
      have known := sound.resolveType_inRange found
      rw [ensures_bind]
      refine (ensures_get known).imp fun definition _ => ?_
      split
      · exact sound.refl
      · rw [ensures_bind]
        refine (sound.ensures_update inRange fun type here => ?_).imp fun later post => post.1
        have ids := sound.definition here
        simp only [TypeDef.typeIds, hasTypes_append] at ids ⊢
        exact ⟨⟨le_rfl, le_rfl, le_rfl⟩,
          ⟨⟨⟨by simpa using known, ids.1.1.1.2⟩, ids.1.1.2⟩, ids.1.2⟩, ids.2⟩

omit holds in
theorem ensures_resolveInterfaces (sound : table.Sound) {id : TypeId}
    (inRange : id < table.types.length) (namespaces names : List String) :
    Ensures (resolveInterfaces id namespaces table names) fun (later, _) => table.Evolves later := by
  induction names generalizing table with
  | nil => exact sound.refl
  | cons name names ih =>
    rw [resolveInterfaces]
    split
    · rw [ensures_bind]
      exact (ih sound inRange).imp fun _ here => here
    · rename_i interface found
      have known := sound.resolveType_inRange found
      rw [ensures_bind]
      refine (ensures_get known).imp fun definition _ => ?_
      split
      · rw [ensures_bind]
        refine (sound.ensures_update inRange fun type here => ?_).imp fun later ⟨evolves, _⟩ => ?_
        · have ids := sound.definition here
          rw [addInterface]
          split
          · exact ⟨⟨le_rfl, le_rfl, le_rfl⟩, ids⟩
          · simp only [TypeDef.typeIds, hasTypes_append] at ids ⊢
            exact ⟨⟨le_rfl, le_rfl, le_rfl⟩,
              ⟨⟨⟨ids.1.1.1.1, ids.1.1.1.2, by simpa using known⟩, ids.1.1.2⟩, ids.1.2⟩, ids.2⟩
        · exact (ih evolves.sound (evolves.grows (.type id) inRange)).imp fun _ here => evolves.trans here
      · rw [ensures_bind]
        exact (ih sound inRange).imp fun _ here => here

/-- Closing a type finishes its methods and gives the names of its supertypes their meanings. -/
theorem ends_close (sound : table.Sound) (namespaces : List String) :
    Ends (draft.close table namespaces) fun (closed, later, _) =>
      table.Evolves later ∧ later.Holds closed.symbols := by
  rw [close]
  split
  · exact ⟨sound.refl, holds⟩
  · have inRange := id_inRange holds
    rw [ends_bind]
    refine (ends_closeMethods holds).imp fun (closed, _) known => ?_
    rw [ends_bind]
    refine (ensures_resolveBase sound inRange namespaces _).ends.imp fun (based, _) first => ?_
    rw [ends_bind]
    have still := first.grows (.type draft.id) inRange
    refine (ensures_resolveInterfaces first.sound still namespaces _).ends.imp
      fun (later, _) second => ?_
    have evolves := first.trans second
    exact ⟨evolves, known.grow evolves.grows⟩

end TypeDraft

end OnePass
