import OnePass.Proofs.Integrity.Action

/-! # Expressions are compiled safely

Every action on the tokens of an expression is safe in a sound state. -/

namespace OnePass

open MethodDraft
open MethodDraft (holds_negate holds_apply ensures_loadReceiver holds_loadVar
  ensures_loadField holds_step ensures_storeVar holds_cut ensures_call)

open SymbolTable (holds_flatMap holds_nil holds_cons)

/-! ## Frames -/

namespace Frame

variable {table : SymbolTable} {frame : Frame}

theorem holds_iff : table.Holds frame.symbols ↔
    table.Holds frame.kind.symbols ∧ table.Holds (typeSymbols frame.operand) ∧
      (∀ plan ∈ frame.pendingOp, table.Holds plan.symbols) ∧
        table.Holds (frame.args.flatMap typeSymbols) := by
  simp only [symbols, SymbolTable.holds_append, holds_flatMap, Option.mem_toList, Option.mem_def,
    and_assoc]

theorem holds_fresh : table.Holds fresh.symbols := by simp [fresh, symbols, FrameKind.symbols,
      typeSymbols]

variable (holds : table.Holds frame.symbols)

include holds

theorem holds_resetOperand : table.Holds frame.resetOperand.symbols := by
  obtain ⟨kind, -, -, args⟩ := holds_iff.mp holds
  exact holds_iff.mpr ⟨kind, holds_nil, by simp [resetOperand], args⟩

theorem holds_failOperand : table.Holds frame.failOperand.symbols := by
  have reset := holds_resetOperand holds
  exact reset

theorem holds_finishArg : table.Holds frame.finishArg.symbols := by
  rw [finishArg]
  split
  · obtain ⟨kind, operand, -, args⟩ := holds_iff.mp holds
    refine holds_iff.mpr ⟨kind, holds_nil, by simp [resetOperand], ?_⟩
    simpa using ⟨SymbolTable.holds_flatMap.mp args, operand⟩
  · exact holds_resetOperand holds

theorem holds_args : table.Holds (frame.args.flatMap typeSymbols) := (holds_iff.mp holds).2.2.2

theorem holds_withOperand {type : Option TypeId} (known : table.Holds (typeSymbols type))
    (depth : Nat) : table.Holds ({ frame with depth := depth, operand := type } : Frame).symbols := by
  obtain ⟨kind, -, plan, args⟩ := holds_iff.mp holds
  exact holds_iff.mpr ⟨kind, known, plan, args⟩

theorem holds_withOp {plan : OperatorPlan} (known : table.Holds plan.symbols) :
    table.Holds ({ frame with pendingOp := some plan } : Frame).symbols := by
  obtain ⟨kind, operand, -, args⟩ := holds_iff.mp holds
  exact holds_iff.mpr ⟨kind, operand, by simpa using known, args⟩

end Frame

namespace Compile

variable {c : Compiler} {table : SymbolTable} {method : MethodDraft} {type : Option TypeId}
  {ref : MemberRef}

/-! ## Operands -/

theorem safe_takePending (sound : c.Sound) :
    takePending.Safe c fun (_, _, plan) => plan.toList.flatMap (·.symbols) := by
  have plan := (Frame.holds_iff.mp sound.frame).2.2.1
  rw [takePending, safe_get_bind]
  have taken : c.Evolves
      (c.modifyFrame ({ · with pendingNeg := false, pendingNot := false, pendingOp := none })) := by
    refine sound.modifyFrame fun frame holds => ?_
    obtain ⟨kind, operand, -, args⟩ := Frame.holds_iff.mp holds
    exact Frame.holds_iff.mpr ⟨kind, operand, by simp, args⟩
  refine safe_modify_bind taken (safe_pure taken.sound (SymbolTable.Holds.grow ?_ taken.grows))
  simpa using plan

theorem holds_applyPending (sound : table.Sound)
    (holds : table.Holds method.symbols) {plan : Option OperatorPlan}
    (inPlan : ∀ operator ∈ plan, table.Holds operator.symbols)
    (known : table.Holds (typeSymbols type)) (neg not : Bool) :
    table.Holds (typeSymbols (applyPending neg not plan type table method).1) ∧
      table.Holds (applyPending neg not plan type table method).2.symbols := by
  have boolean : table.Holds (typeSymbols (some table.wellKnown.boolean)) := by
    simpa [typeSymbols] using sound.boolean_inRange
  have negated : table.Holds (if neg then method.emit .neg else method).symbols := by
    split
    · exact holds_emit.mpr ⟨holds, holds_nil⟩
    · exact holds
  cases plan with
  | none =>
    cases not with
    | false => exact ⟨known, negated⟩
    | true => exact ⟨boolean, holds_negate negated⟩
  | some plan =>
    have inside := inPlan plan rfl
    have result : table.Holds (typeSymbols plan.result) := by
      rw [OperatorPlan.symbols, SymbolTable.holds_append] at inside
      exact inside.2
    cases not with
    | false => exact ⟨result, holds_apply negated inside⟩
    | true => exact ⟨result, holds_apply (holds_negate negated) inside⟩

theorem safe_pushOperand (sound : c.Sound) (known : c.session.table.Holds (typeSymbols type)) :
    (pushOperand type).Safe c := by
  rw [pushOperand]
  refine (safe_takePending sound).bind fun (neg, not, plan) later evolves inPlan => ?_
  -- The type is noted at the end of every branch.
  have noted {state : Compiler} (here : state.Sound) {result : Option TypeId}
      (inResult : state.session.table.Holds (typeSymbols result)) :
      (do
        let result ← pure result
        modify (·.modifyFrame fun frame =>
          { frame with
            depth := if plan.isNone || frame.depth == 0 then frame.depth + 1 else frame.depth
            operand := result }) : Compile Unit).Safe state :=
    safe_pure_bind.mpr
      (safe_modify (here.modifyFrame fun _ holds => Frame.holds_withOperand holds inResult _))
  have inType := known.grow evolves.grows
  dsimp only
  split
  · have inPlan : ∀ operator ∈ plan, later.session.table.Holds
      operator.symbols := by simpa using inPlan
    refine (safe_emitting typeSymbols evolves.sound fun method holds => ?_).bind
      fun emitted last toLast inEmitted => ?_
    · exact holds_applyPending evolves.sound.session.table holds inPlan inType neg not
    · cases emitted with
      | done result => exact noted toLast.sound inEmitted
      | refused | outside => exact noted toLast.sound holds_nil
  · exact noted evolves.sound inType

theorem safe_failOperand (sound : c.Sound) : failOperand.Safe c :=
  safe_modify (sound.modifyFrame fun _ holds => Frame.holds_failOperand holds)

theorem clearName (sound : c.Sound) : c.Evolves c.clearName :=
  ⟨{ sound with named := fun _ => rfl }, .refl _, .refl _⟩

theorem safe_takeName (sound : c.Sound) : takeName.Safe c := by
  rw [takeName, safe_get_bind]
  have cleared := clearName sound
  exact safe_modify_bind cleared (safe_pure cleared.sound holds_nil)

theorem safe_resolveHere (sound : c.Sound) (segments : List String) :
    (resolveHere segments).Safe c Reference.symbols := by
  rw [resolveHere, safe_get_bind]
  exact safe_lift sound (sound.session.ensures_resolveReference segments c.usings)

theorem safe_flushReference (sound : c.Sound) : flushReference.Safe c := by
  rw [flushReference, safe_get_bind]
  split
  · exact safe_return sound
  refine (safe_takeName sound).bind fun segments named toNamed _ => ?_
  rw [safe_get_bind]
  -- Inside an array literal outside of methods there is nowhere to load it to.
  split
  · exact safe_return toNamed.sound
  refine (safe_resolveHere toNamed.sound segments).bind fun reference here toHere inReference => ?_
  refine (safe_emitting (fun type => [.type type]) toHere.sound fun method holds => ?_).bind
    fun emitted last toLast inEmitted => ?_
  · exact (ensures_loadReference holds toHere.sound.session.table inReference).imp
      fun _ post => by simpa using post
  · cases emitted with
    | done type => exact safe_pushOperand toLast.sound inEmitted
    | refused | outside => exact safe_failOperand toLast.sound

theorem safe_value (sound : c.Sound) (literal : Literal) : (value literal).Safe c := by
  rw [value]
  refine (safe_flushReference sound).bind fun _ flushed toFlushed _ => ?_
  rw [safe_get_bind]
  split
  · exact safe_return toFlushed.sound
  refine (safe_emitting (fun type => [.type type]) toFlushed.sound fun method holds => ?_).bind
    fun emitted last toLast inEmitted => ?_
  · have loaded := holds_loadConstant holds toFlushed.sound.session.table literal
    simpa using loaded
  · cases emitted with
    | done type => exact safe_pushOperand toLast.sound inEmitted
    | refused | outside => exact safe_return toLast.sound

/-! ## Operators -/

theorem safe_binary (sound : c.Sound) (op : Operator) : (binary op).Safe c := by
  rw [binary]
  refine (safe_flushReference sound).bind fun _ flushed toFlushed _ => ?_
  have here := toFlushed.sound
  rw [safe_get_bind]
  dsimp only
  split
  · exact safe_report here _
  split
  · exact safe_report here _
  -- The plan depends on the left operand, whose type the frame holds.
  have operand := (Frame.holds_iff.mp here.frame).2.1
  refine safe_attempt_bind (here.session.table.ensures_planOperator operand op)
    (fun plan inPlan => ?_) (safe_return here)
  exact safe_modify (here.modifyFrame fun _ holds => Frame.holds_withOp holds inPlan)

/-- A result that was dropped becomes an operand again, of a type that the table still has. -/
theorem safe_retractDiscard (sound : c.Sound) {type : TypeId}
    (known : c.session.table.Has (.type type)) : (retractDiscard type).Safe c := by
  rw [retractDiscard, safe_get_bind]
  split
  · exact safe_return sound
  refine safe_lift_bind sound.session.ensures_currentMethod fun found holds => ?_
  cases found with
  | none => exact safe_return sound
  | some method =>
    dsimp only
    split
    · have inMethod := holds_dropLast (holds method rfl)
      refine safe_lift_bind (sound.session.ensures_setMethod inMethod) fun session ⟨toLater, _⟩ => ?_
      have changed := sound.withSession toLater
      refine safe_modify_bind changed (safe_modify (changed.sound.modifyBase fun frame inFrame => ?_))
      exact Frame.holds_withOperand inFrame (by simpa [typeSymbols] using changed.grows _ known) _
    · exact safe_return sound

/-- The target of an assignment is what the name under way means, or else the variable just
declared. -/
theorem safe_takeTarget (sound : c.Sound) :
    takeTarget.Safe c fun target => target.toList.flatMap (·.symbols) := by
  rw [takeTarget, safe_get_bind]
  split
  · have forgotten : c.Evolves { c with lastDeclared := none } :=
      ⟨{ sound with lastDeclared := by simp }, .refl _, .refl _⟩
    have inTarget : c.session.table.Holds (c.lastDeclared.toList.flatMap (·.symbols)) := by
      simpa using sound.lastDeclared
    refine safe_modify_bind forgotten ?_
    split
    · rw [safe_report_bind]
      exact safe_pure forgotten.sound inTarget
    · exact safe_pure forgotten.sound inTarget
  refine (safe_takeName sound).bind fun segments named toNamed _ => ?_
  refine (safe_resolveHere toNamed.sound segments).bind fun reference here toHere inReference => ?_
  cases reference with
  | var var => exact safe_pure toHere.sound (by simpa [AssignTarget.symbols, Reference.symbols] using inReference)
  | field receiver ref =>
    simp only [Reference.symbols, SymbolTable.holds_append, holds_flatMap,
      holds_cons] at inReference
    obtain ⟨inReceiver, has, -⟩ := inReference
    cases receiver with
    | none => exact safe_pure toHere.sound (by simpa [AssignTarget.symbols] using has)
    -- The receiver is loaded now; the field stays the target whether or not that was possible.
    | some receiver =>
      have known := inReceiver receiver (by simp)
      refine (safe_emitting (fun type => [.type type]) toHere.sound fun method holds => ?_).bind
        fun emitted last toLast _ => ?_
      · rw [ensures_lift_fault]
        exact (ensures_loadReceiver holds toHere.sound.session.table known).imp
          fun _ post => by simpa using post
      · exact safe_pure toLast.sound (by simpa [AssignTarget.symbols] using toLast.grows _ has)
  | constant value =>
    rw [safe_report_bind]
    exact safe_pure toHere.sound holds_nil
  | missing name =>
    rw [safe_report_bind]
    exact safe_pure toHere.sound holds_nil

theorem ensures_loadTarget (sound : table.Sound) {target : AssignTarget}
    (known : table.Holds target.symbols) (holds : table.Holds method.symbols) :
    Ensures (loadTarget target table method) fun (type, later) =>
      type < table.types.length ∧ table.Holds later.symbols := by
  cases target with
  | var var =>
    exact ⟨by simpa [AssignTarget.symbols, LocalVar.symbols] using known, holds_loadVar holds var⟩
  | field ref =>
    have has : table.Has (.field ref) := by simpa [AssignTarget.symbols] using known
    rw [loadTarget, ensures_fault_bind]
    refine (sound.ensures_field has).imp fun field _ => ?_
    dsimp only
    rw [ensures_lift_fault]
    split
    · exact ensures_loadField holds sound has
    · exact ensures_loadField
        (holds_emit.mpr ⟨holds, holds_nil⟩) sound has

theorem assign (sound : c.Sound) {target : Option AssignTarget}
    (known : c.session.table.Holds (target.toList.flatMap (·.symbols))) :
    c.Evolves { c with consume := .assign target } :=
  ⟨{ sound with consume := known }, .refl _, .refl _⟩

/-- The target is loaded and the operator waits. In every case the target is kept for the store. -/
theorem safe_compoundAssign (sound : c.Sound) (op : Operator) : (compoundAssign op).Safe c := by
  rw [compoundAssign]
  refine (safe_takeTarget sound).bind fun target taken toTaken inTarget => ?_
  have here := toTaken.sound
  cases target with
  | none => exact safe_pure_bind.mpr (safe_modify (assign here inTarget))
  | some target =>
    have known : taken.session.table.Holds target.symbols := by simpa using inTarget
    refine (safe_emitting (fun type => [.type type]) here fun method holds => ?_).bind
      fun emitted loaded toLoaded inEmitted => ?_
    · exact (ensures_loadTarget here.session.table known holds).imp fun _ post => by simpa using post
    have inTarget := inTarget.grow toLoaded.grows
    cases emitted with
    | refused | outside => exact safe_pure_bind.mpr (safe_modify (assign toLoaded.sound inTarget))
    | done type =>
      have inType : loaded.session.table.Holds (typeSymbols (some type)) := inEmitted
      have noted : loaded.Evolves
          (loaded.modifyBase fun base => { base with depth := base.depth + 1, operand := some type }) :=
        toLoaded.sound.modifyBase fun _ holds => Frame.holds_withOperand holds inType _
      refine safe_modify_bind noted ?_
      rw [safe_get_bind]
      refine safe_attempt_bind (toLoaded.sound.session.table.ensures_planOperator inType op)
        (fun plan inPlan => ?_) ?_
      · have planned := noted.sound.modifyBase fun _ holds => Frame.holds_withOp holds inPlan
        exact safe_modify_bind planned (safe_modify (assign planned.sound inTarget))
      · exact safe_pure_bind.mpr (safe_modify (assign noted.sound inTarget))

theorem ensures_stepLoaded (sound : table.Sound) (has : table.Has (.field ref))
    {loaded : MethodDraft} (inLoaded : table.Holds loaded.symbols) (op : Operator) :
    Ensures (do
      let (_, method) ← loaded.loadField table ref
      let method ← (method.step op).storeField table ref
      return ((), method) : Except Failure (Unit × MethodDraft)) fun (_, later) =>
        table.Holds later.symbols := by
  rw [ensures_fault_bind]
  refine (ensures_loadField inLoaded sound has).imp fun (_, field) post => ?_
  rw [ensures_fault_bind]
  exact (ensures_storeField (holds_step post.2 op) sound has).imp fun _ here => here

theorem ensures_stepField (sound : table.Sound) {receiver : Option Receiver}
    (known : ∀ object ∈ receiver, table.Holds object.symbols) (has : table.Has (.field ref))
    (holds : table.Holds method.symbols) (op : Operator) :
    Ensures (stepField op receiver ref table method) fun (_, later) => table.Holds later.symbols := by
  unfold stepField
  cases receiver with
  | none => exact ensures_stepLoaded sound has holds op
  | some receiver =>
    dsimp only
    rw [ensures_fault_bind]
    refine (ensures_loadReceiver holds sound (known receiver rfl)).imp ?_
    rintro ⟨_, loaded⟩ post
    exact ensures_stepLoaded sound has (holds_emit.mpr ⟨post.2, holds_nil⟩) op

theorem safe_stepName (sound : c.Sound) (op : Operator) (segments : List String) :
    (stepName op segments).Safe c := by
  rw [stepName]
  refine (safe_resolveHere sound segments).bind fun reference here toHere inReference => ?_
  cases reference with
  | var var =>
    refine (safe_emitting (fun _ => []) toHere.sound fun method holds => ?_).bind
      fun emitted stepped toStepped _ => ?_
    · exact ⟨holds_nil, holds_step (holds_loadVar holds var) op⟩
    cases emitted with
    | refused | outside => exact safe_return toStepped.sound
    | done _ =>
      refine (safe_emitting (fun _ => []) toStepped.sound fun method holds => ?_).bind
        fun _ last toLast _ => safe_return toLast.sound
      rw [ensures_bind]
      exact (ensures_storeVar holds var).imp fun _ stored => ⟨holds_nil, stored⟩
  | field receiver ref =>
    simp only [Reference.symbols, SymbolTable.holds_append, holds_flatMap, holds_cons,
      Option.mem_toList] at inReference
    obtain ⟨inReceiver, has, -⟩ := inReference
    refine (safe_emitting (fun _ => []) toHere.sound fun method holds => ?_).bind
      fun _ last toLast _ => safe_return toLast.sound
    exact (ensures_stepField toHere.sound.session.table inReceiver has holds op).imp
      fun _ stepped => ⟨holds_nil, stepped⟩
  | constant value => exact safe_report toHere.sound _
  | missing name => exact safe_report toHere.sound _

theorem safe_stepValue (sound : c.Sound) (op : Operator) : (stepValue op).Safe c := by
  rw [stepValue, safe_get_bind]
  split
  · split
    · exact safe_emit sound fun _ holds => holds_step holds op
    · exact safe_report sound _
  · exact (safe_takeName sound).bind fun segments named toNamed _ =>
      safe_stepName toNamed.sound op segments

theorem safe_operator_none (sound : c.Sound) (op : Operator) : (operator op none).Safe c := by
  unfold operator
  dsimp only
  split
  · refine (safe_takeTarget sound).bind fun target taken toTaken inTarget => ?_
    exact safe_modify (assign toTaken.sound inTarget)
  · exact safe_stepValue sound _
  · exact safe_stepValue sound _
  · refine (safe_flushReference sound).bind fun _ flushed toFlushed _ => ?_
    exact safe_modify (toFlushed.sound.modifyFrame fun _ holds => holds)
  · rw [safe_get_bind]
    split
    · exact safe_modify (sound.modifyFrame fun _ holds => holds)
    · split
      · exact safe_compoundAssign sound _
      · exact safe_binary sound op

theorem safe_operator (sound : c.Sound) (op : Operator) {retract : Option TypeId}
    (known : c.session.table.Holds (typeSymbols retract)) : (operator op retract).Safe c := by
  cases retract with
  | none => exact safe_operator_none sound op
  | some type =>
    have first : operator op (some type) = retractDiscard type >>= fun _ => operator op none := rfl
    rw [first]
    refine (safe_retractDiscard sound (by simpa [typeSymbols] using known)).bind
      fun _ later evolves _ => ?_
    exact safe_operator_none evolves.sound op

/-! ## Ends of expressions -/

theorem safe_stored (sound : c.Sound) (emitted : Emitted Unit) :
    (match emitted with
      | .done () => modify (·.modifyBase fun base => { base with depth := base.depth - 1 })
      | .refused | .outside => return : Compile Unit).Safe c := by
  cases emitted with
  | done _ => exact safe_modify (sound.modifyBase fun _ holds => holds)
  | refused | outside => exact safe_return sound

theorem safe_store (sound : c.Sound) {target : Option AssignTarget}
    (known : c.session.table.Holds (target.toList.flatMap (·.symbols))) : (store target).Safe c := by
  rw [store, safe_get_bind]
  dsimp only
  split
  · exact safe_return sound
  split
  · split
    · rw [safe_report_bind]
      exact safe_return sound
    · exact safe_return sound
  split
  · exact safe_return sound
  cases target with
  | none => exact safe_pure_bind.mpr (safe_stored sound .refused)
  | some target =>
    have inTarget : c.session.table.Holds target.symbols := by simpa using known
    cases target with
    | var var =>
      refine (safe_emitting (fun _ => []) sound fun method holds => ?_).bind
        fun emitted later evolves _ => safe_stored evolves.sound emitted
      rw [ensures_bind]
      exact (ensures_storeVar holds var).imp fun _ here => ⟨holds_nil, here⟩
    | field ref =>
      refine (safe_emitting (fun _ => []) sound fun method holds => ?_).bind
        fun emitted later evolves _ => safe_stored evolves.sound emitted
      have has : c.session.table.Has (.field ref) := by simpa [AssignTarget.symbols] using inTarget
      rw [ensures_fault_bind]
      exact (ensures_storeField holds sound.session.table has).imp
        fun _ here => ⟨holds_nil, here⟩

/-- A value that was to be stored or returned is so. What waited is forgotten first. -/
theorem safe_finishConsume (sound : c.Sound) : finishConsume.Safe c := by
  rw [finishConsume]
  refine (safe_flushReference sound).bind fun _ flushed toFlushed _ => ?_
  have inConsume := toFlushed.sound.consume
  rw [safe_get_bind]
  have taken : flushed.Evolves { flushed with consume := .normal } :=
    ⟨{ toFlushed.sound with consume := holds_nil }, .refl _, .refl _⟩
  refine safe_modify_bind taken ?_
  split
  · exact safe_return taken.sound
  · rename_i target consume
    rw [consume] at inConsume
    exact safe_store taken.sound inConsume
  · refine (safe_emit taken.sound fun _ holds => ?_).bind fun _ later evolves _ => ?_
    · exact holds_emit.mpr ⟨holds, holds_nil⟩
    · exact safe_modify (evolves.sound.modifyBase fun _ holds => Frame.holds_resetOperand holds)

/-- The rest of an expression is dropped. The proof goes through its parts from the last to the
first. -/
theorem safe_endExpression (sound : c.Sound) : endExpression.Safe c := by
  have forgets {later : Compiler} (here : later.Sound) :
      (modify ({ · with lastDeclared := none })).Safe later :=
    safe_modify ⟨{ here with lastDeclared := by simp }, .refl _, .refl _⟩
  have ends {later : Compiler} (here : later.Sound) : forgetWaiting.Safe later := by
    rw [forgetWaiting, safe_get_bind]
    dsimp only
    split
    · have cleared : later.Evolves { later with pendingNew := false } := ⟨{ here with }, .refl _, .refl _⟩
      refine safe_modify_bind cleared ?_
      rw [safe_report_bind]
      exact forgets cleared.sound
    · exact forgets here
  have drops {later : Compiler} (here : later.Sound) (count : Nat) :
      (dropValues count >>= fun _ => forgetWaiting).Safe later := by
    have drops : (dropValues count).Safe later := by
      rw [dropValues]
      split
      · refine safe_emit here fun _ holds => holds_append.mpr ⟨holds, ?_⟩
        simp [codeSymbols, Operand.symbols]
      · exact safe_return here
    exact drops.bind fun _ last evolves _ => ends evolves.sound
  rw [endExpression]
  refine (safe_flushReference sound).bind fun _ flushed toFlushed _ => ?_
  rw [safe_get_bind]
  have fresh : flushed.Evolves { flushed with base := .fresh } :=
    ⟨{ toFlushed.sound with base := Frame.holds_fresh }, .refl _, .refl _⟩
  refine safe_modify_bind fresh ?_
  dsimp only
  split
  · rw [safe_report_bind]
    exact drops fresh.sound _
  · exact drops fresh.sound _

/-! ## Calls and groups -/

theorem safe_openStatement (sound : c.Sound) : openStatement.Safe c := by
  rw [openStatement]
  have opened := sound.withNesting { c.nesting with statements := c.nesting.statements + 1 }
  refine safe_modify_bind opened ?_
  rw [safe_get_bind]
  refine safe_modify_bind ⟨{ opened.sound with }, .refl _, .refl _⟩ ?_
  have here : ({ c with
      nesting := { c.nesting with statements := c.nesting.statements + 1 }, pendingNew := false } :
        Compiler).Sound := { sound with }
  dsimp only
  split
  · have inGroup : c.session.table.Holds FrameKind.group.symbols := holds_nil
    have grouped := here.pushFrame inGroup
    split
    · rw [safe_report_bind]
      exact safe_modify grouped
    · exact safe_modify grouped
  refine (safe_takeName here).bind fun segments named toNamed _ => ?_
  refine (safe_position toNamed.sound).bind fun start last toLast _ => ?_
  have grows := (toNamed.trans toLast).grows
  -- The name is resolved in the state before, so that what it means has to be carried over.
  split
  · refine safe_modify (toLast.sound.pushFrame (SymbolTable.Holds.grow ?_ grows))
    cases found : c.session.table.resolveType (dotted segments) c.usings with
    | none => exact holds_nil
    | some type =>
      simpa [FrameKind.symbols, typeSymbols] using sound.session.table.resolveType_inRange found
  · refine safe_lift_bind (sound.session.ensures_resolveCallSite segments c.usings)
      fun site inSite => ?_
    exact safe_modify (toLast.sound.pushFrame (inSite.grow grows))

theorem safe_abandonCall (sound : c.Sound) (start : Option Nat) : (abandonCall start).Safe c := by
  unfold abandonCall
  cases start with
  | none => exact safe_failOperand sound
  | some start =>
    dsimp only
    rw [safe_get_bind]
    refine safe_lift_bind sound.session.ensures_currentMethod fun found holds => ?_
    cases found with
    | none => exact safe_failOperand sound
    | some method =>
      have inMethod := holds_cut (holds method rfl) start
      refine safe_lift_bind (sound.session.ensures_setMethod inMethod) fun session ⟨toLater, _⟩ => ?_
      have changed := sound.withSession toLater
      exact safe_modify_bind changed (safe_failOperand changed.sound)

theorem ensures_callCode (sound : table.Sound) {receiver : Option Receiver}
    (known : ∀ object ∈ receiver, table.Holds object.symbols) (has : table.Has (.method ref))
    (holds : table.Holds method.symbols) (start : Option Nat) (discard : Bool) :
    Ensures (callCode receiver start ref discard table method) fun (type, later) =>
      table.Holds (typeSymbols type) ∧ table.Holds later.symbols := by
  unfold callCode
  cases receiver with
  | none =>
    dsimp only
    rw [ensures_bind, ensures_pure, ensures_lift_fault]
    exact ensures_call holds sound has discard
  | some receiver =>
    dsimp only
    have inCut := holds_cut holds (start.getD 0)
    rw [ensures_fault_bind]
    refine (ensures_loadReceiver inCut sound (known receiver rfl)).imp fun (_, loaded) post => ?_
    have inArgs := holds_append.mpr ⟨post.2, holds_tail holds (start.getD 0)⟩
    dsimp only
    rw [ensures_bind, ensures_pure, ensures_lift_fault]
    exact ensures_call inArgs sound has discard

theorem holds_receiver {site : CallSite} (holds : table.Holds site.symbols) :
    ∀ object ∈ site.receiver?, table.Holds object.symbols := by
  intro object here
  rw [CallSite.receiver?] at here
  split at here
  · rename_i receiver type target
    cases here
    rw [CallSite.symbols, target, CallTarget.symbols, SymbolTable.holds_append] at holds
    exact holds.1
  · cases here

theorem safe_emitCall (sound : c.Sound) {site : CallSite}
    (inSite : c.session.table.Holds site.symbols) (start : Option Nat) {args : List (Option TypeId)}
    (inArgs : c.session.table.Holds (args.flatMap typeSymbols)) :
    (emitCall site start args).Safe c := by
  have table := sound.session.table
  rw [emitCall, safe_get_bind]
  refine safe_attempt_bind (sound.session.ensures_resolveCallee inSite inArgs) (fun ref has => ?_)
    (safe_abandonCall sound start)
  dsimp only
  refine safe_lift_bind (table.ensures_method has) fun method ids => ?_
  have result := (SymbolTable.hasTypes_cons.mp ids).1
  refine safe_lift_bind (SymbolTable.ensures_isVoid result) fun isVoid _ => ?_
  have known : ∀ object ∈ if method.isStatic then none else site.receiver?,
      c.session.table.Holds (Receiver.symbols object) := by
    split
    · simp
    · exact holds_receiver inSite
  refine (safe_emitting typeSymbols sound fun draft holds => ensures_callCode table known has holds
    start _).bind fun emitted called toCalled inEmitted => ?_
  have here := toCalled.sound
  cases emitted with
  | done type? =>
    cases type? with
    | some type => exact safe_pushOperand here inEmitted
    | none =>
      dsimp only
      split
      -- The result was dropped; its type is kept for an operator that takes it back.
      · refine safe_modify ⟨{ here with retractable := ?_ }, .refl _, .refl _⟩
        simpa [typeSymbols] using toCalled.grows (.type _) result
      · exact safe_return here
  | refused => exact safe_abandonCall here start
  | outside => exact safe_return here

theorem safe_emitConstruct (sound : c.Sound) (known : c.session.table.Holds (typeSymbols type))
    (name : String) (start : Option Nat) {args : List (Option TypeId)}
    (inArgs : c.session.table.Holds (args.flatMap typeSymbols)) :
    (emitConstruct type name start args).Safe c := by
  unfold emitConstruct
  cases type with
  | none =>
    dsimp only
    rw [safe_report_bind]
    exact safe_abandonCall sound start
  | some type =>
    have inRange : type < c.session.table.types.length := by simpa [typeSymbols] using known
    refine (safe_emitting (fun type => [.type type]) sound fun method holds => ?_).bind
      fun emitted last toLast inEmitted => ?_
    · exact (ensures_constructFrom holds sound.session.table inRange inArgs).imp
        fun _ post => by simpa using post
    · cases emitted with
      | done result => exact safe_pushOperand toLast.sound inEmitted
      | refused => exact safe_abandonCall toLast.sound start
      | outside => exact safe_return toLast.sound

theorem safe_finishGroup (sound : c.Sound) {frame : Frame}
    (holds : c.session.table.Holds frame.symbols) : (finishGroup frame).Safe c := by
  have valued : (if frame.depth > 0 then pushOperand frame.operand
      else if frame.failed then failOperand else pure () : Compile Unit).Safe c := by
    split
    · exact safe_pushOperand sound (Frame.holds_iff.mp holds).2.1
    · split
      · exact safe_failOperand sound
      · exact safe_return sound
  rw [finishGroup]
  dsimp only
  split
  · rw [safe_report_bind]
    exact valued
  · exact valued

theorem safe_closeStatement (sound : c.Sound) : closeStatement.Safe c := by
  rw [closeStatement, safe_get_bind]
  split
  · exact safe_report sound _
  split
  · exact safe_report sound _
  have closed := sound.withNesting { c.nesting with statements := c.nesting.statements - 1 }
  refine safe_modify_bind closed ?_
  refine (safe_flushReference closed.sound).bind fun _ flushed toFlushed _ => ?_
  have here := toFlushed.sound
  rw [safe_get_bind]
  split
  · exact safe_return here
  · rename_i frame rest frames
    have inFrame := (here.frames_cons frames).1
    have popped := here.popFrame frames
    refine safe_modify_bind popped ?_
    have inArgs := Frame.holds_args (Frame.holds_finishArg inFrame)
    have inKind := (Frame.holds_iff.mp inFrame).1
    split
    · exact safe_finishGroup popped.sound inFrame
    · exact safe_finishGroup popped.sound inFrame
    · exact safe_finishGroup popped.sound inFrame
    · rename_i kind
      rw [kind] at inKind
      exact safe_emitCall popped.sound inKind _ inArgs
    · rename_i kind
      rw [kind] at inKind
      exact safe_emitConstruct popped.sound inKind _ _ inArgs

/-! ## Array literals -/

theorem holds_finishElementAt {frame : Frame} (holds : table.Holds frame.symbols)
    (position : Nat) : table.Holds (finishElementAt position frame).symbols := by
  rw [finishElementAt]
  split
  · rename_i start elementStart elements kind
    obtain ⟨inKind, operand, -, args⟩ := Frame.holds_iff.mp holds
    rw [kind, FrameKind.symbols] at inKind
    refine Frame.holds_iff.mpr ⟨?_, holds_nil, by simp [Frame.resetOperand], args⟩
    dsimp only [FrameKind.symbols]
    split
    · rw [List.flatMap_append, SymbolTable.holds_append]
      exact ⟨inKind, by simpa using operand⟩
    · exact inKind
  · exact Frame.holds_resetOperand holds

theorem safe_finishElement (sound : c.Sound) : finishElement.Safe c := by
  rw [finishElement]
  refine (safe_position sound).bind fun position later evolves _ => ?_
  dsimp only
  refine safe_modify ?_
  split
  · exact evolves.sound.refl
  · rename_i frame rest frames
    obtain ⟨inFrame, others⟩ := evolves.sound.frames_cons frames
    have finished := holds_finishElementAt inFrame (position.getD 0)
    exact ⟨{ evolves.sound with frames := List.forall_mem_cons.mpr ⟨finished, others⟩ },
      .refl _, .refl _⟩

theorem safe_separate (sound : c.Sound) : separate.Safe c := by
  rw [separate, safe_get_bind]
  dsimp only
  split
  · refine (safe_flushReference sound).bind fun _ flushed toFlushed _ => ?_
    exact safe_modify (toFlushed.sound.modifyFrame fun _ holds => Frame.holds_finishArg holds)
  · refine (safe_flushReference sound).bind fun _ flushed toFlushed _ => ?_
    exact safe_modify (toFlushed.sound.modifyFrame fun _ holds => Frame.holds_finishArg holds)
  · exact (safe_flushReference sound).bind fun _ flushed toFlushed _ =>
      safe_finishElement toFlushed.sound
  · exact safe_modify (clearName sound)

theorem safe_openSequence (sound : c.Sound) : openSequence.Safe c := by
  have opens {later : Compiler} (here : later.Sound) (start : Option Nat) :
      (modify (·.pushFrame (.sequence start (start.getD 0) []))).Safe later :=
    safe_modify (here.pushFrame holds_nil)
  rw [openSequence]
  have counted := sound.withNesting { c.nesting with sequences := c.nesting.sequences + 1 }
  refine safe_modify_bind counted ?_
  refine (safe_flushReference counted.sound).bind fun _ flushed toFlushed _ => ?_
  rw [safe_get_bind]
  dsimp only
  split
  · exact safe_pure_bind.mpr (opens toFlushed.sound none)
  · exact (safe_position toFlushed.sound).bind fun start later evolves _ => opens evolves.sound start

theorem safe_closeSequence (sound : c.Sound) : closeSequence.Safe c := by
  rw [closeSequence, safe_get_bind]
  split
  · exact safe_report sound _
  split
  · exact safe_report sound _
  have closed := sound.withNesting { c.nesting with sequences := c.nesting.sequences - 1 }
  refine safe_modify_bind closed ?_
  refine (safe_flushReference closed.sound).bind fun _ flushed toFlushed _ => ?_
  refine (safe_finishElement toFlushed.sound).bind fun _ finished toFinished _ => ?_
  have here := toFinished.sound
  rw [safe_get_bind]
  split
  · exact safe_return here
  · rename_i frame rest frames
    have inKind := (Frame.holds_iff.mp (here.frames_cons frames).1).1
    have popped := here.popFrame frames
    refine safe_modify_bind popped ?_
    split
    · rename_i start elementStart elements kind
      rw [kind, FrameKind.symbols] at inKind
      refine (safe_emitting (fun type => [.type type]) popped.sound fun method holds => ?_).bind
        fun emitted last toLast inEmitted => ?_
      · have lowered := holds_lowerSequence holds popped.sound.session.table start inKind
        simpa using lowered
      · cases emitted with
        | done type => exact safe_pushOperand toLast.sound inEmitted
        | refused | outside => exact safe_return toLast.sound
    · exact safe_return popped.sound

end Compile

end OnePass
