import OnePass.Proofs.Layout.Action

/-! # Expressions keep the code that stands

Everything that is read inside of an expression edits the current method behind the code that
stands: operands and operators are appended, a result that was dropped is taken back, and what a
bracket turns its code into begins where the bracket did. -/

namespace OnePass

open Compiler MethodDraft

namespace Compile

variable {g : Guard} {c : Compiler} {target : Option AssignTarget}

/-! ## Operands -/

/-- The operators that wait are taken, and are those of a plan for an operator. -/
theorem does_takePending (guarded : c.Guarded g) : takePending.Does c fun pending later =>
    c.Works g later ∧ (g.checked → ∀ plan ∈ pending.2.2, plan.Plain) := by
  rw [takePending]
  refine does_get_bind (does_modify_bind (does_pure ⟨?_, fun isChecked plan held => ?_⟩))
  · exact works_modifyFrame guarded (fun _ => rfl) fun _ _ _ held => by cases held
  · refine guarded.plain isChecked c.frame ?_ plan held
    rw [Compiler.frame]
    cases frames : c.frames with
    | nil => exact List.mem_cons_self
    | cons frame rest => simp

theorem keeps_pushOperand (type : Option TypeId) : (pushOperand type).Keeps g := by
  intro c guarded
  rw [pushOperand]
  refine (does_takePending guarded).bind ?_
  rintro ⟨neg, not, plan⟩ taken ⟨toTaken, plain⟩
  have noted (result : Option TypeId) : (do
      let result ← pure result
      modify (·.modifyFrame fun frame =>
        { frame with
          depth := if plan.isNone || frame.depth == 0 then frame.depth + 1 else frame.depth
          operand := result }) : Compile Unit).Keeps g :=
    (keeps_pure result).bind fun _ => keeps_modifyFrame (fun _ => rfl) fun _ _ held => held
  dsimp only
  split
  · have applies : (emitting fun table method =>
        .ok (applyPending neg not plan type table method)).Does taken fun _ later =>
            taken.Works g later :=
      works_emitting toTaken.guarded fun method _ sits => edits_applyPending sits.le neg not plain type _
    refine applies.bind fun emitted later toLater => ?_
    cases emitted with
    | done result => exact (noted result).does (toTaken.trans toLater)
    | refused | outside => exact (noted none).does (toTaken.trans toLater)
  · exact (noted type).does toTaken

theorem keeps_failOperand : failOperand.Keeps g :=
  keeps_modifyFrame (fun _ => rfl) fun _ _ held => nomatch held

theorem keeps_takeName : takeName.Keeps g :=
  keeps_get_bind fun _ => Keeps.bind (keeps_modify fun _ => ⟨rfl, rfl⟩) fun _ => keeps_pure _

theorem does_resolveHere (segments : List String) :
    (resolveHere segments).Does c fun reference later =>
    later = c ∧ c.session.Here (·.HasReference reference) := by
  rw [resolveHere]
  exact does_get_bind (does_lift ((c.session.means_resolveReference segments c.usings).imp
      fun _ means =>
    ⟨rfl, fun method current => (means method current).has⟩))

theorem keeps_flushReference : flushReference.Keeps g := by
  rw [flushReference]
  refine keeps_get_bind fun _ => ?_
  split
  · exact keeps_pure ()
  refine keeps_takeName.bind fun segments => keeps_get_bind fun _ => ?_
  split
  · exact keeps_pure ()
  intro c guarded
  refine (does_resolveHere segments).bind ?_
  rintro reference here ⟨rfl, has⟩
  have loads : (emitting fun table method => method.loadReference table reference).Does here
      fun _ later => here.Works g later :=
    works_emitting guarded fun method current sits =>
      edits_loadReference sits.le _ fun _ => has method current
  refine loads.bind fun emitted later toLater => ?_
  cases emitted with
  | done type => exact (keeps_pushOperand (some type)).does toLater
  | refused | outside => exact keeps_failOperand.does toLater

theorem keeps_value (literal : Literal) : (value literal).Keeps g := by
  rw [value]
  refine keeps_flushReference.bind fun _ => keeps_get_bind fun _ => ?_
  split
  · exact keeps_pure ()
  have loads : (emitting fun table method => .ok (method.loadConstant table literal)).Keeps g :=
    keeps_emitting fun table _ le => edits_loadConstant le table literal
  refine loads.bind fun emitted => ?_
  cases emitted with
  | done type => exact keeps_pushOperand (some type)
  | refused | outside => exact keeps_pure ()

/-! ## Operators -/

theorem keeps_binary (op : Operator) : (binary op).Keeps g := by
  rw [binary]
  refine keeps_flushReference.bind fun _ => keeps_get_bind fun _ => ?_
  dsimp only
  split
  · exact keeps_report rfl
  split
  · exact keeps_report rfl
  intro c guarded
  refine does_attempt_bind (SymbolTable.plain_planOperator _ _ op)
    (fun plan plain => does_modify ?_) (does_pure (.refl guarded))
  exact works_modifyFrame guarded (fun _ => rfl) fun _ _ _ held =>
    .inr (Option.some.inj held ▸ plain)

theorem does_setMethod_bind {method changed : MethodDraft} {next : Compile Unit}
    (guarded : c.Guarded g) (current : c.session.currentMethod? = .ok (some method))
    (edits : method.Edits g changed) (follows : next.Keeps g) :
    (do
      let session ← (c.session.setMethod changed : Except Fault Session)
      modify ({ · with session := session })
      next : Compile Unit).Does c fun _ later => c.Works g later :=
  does_lift_bind (works_setMethod guarded current edits) fun _ works =>
    does_modify_bind (follows.does works)

theorem does_retractDiscard (guarded : c.Guarded g) (beyond : Beyond g.keep c) (type : TypeId) :
    (retractDiscard type).Does c fun _ later => c.Works g later := by
  rw [retractDiscard]
  refine does_get_bind ?_
  split
  · exact does_pure (.refl guarded)
  refine does_lift_bind (gives_self _) fun found current => ?_
  cases found with
  | none => exact does_pure (.refl guarded)
  | some method =>
    dsimp only
    split
    · have edits : method.Edits g method.dropLast := edits_dropLast (beyond method current)
      refine does_setMethod_bind guarded current edits fun next guardedNext => ?_
      exact does_modify (works_modifyBase guardedNext fun _ _ held => .inl held)
    · exact does_pure (.refl guarded)

/-! ## Assignments -/

/-- The target is a variable of the current method, or a field. -/
def Aims (c : Compiler) (target : Option AssignTarget) : Prop :=
  ∀ held ∈ target, c.session.Here (·.HasTarget held)

theorem Aims.works {later : Compiler} (aims : Aims c target)
    (works : c.Works g later) : Aims later target := by
  intro held isTarget
  exact works.session.here (fun method changed edits has => has.mono edits.locals edits.arity)
    (aims held isTarget)

theorem aims_field (c : Compiler) (ref : MemberRef) : Aims c (some (.field ref)) := by
  rintro _ ⟨⟩ _ _
  trivial

theorem aims_none (c : Compiler) : Aims c none := nofun

theorem keeps_loadReceiver {receiver : Receiver} (guarded : c.Guarded g)
    (has : c.session.Here (·.HasReceiver receiver)) :
    (emitting fun table method => method.loadReceiver table receiver).Does c
      fun _ later => c.Works g later := by
  refine works_emitting guarded fun method current sits => ?_
  rw [yields_lift_fault]
  exact edits_loadReceiver sits.le _ fun _ => has method current

theorem does_takeTarget (guarded : c.Guarded g) : takeTarget.Does c fun target later =>
    c.Works g later ∧ (g.checked → Aims later target) := by
  rw [takeTarget]
  refine does_get_bind ?_
  split
  · refine does_modify_bind ?_
    have forgets : c.Untouched { c with lastDeclared := none } :=
      ⟨.refl _, rfl, rfl, by simp [targets], rfl⟩
    have outcome : c.Works g { c with lastDeclared := none } ∧
        (g.checked → Aims { c with lastDeclared := none } c.lastDeclared) := by
      refine ⟨forgets.works guarded fun _ => rfl, fun isChecked held declared method current => ?_⟩
      refine (guarded.sits method current).targets isChecked held ?_
      rw [Option.mem_def] at declared
      simp [targets, declared]
    dsimp only
    split
    · exact does_report_bind rfl (does_pure outcome)
    · exact does_pure outcome
  refine (keeps_takeName c guarded).bind fun segments named toNamed => ?_
  refine (does_resolveHere segments).bind ?_
  rintro reference here ⟨rfl, has⟩
  cases reference with
  | var var =>
    refine does_pure ⟨toNamed, fun _ => ?_⟩
    rintro _ ⟨⟩
    exact has
  | field receiver ref =>
    cases receiver with
    | none => exact does_pure ⟨toNamed, fun _ => aims_field _ ref⟩
    | some receiver =>
      refine (keeps_loadReceiver toNamed.guarded has).bind fun _ later toLater => ?_
      exact does_pure ⟨toNamed.trans toLater, fun _ => aims_field _ ref⟩
  | constant value => exact does_report_bind rfl (does_pure ⟨toNamed, fun _ => aims_none _⟩)
  | missing name => exact does_report_bind rfl (does_pure ⟨toNamed, fun _ => aims_none _⟩)

theorem works_assign (guarded : c.Guarded g) (aims : g.checked → Aims c target) :
    c.Works g { c with consume := .assign target } := by
  refine ⟨⟨fun method current => ?_, guarded.plain⟩, (Session.Untouched.refl _).reworks, rfl,
    fun _ => rfl⟩
  have sits := guarded.sits method current
  refine ⟨sits.le, sits.kinds, fun isChecked held here => ?_⟩
  simp only [targets, Consume.target?, List.mem_append, Option.mem_toList] at here
  rcases here with isTarget | isDeclared
  · exact aims isChecked held isTarget method current
  · exact sits.targets isChecked held (by simp [targets, isDeclared])

theorem keeps_compoundAssign (op : Operator) : (compoundAssign op).Keeps g := by
  intro c guarded
  rw [compoundAssign]
  refine (does_takeTarget guarded).bind ?_
  rintro target taken ⟨toTaken, aims⟩
  have assigns {next : Compiler} (toNext : taken.Works g next) :
      (modify ({ · with consume := .assign target })).Does next fun _ later => c.Works g later := by
    refine does_modify ((toTaken.trans toNext).trans (works_assign toNext.guarded fun isChecked => ?_))
    exact (aims isChecked).works toNext
  cases target with
  | none => exact assigns (.refl toTaken.guarded)
  | some target =>
    have loads : (emitting (loadTarget target)).Does taken fun _ later => taken.Works g later :=
      works_emitting toTaken.guarded fun method current sits =>
        edits_loadTarget sits.le (fun isChecked => aims isChecked target rfl method current) _
    refine loads.bind fun emitted next toNext => ?_
    cases emitted with
    | refused | outside => exact assigns toNext
    | done type =>
      dsimp only
      refine does_modify_bind (does_get_bind ?_)
      have noted : taken.Works g
          (next.modifyBase fun base => { base with depth := base.depth + 1, operand := some type }) :=
        toNext.trans (works_modifyBase toNext.guarded fun _ _ held => .inl held)
      refine does_attempt_bind (SymbolTable.plain_planOperator _ _ op)
        (fun plan plain => ?_) (assigns noted)
      refine does_modify_bind (assigns (noted.trans (works_modifyBase noted.guarded
        fun _ _ held => .inr ?_)))
      exact Option.some.inj held ▸ plain

/-! ## Steps and stores -/

theorem keeps_stepName (op : Operator) (segments : List String) :
    (stepName op segments).Keeps g := by
  intro c guarded
  rw [stepName]
  refine (does_resolveHere segments).bind ?_
  rintro reference here ⟨rfl, has⟩
  cases reference with
  | var var =>
    have loads : (emitting fun _ method => .ok ((), (method.loadVar var).step op)).Does here
        fun _ later => here.Works g later := by
      refine works_emitting guarded fun method current sits => ?_
      have loaded : method.Edits g (method.loadVar var) :=
        edits_loadVar sits.le fun _ => has method current
      exact loaded.trans (edits_step loaded.le op)
    refine loads.bind fun emitted next toNext => ?_
    cases emitted with
    | refused | outside => exact does_pure toNext
    | done _ =>
      -- The value is loaded and changed first; the method still has the variable then.
      have stillHas : next.session.Here (·.Has var.slot) :=
        toNext.session.here (fun _ _ edits => edits.has) has
      have stores : (emitting fun _ method => do return ((), ← method.storeVar var)).Does next
          fun _ later => next.Works g later := by
        refine works_emitting toNext.guarded fun method current sits => ?_
        rw [yields_bind]
        exact edits_storeVar sits.le fun _ => stillHas method current
      exact stores.bind fun _ later toLater => does_pure (toNext.trans toLater)
  | field receiver ref =>
    have steps : (emitting (stepField op receiver ref)).Does here fun _ later => here.Works g later := by
      refine works_emitting guarded fun method current sits => edits_stepField sits.le op
        (fun _ held isHeld => ?_) ref _
      cases isHeld
      exact has method current
    exact steps.bind fun _ later toLater => does_pure toLater
  | constant value => exact does_report (.refl guarded) rfl
  | missing name => exact does_report (.refl guarded) rfl

theorem keeps_stepValue (op : Operator) : (stepValue op).Keeps g := by
  rw [stepValue]
  refine keeps_get_bind fun _ => ?_
  split
  · split
    · exact keeps_emit fun _ le => edits_step le op
    · exact keeps_report rfl
  · exact keeps_takeName.bind fun segments => keeps_stepName op segments

theorem keeps_operator_none (op : Operator) : (operator op none).Keeps g := by
  unfold operator
  dsimp only
  split
  · intro c guarded
    refine (does_takeTarget guarded).bind ?_
    rintro target taken ⟨toTaken, aims⟩
    exact does_modify (toTaken.trans (works_assign toTaken.guarded aims))
  · exact keeps_stepValue .inc
  · exact keeps_stepValue .dec
  · exact keeps_flushReference.bind fun _ => keeps_modifyFrame (fun _ => rfl) fun _ _ held => held
  · refine keeps_get_bind fun _ => ?_
    split
    · exact keeps_modifyFrame (fun _ => rfl) fun _ _ held => held
    · split
      · exact keeps_compoundAssign _
      · exact keeps_binary op

/-- An operator may take back a result that was dropped behind the code that stands. -/
theorem does_operator (guarded : c.Guarded g) (op : Operator) {retract : Option TypeId}
    (beyond : retract.isSome = true → Beyond g.keep c) :
    (operator op retract).Does c fun _ later => c.Works g later := by
  cases retract with
  | none => exact keeps_operator_none op c guarded
  | some type =>
    have first : operator op (some type) = retractDiscard type >>= fun _ => operator op none := rfl
    rw [first]
    exact (does_retractDiscard guarded (beyond rfl) type).bind fun _ later toLater =>
      (keeps_operator_none op).does toLater

theorem does_stored (emitted : Emitted Unit) {next : Compiler} (toNext : c.Works g next) :
    (match emitted with
      | .done () => modify (·.modifyBase fun base => { base with depth := base.depth - 1 })
      | .refused | .outside => return : Compile Unit).Does next fun _ later => c.Works g later := by
  cases emitted with
  | done _ =>
    exact does_modify (toNext.trans (works_modifyBase toNext.guarded fun _ _ held => .inl held))
  | refused | outside => exact does_pure toNext

theorem does_store (guarded : c.Guarded g) (aims : g.checked → Aims c target) :
    (store target).Does c fun _ later => c.Works g later := by
  have stays : c.Works g c := .refl guarded
  rw [store]
  refine does_get_bind ?_
  dsimp only
  split
  · exact does_pure stays
  split
  · split
    · exact does_report_bind rfl (does_pure stays)
    · exact does_pure stays
  split
  · exact does_pure stays
  cases target with
  | none => exact does_pure_bind (does_stored .refused stays)
  | some target =>
    cases target with
    | var var =>
      have stores : (emitting fun _ method => do return ((), ← method.storeVar var)).Does c
          fun _ later => c.Works g later := by
        refine works_emitting guarded fun method current sits => ?_
        rw [yields_bind]
        exact edits_storeVar sits.le fun isChecked => aims isChecked _ rfl method current
      exact stores.bind fun emitted _ toNext => does_stored emitted toNext
    | field ref =>
      have stores : (emitting fun table method =>
          do return ((), ← method.storeField table ref)).Keeps g := by
        refine keeps_emitting fun table method le => ?_
        rw [yields_fault_bind]
        exact edits_storeField g le table ref
      exact (stores c guarded).bind fun emitted _ toNext => does_stored emitted toNext

theorem keeps_finishConsume : finishConsume.Keeps g := by
  rw [finishConsume]
  refine keeps_flushReference.bind fun _ => ?_
  intro c guarded
  refine does_get_bind (does_modify_bind ?_)
  have clears : c.Works g { c with consume := .normal } :=
    Compiler.Alters.works ⟨.refl _, rfl, rfl, by simp [targets, Consume.target?], rfl⟩ guarded
      fun _ => rfl
  split
  · exact does_pure clears
  · rename_i target consume
    refine (does_store clears.guarded fun isChecked held isTarget method current => ?_).imp
      fun _ _ => clears.trans
    refine (guarded.sits method current).targets isChecked held ?_
    rw [Option.mem_def] at isTarget
    simp [targets, consume, Consume.target?, isTarget]
  · have returns : (do
        emit (·.emit .ret)
        modify (·.modifyBase Frame.resetOperand) : Compile Unit).Keeps g := by
      refine Keeps.bind (keeps_emit fun _ le => edits_emit_plain le rfl) fun _ => ?_
      exact fun c guarded => does_modify (works_modifyBase guarded fun _ _ held => by cases held)
    exact returns.does clears

theorem keeps_endExpression : endExpression.Keeps g := by
  have forgets : (modify fun c : Compiler => { c with lastDeclared := none }).Keeps g :=
    fun c guarded => does_modify
      (Compiler.Alters.works ⟨.refl _, rfl, rfl, by simp [targets], rfl⟩ guarded fun _ => rfl)
  have ends : forgetWaiting.Keeps g := by
    refine keeps_get_bind fun c => ?_
    dsimp only
    split
    · exact Keeps.bind (keeps_modify fun _ => ⟨rfl, rfl⟩) fun _ => (keeps_report rfl).bind
        fun _ => forgets
    · exact forgets
  have drops (count : Nat) : (dropValues count >>= fun _ => forgetWaiting).Keeps g := by
    refine Keeps.bind ?_ fun _ => ends
    rw [dropValues]
    split
    · refine keeps_emit fun _ le => edits_append_plain le ?_
      intro instruction here
      obtain ⟨-, rfl⟩ := List.mem_replicate.mp here
      rfl
    · exact keeps_pure ()
  have resets : (modify fun c : Compiler => { c with base := .fresh }).Keeps g := by
    intro c guarded
    have fresh : c.Works g (c.modifyBase fun _ => .fresh) :=
      works_modifyBase guarded fun _ _ held => by cases held
    exact does_modify fresh
  rw [endExpression]
  refine keeps_flushReference.bind fun _ => keeps_get_bind fun flushed => resets.bind fun _ => ?_
  dsimp only
  split
  · exact (keeps_report rfl).bind fun _ => drops _
  · exact drops _

end Compile

end OnePass
