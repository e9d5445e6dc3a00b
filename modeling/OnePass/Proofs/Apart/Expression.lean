import OnePass.Proofs.Apart.Action

/-! # Expressions are read without a look aside

How an expression is compiled depends on the session, on the frames and on what waits for a value,
but never on the tokens that follow, and it makes no difference whether problems are dropped. -/

namespace OnePass.Compile

/-! ## Operands -/

theorem apart_takePending : takePending.Apart := by
  rw [takePending]
  exact apart_get_bind (fun _ _ => rfl) fun c => (apart_modifyFrame _).bind fun _ => apart_pure _

theorem apart_pushOperand (type : Option TypeId) : (pushOperand type).Apart := by
  rw [pushOperand]
  refine apart_takePending.bind fun pending => ?_
  obtain ⟨neg, not, plan⟩ := pending
  dsimp only
  split
  · refine (apart_emitting _).bind fun emitted => ?_
    cases emitted with
    | done result => exact (apart_pure _).bind fun _ => apart_modifyFrame _
    | refused | outside => exact (apart_pure _).bind fun _ => apart_modifyFrame _
  · exact (apart_pure _).bind fun _ => apart_modifyFrame _

theorem apart_failOperand : failOperand.Apart := apart_modifyFrame _

theorem apart_takeName : takeName.Apart :=
  apart_get_bind (fun _ _ => rfl) fun _ => Apart.bind (fun _ _ => rfl) fun _ => apart_pure _

theorem apart_resolveHere (segments : List String) : (resolveHere segments).Apart :=
  apart_get_bind (fun _ _ => rfl) fun _ => apart_lift _

theorem apart_flushReference : flushReference.Apart := by
  rw [flushReference]
  refine apart_get_bind (fun _ _ => rfl) fun c => ?_
  split
  · exact apart_pure ()
  refine apart_takeName.bind fun segments => apart_get_bind (fun _ _ => rfl) fun named => ?_
  split
  · exact apart_pure ()
  refine (apart_resolveHere segments).bind fun reference => (apart_emitting _).bind fun emitted => ?_
  cases emitted with
  | done type => exact apart_pushOperand (some type)
  | refused | outside => exact apart_failOperand

theorem apart_value (literal : Literal) : (value literal).Apart := by
  rw [value]
  refine apart_flushReference.bind fun _ => apart_get_bind (fun _ _ => rfl) fun c => ?_
  split
  · exact apart_pure ()
  refine (apart_emitting _).bind fun emitted => ?_
  cases emitted with
  | done type => exact apart_pushOperand (some type)
  | refused | outside => exact apart_pure ()

/-! ## Operators -/

theorem apart_binary (op : Operator) : (binary op).Apart := by
  rw [binary]
  refine apart_flushReference.bind fun _ => apart_get_bind (fun _ _ => rfl) fun c => ?_
  dsimp only
  split
  · exact apart_report _
  split
  · exact apart_report _
  refine (apart_attempt _).bind fun plan => ?_
  cases plan with
  | none => exact apart_pure ()
  | some plan => exact apart_modifyFrame _

theorem apart_retractDiscard (type : TypeId) : (retractDiscard type).Apart := by
  rw [retractDiscard]
  refine apart_get_bind (fun _ _ => rfl) fun c => ?_
  split
  · exact apart_pure ()
  refine (apart_lift _).bind fun found => ?_
  cases found with
  | none => exact apart_pure ()
  | some method =>
    dsimp only
    split
    · exact (apart_lift _).bind fun session =>
        Apart.bind (fun _ _ => rfl) fun _ _ _ => rfl
    · exact apart_pure ()

theorem apart_takeTarget : takeTarget.Apart := by
  rw [takeTarget]
  refine apart_get_bind (fun _ _ => rfl) fun c => ?_
  split
  · exact Apart.bind (fun _ _ => rfl) fun _ => apart_if_bind (apart_report _) (apart_pure _)
  refine apart_takeName.bind fun segments => (apart_resolveHere segments).bind fun reference => ?_
  cases reference with
  | var var => exact apart_pure _
  | field receiver ref =>
    cases receiver with
    | none => exact apart_pure _
    | some receiver => exact (apart_emitting _).bind fun _ => apart_pure _
  | constant value => exact (apart_report _).bind fun _ => apart_pure _
  | missing name => exact (apart_report _).bind fun _ => apart_pure _

theorem apart_compoundAssign (op : Operator) : (compoundAssign op).Apart := by
  rw [compoundAssign]
  refine apart_takeTarget.bind fun target => ?_
  have assigns : (modify ({ · with consume := .assign target })).Apart := fun _ _ => rfl
  cases target with
  | none => exact (apart_pure ()).bind fun _ => assigns
  | some target =>
    refine (apart_emitting _).bind fun emitted => ?_
    cases emitted with
    | refused | outside => exact (apart_pure ()).bind fun _ => assigns
    | done type =>
      refine Apart.bind (fun _ _ => rfl) fun _ => apart_get_bind (fun _ _ => rfl) fun c => ?_
      refine (apart_attempt _).bind fun plan => ?_
      cases plan with
      | none => exact (apart_pure ()).bind fun _ => assigns
      | some plan => exact Apart.bind (fun _ _ => rfl) fun _ => assigns

theorem apart_stepName (op : Operator) (segments : List String) : (stepName op segments).Apart := by
  rw [stepName]
  refine (apart_resolveHere segments).bind fun reference => ?_
  cases reference with
  | var var =>
    refine (apart_emitting _).bind fun emitted => ?_
    cases emitted with
    | refused | outside => exact apart_pure ()
    | done => exact (apart_emitting _).bind fun _ => apart_pure ()
  | field receiver ref => exact (apart_emitting _).bind fun _ => apart_pure ()
  | constant value => exact apart_report _
  | missing name => exact apart_report _

theorem apart_stepValue (op : Operator) : (stepValue op).Apart := by
  rw [stepValue]
  refine apart_get_bind (fun _ _ => rfl) fun c => ?_
  split
  · split
    · exact apart_emit _
    · exact apart_report _
  · exact apart_takeName.bind fun segments => apart_stepName op segments

theorem apart_operator_none (op : Operator) : (operator op none).Apart := by
  unfold operator
  dsimp only
  split
  · exact apart_takeTarget.bind fun _ _ _ => rfl
  · exact apart_stepValue _
  · exact apart_stepValue _
  · exact apart_flushReference.bind fun _ => apart_modifyFrame _
  · refine apart_get_bind (fun _ _ => rfl) fun c => ?_
    split
    · exact apart_modifyFrame _
    · split
      · exact apart_compoundAssign _
      · exact apart_binary op

theorem apart_operator (op : Operator) (retract : Option TypeId) : (operator op retract).Apart := by
  cases retract with
  | none => exact apart_operator_none op
  | some type =>
    have first : operator op (some type) = retractDiscard type >>= fun _ => operator op none := rfl
    rw [first]
    exact (apart_retractDiscard type).bind fun _ => apart_operator_none op

/-! ## Ends of expressions -/

theorem apart_store (target : Option AssignTarget) : (store target).Apart := by
  rw [store]
  refine apart_get_bind (fun _ _ => rfl) fun c => ?_
  dsimp only
  split
  · exact apart_pure ()
  split
  · exact apart_if_bind (apart_report _) (apart_pure ())
  split
  · exact apart_pure ()
  cases target with
  | none => exact fun _ _ => rfl
  | some target =>
    cases target <;> refine (apart_emitting _).bind fun stored => ?_
    all_goals
      cases stored with
      | done => exact fun _ _ => rfl
      | refused | outside => exact apart_pure ()

theorem apart_finishConsume : finishConsume.Apart := by
  rw [finishConsume]
  refine apart_flushReference.bind fun _ => apart_get_bind (fun _ _ => rfl) fun c => ?_
  refine Apart.bind (fun _ _ => rfl) fun _ => ?_
  cases c.consume with
  | normal => exact apart_pure ()
  | assign target => exact apart_store target
  | ret => exact (apart_emit _).bind fun _ _ _ => rfl

theorem apart_endExpression : endExpression.Apart := by
  have forgets : forgetWaiting.Apart := by
    refine apart_get_bind (fun _ _ => rfl) fun c => ?_
    split
    · exact Apart.bind (fun _ _ => rfl) fun _ => (apart_report _).bind fun _ _ _ => rfl
    · exact fun _ _ => rfl
  have drops (count : Nat) : (dropValues count >>= fun _ => forgetWaiting).Apart := by
    refine Apart.bind ?_ fun _ => forgets
    rw [dropValues]
    split
    · exact apart_emit _
    · exact apart_pure ()
  rw [endExpression]
  refine apart_flushReference.bind fun _ => apart_get_bind (fun _ _ => rfl) fun c => ?_
  refine Apart.bind (fun _ _ => rfl) fun _ => ?_
  dsimp only
  split
  · exact (apart_report _).bind fun _ => drops _
  · exact drops _

/-! ## Calls and groups -/

theorem apart_openStatement : openStatement.Apart := by
  rw [openStatement]
  refine Apart.bind (fun _ _ => rfl) fun _ => apart_get_bind (fun _ _ => rfl) fun c => ?_
  refine Apart.bind (fun _ _ => rfl) fun _ => ?_
  split
  · exact apart_if_bind (apart_report _) (fun _ _ => rfl)
  refine apart_takeName.bind fun segments => apart_position.bind fun start => ?_
  split
  · exact fun _ _ => rfl
  · exact (apart_lift _).bind fun _ _ _ => rfl

theorem apart_abandonCall (start : Option Nat) : (abandonCall start).Apart := by
  unfold abandonCall
  cases start with
  | none => exact (apart_pure ()).bind fun _ => apart_failOperand
  | some start =>
    refine apart_get_bind (fun _ _ => rfl) fun c => (apart_lift _).bind fun found => ?_
    cases found with
    | none => exact (apart_pure ()).bind fun _ => apart_failOperand
    | some method =>
      exact (apart_lift _).bind fun session => Apart.bind (fun _ _ => rfl) fun _ => apart_failOperand

theorem apart_emitCall (site : CallSite) (start : Option Nat) (args : List (Option TypeId)) :
    (emitCall site start args).Apart := by
  rw [emitCall]
  refine apart_get_bind (fun _ _ => rfl) fun c => (apart_attempt _).bind fun callee => ?_
  cases callee with
  | none => exact apart_abandonCall start
  | some ref =>
    refine (apart_lift _).bind fun method => (apart_lift _).bind fun isVoid =>
      (apart_emitting _).bind fun emitted => ?_
    cases emitted with
    | done result =>
      cases result with
      | some type => exact apart_pushOperand (some type)
      | none =>
        dsimp only
        split
        · exact fun _ _ => rfl
        · exact apart_pure ()
    | refused => exact apart_abandonCall start
    | outside => exact apart_pure ()

theorem apart_emitConstruct (type : Option TypeId) (name : String) (start : Option Nat)
    (args : List (Option TypeId)) : (emitConstruct type name start args).Apart := by
  unfold emitConstruct
  cases type with
  | none => exact (apart_report _).bind fun _ => apart_abandonCall start
  | some type =>
    refine (apart_emitting _).bind fun emitted => ?_
    cases emitted with
    | done type => exact apart_pushOperand (some type)
    | refused => exact apart_abandonCall start
    | outside => exact apart_pure ()

theorem apart_finishGroup (frame : Frame) : (finishGroup frame).Apart := by
  have ends : (if frame.depth > 0 then pushOperand frame.operand
      else if frame.failed then failOperand else pure () : Compile Unit).Apart := by
    split
    · exact apart_pushOperand _
    split
    · exact apart_failOperand
    · exact apart_pure ()
  rw [finishGroup]
  cases frame.pendingOp with
  | none => exact ends
  | some plan => exact (apart_report _).bind fun _ => ends

theorem apart_closeStatement : closeStatement.Apart := by
  rw [closeStatement]
  refine apart_get_bind (fun _ _ => rfl) fun c => ?_
  split
  · exact apart_report _
  split
  · exact apart_report _
  refine Apart.bind (fun _ _ => rfl) fun _ => apart_flushReference.bind fun _ => ?_
  refine apart_get_bind (fun _ _ => rfl) fun flushed => ?_
  cases flushed.frames with
  | nil => exact apart_pure ()
  | cons frame rest =>
    refine Apart.bind (fun _ _ => rfl) fun _ => ?_
    cases frame.kind with
    | base | group | sequence => exact apart_finishGroup frame
    | call site start => exact apart_emitCall site start _
    | construct type name start => exact apart_emitConstruct type name start _

/-! ## Array literals -/

theorem apart_finishElement : finishElement.Apart := by
  rw [finishElement]
  refine apart_position.bind fun position => apart_modify fun aside c => ?_
  rw [Compiler.beside]
  cases frames : c.frames <;> simp [Compiler.beside, frames]

theorem apart_separate : separate.Apart := by
  rw [separate]
  refine apart_get_bind (fun _ _ => rfl) fun c => ?_
  dsimp only
  split
  · exact apart_flushReference.bind fun _ => apart_modifyFrame _
  · exact apart_flushReference.bind fun _ => apart_modifyFrame _
  · exact apart_flushReference.bind fun _ => apart_finishElement
  · exact fun _ _ => rfl

theorem apart_openSequence : openSequence.Apart := by
  rw [openSequence]
  refine Apart.bind (fun _ _ => rfl) fun _ => apart_flushReference.bind fun _ => ?_
  refine apart_get_bind (fun _ _ => rfl) fun c => ?_
  split
  · exact (apart_pure none).bind fun _ _ _ => rfl
  · exact apart_position.bind fun _ _ _ => rfl

theorem apart_closeSequence : closeSequence.Apart := by
  rw [closeSequence]
  refine apart_get_bind (fun _ _ => rfl) fun c => ?_
  split
  · exact apart_report _
  split
  · exact apart_report _
  refine Apart.bind (fun _ _ => rfl) fun _ => apart_flushReference.bind fun _ => ?_
  refine apart_finishElement.bind fun _ => apart_get_bind (fun _ _ => rfl) fun ended => ?_
  cases ended.frames with
  | nil => exact apart_pure ()
  | cons frame rest =>
    refine Apart.bind (fun _ _ => rfl) fun _ => ?_
    split
    · refine (apart_emitting _).bind fun emitted => ?_
      cases emitted with
      | done type => exact apart_pushOperand (some type)
      | refused | outside => exact apart_pure ()
    · exact apart_pure ()

end OnePass.Compile
