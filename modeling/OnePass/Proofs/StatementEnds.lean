import OnePass.Proofs.Apart.Step
import OnePass.Proofs.Integrity.Build

/-! # Nothing waits after the end of a statement

An end token, which is the end of an expression or an opening brace, deals with everything that
waits for a later token, whatever is reported on the way. `Compiler.pending` collects what can wait.
The constructs around the expression are dealt with first, so that only the expression is left to
wait; then the expression ends. -/

namespace OnePass

/-- The constructs that wait for a later token, apart from open brackets. The defaults are those of
a new compiler. -/
structure Pending where
  pendingExtends : Bool := false
  interfaces : Option String := none
  consume : Consume := .normal
  needEnd : Option EndReason := none
  literals : List String := []
  expectLiteral : Bool := false
  base : Frame := .fresh
  pendingNew : Bool := false
  lastDeclared : Option AssignTarget := none
  retractable : Option TypeId := none
  deriving DecidableEq

namespace Compiler

/-- What waits in a state. -/
def pending (c : Compiler) : Pending where
  pendingExtends := c.pendingExtends
  interfaces := c.interfaces
  consume := c.consume
  needEnd := c.needEnd
  literals := c.literals
  expectLiteral := c.expectLiteral
  base := c.base
  pendingNew := c.pendingNew
  lastDeclared := c.lastDeclared
  retractable := c.retractable

/-- Nothing that waits has changed. -/
def Stills (c later : Compiler) : Prop := later.pending = c.pending

instance : IsPreorder Compiler Stills where
  refl _ := rfl
  trans _ _ _ first second := second.trans first

/-- Nothing that waits has changed but the operands of the expression. -/
def Computes (c later : Compiler) : Prop := later.pending = { c.pending with base := later.base }

instance : IsPreorder Compiler Computes where
  refl _ := rfl
  trans _ _ _ first second := by
    rw [Computes, second, first]

theorem Stills.computes {c later : Compiler} (stills : c.Stills later) : c.Computes later := by
  have sameBase : later.base = c.base := congrArg Pending.base stills
  rw [Computes, stills, sameBase]
  rfl

theorem computes_modifyFrame (change : Frame → Frame) (c : Compiler) :
    c.Computes (c.modifyFrame change) := by
  unfold modifyFrame
  split <;> rfl

/-- Nothing waits but the expression under way. -/
structure AwaitsExpression (c : Compiler) : Prop where
  pendingExtends : c.pendingExtends = false
  interfaces : c.interfaces = none
  consume : c.consume = .normal
  needEnd : c.needEnd = none
  retractable : c.retractable = none

end Compiler

namespace Compile

variable {α : Type} {c : Compiler} {token : Token}

/-! ## Operands -/

theorem stills_emitting (work : SymbolTable → MethodDraft → Except Failure (α × MethodDraft)) :
    (emitting work).Within Compiler.Stills := by
  rw [emitting]
  refine within_get.bind fun _ => (within_lift _).bind fun found => ?_
  cases found with
  | none => exact (within_report _).bind fun _ => within_pure _
  | some method =>
    refine (within_attempt _).bind fun worked => ?_
    cases worked with
    | none => exact within_pure _
    | some worked =>
      exact (within_lift _).bind fun _ => Within.bind (within_modify fun _ => rfl) fun _ => within_pure _

theorem stills_emit (work : MethodDraft → MethodDraft) : (emit work).Within Compiler.Stills :=
  (stills_emitting _).bind fun _ => within_pure ()

theorem computes_emitting (work : SymbolTable → MethodDraft → Except Failure (α × MethodDraft)) :
    (emitting work).Within Compiler.Computes :=
  (stills_emitting work).imp fun _ _ => Compiler.Stills.computes

theorem computes_pushOperand (type : Option TypeId) :
    (pushOperand type).Within Compiler.Computes := by
  have noted (change : Frame → Frame) : (modify (·.modifyFrame change)).Within Compiler.Computes :=
    within_modify (Compiler.computes_modifyFrame change)
  rw [pushOperand, takePending]
  refine Within.bind (within_get.bind fun _ => (noted _).bind fun _ => within_pure _) ?_
  rintro ⟨neg, not, plan⟩
  dsimp only
  split
  · refine (computes_emitting _).bind fun emitted => ?_
    cases emitted <;> exact (within_pure _).bind fun _ => noted _
  · exact (within_pure _).bind fun _ => noted _

theorem computes_failOperand : failOperand.Within Compiler.Computes :=
  within_modify (Compiler.computes_modifyFrame _)

/-- A dotted name that is loaded no longer waits. A name without segments has no dot that asks for
one. -/
theorem leads_flushReference_pending (named : c.literals = [] → c.expectLiteral = false) :
    flushReference.Leads c fun _ later =>
      later.pending = { c.pending with literals := [], expectLiteral := false, base := later.base } := by
  have onward {action : Compile Unit} (computes : action.Within Compiler.Computes) :
      action.Leads c.clearName fun _ later =>
        later.pending = { c.pending with literals := [], expectLiteral := false, base := later.base } :=
    computes c.clearName
  rw [flushReference, leads_get_bind]
  split
  · rename_i isEmpty
    have noName : c.literals = [] := List.isEmpty_iff.mp isEmpty
    rw [leads_pure]
    simp [Compiler.pending, noName, named noName]
  · rw [takeName, leads_bind, leads_get_bind, leads_modify_bind, leads_pure]
    refine onward (within_get.bind fun _ => ?_)
    split
    · exact within_pure ()
    refine Within.bind (within_get.bind fun _ => within_lift _) fun reference => ?_
    refine (computes_emitting _).bind fun emitted => ?_
    cases emitted with
    | done type => exact computes_pushOperand _
    | refused | outside => exact computes_failOperand

theorem computes_store (target : Option AssignTarget) : (store target).Within Compiler.Computes := by
  rw [store]
  refine within_get.bind fun _ => ?_
  dsimp only
  split
  · exact within_pure ()
  split
  · split
    · exact (within_report _).bind fun _ => within_pure ()
    · exact within_pure ()
  split
  · exact within_pure ()
  split
  all_goals
    refine Within.bind (by first | exact within_pure _ | exact computes_emitting _) fun stored => ?_
    cases stored with
    | done => exact within_modify fun _ => rfl
    | refused | outside => exact within_pure ()

/-! ## What waits around the expression -/

theorem leads_finishConsume_pending (named : c.literals = [] → c.expectLiteral = false) :
    finishConsume.Leads c fun _ later => later.pending =
      { c.pending with consume := .normal, literals := [], expectLiteral := false, base := later.base } := by
  rw [finishConsume, leads_bind]
  refine (leads_flushReference_pending named).imp fun _ flushed waits => ?_
  rw [leads_get_bind, leads_modify_bind]
  have onward {action : Compile Unit} (computes : action.Within Compiler.Computes) :
      action.Leads { flushed with consume := .normal } fun _ later =>
        later.pending =
          { c.pending with
            consume := .normal, literals := [], expectLiteral := false, base := later.base } := by
    refine (computes _).imp fun _ later kept => ?_
    rw [kept]
    exact congrArg (fun before : Pending => { before with consume := .normal, base := later.base })
      waits
  split
  · exact onward (within_pure ())
  · exact onward (computes_store _)
  · exact onward (((stills_emit _).imp fun _ _ => Compiler.Stills.computes).bind fun _ =>
      within_modify fun _ => rfl)

theorem leads_checkEnd_pending (isEnd : token.isEnd = true) : (checkEnd token).Leads c fun _ later =>
    later.pending = { c.pending with needEnd := none } := by
  rw [checkEnd, leads_get_bind]
  split
  · rename_i nothing
    rw [leads_pure]
    simp [Compiler.pending, nothing]
  · rw [if_neg (by rintro same; rw [eq_of_beq same] at isEnd; cases isEnd), leads_modify_bind]
    split
    · exact leads_report.mpr rfl
    · exact leads_pure.mpr rfl

theorem leads_readBase_pending (isEnd : token.isEnd = true) :
    (readBase token).Leads c fun used later =>
    used = false ∧ later.pending = { c.pending with pendingExtends := false } := by
  unfold readBase
  rw [leads_get_bind]
  split
  · rename_i nothing
    rw [leads_pure]
    simpa [Compiler.pending] using nothing
  · rw [leads_modify_bind]
    split
    · cases isEnd
    · rw [leads_bind, leads_report, leads_pure]
      exact ⟨rfl, rfl⟩

theorem stills_implementCurrent (name : String) :
    (implementCurrent name).Within Compiler.Stills := by
  rw [implementCurrent]
  split
  · exact within_pure ()
  rw [amendCurrent]
  refine within_get.bind fun _ => (within_lift _).bind fun _ => ?_
  split
  · exact within_modify fun _ => rfl
  · exact within_report _

theorem leads_readInterfaces_pending (isEnd : token.isEnd = true) :
    (readInterfaces token).Leads c fun used later =>
    used = false ∧ later.pending = { c.pending with interfaces := none } := by
  rw [readInterfaces, leads_get_bind]
  split
  · rename_i nothing
    rw [leads_pure]
    simp [Compiler.pending, nothing]
  · split
    · cases isEnd
    · cases isEnd
    · cases isEnd
    · cases isEnd
    · rw [if_pos isEnd, leads_modify_bind, leads_bind]
      exact (stills_implementCurrent _ _).imp fun _ _ same => leads_pure.mpr ⟨rfl, same⟩

/-- At an end token, nothing but the expression is left to wait. -/
theorem leads_awaited_end (sound : c.Sound) (isEnd : token.isEnd = true) :
    (awaited token).Leads c fun rest later =>
    rest.isSome = true ∧ later.AwaitsExpression := by
  rw [awaited, leads_bind, takeRetractable, leads_get_bind, leads_modify_bind,
    leads_pure, leads_bind]
  refine (leads_checkEnd_pending isEnd).imp fun _ checked ended => ?_
  rw [leads_bind]
  refine (leads_readBase_pending isEnd).imp fun _ based noBase => ?_
  obtain ⟨unused, extended⟩ := noBase
  rw [unused, if_neg Bool.false_ne_true, leads_bind]
  refine (leads_readInterfaces_pending isEnd).imp fun _ listed noList => ?_
  obtain ⟨unused, implemented⟩ := noList
  rw [unused, if_neg Bool.false_ne_true, leads_get_bind]
  have around : listed.pending =
      { c.pending with
        pendingExtends := false, interfaces := none, needEnd := none, retractable := none } := by
    rw [implemented, extended, ended]
    rfl
  simp only [Compiler.pending, Pending.mk.injEq] at around
  obtain ⟨pendingExtends, interfaces, -, needEnd, literals, expectLiteral, -, -, -, retractable⟩ :=
    around
  split
  · have stillNamed : listed.literals = [] → listed.expectLiteral = false := by
      rw [literals, expectLiteral]
      exact sound.named
    rw [leads_bind]
    refine (leads_finishConsume_pending stillNamed).imp fun _ later finished =>
      leads_pure.mpr ⟨rfl, ?_⟩
    simp only [Compiler.pending, Pending.mk.injEq] at finished
    obtain ⟨sameExtends, sameInterfaces, consumed, sameEnd, -, -, -, -, -, sameRetractable⟩ := finished
    exact ⟨sameExtends.trans pendingExtends, sameInterfaces.trans interfaces, consumed,
      sameEnd.trans needEnd, sameRetractable.trans retractable⟩
  · rename_i noConsume
    have isNormal : listed.consume = .normal := by simpa [isEnd] using noConsume
    exact leads_pure.mpr ⟨rfl, pendingExtends, interfaces, isNormal, needEnd, retractable⟩

/-! ## The end of the expression -/

/-- Where nothing but the expression waits, nothing waits after its end. -/
theorem leads_endExpression_pending (sound : c.Sound) (awaits : c.AwaitsExpression) :
    endExpression.Leads c fun _ later => later.pending = {} := by
  rw [endExpression, leads_bind]
  refine (leads_flushReference_pending sound.named).imp fun _ flushed waits => ?_
  rw [leads_get_bind, leads_modify_bind]
  have dropped : { flushed with base := .fresh }.pending =
      { pendingNew := c.pendingNew, lastDeclared := c.lastDeclared } := by
    refine (congrArg (fun before : Pending => { before with base := .fresh }) waits).trans ?_
    simp [Compiler.pending, awaits.pendingExtends, awaits.interfaces, awaits.consume,
      awaits.needEnd, awaits.retractable]
  -- The pops change nothing that waits, so every branch meets the last two changes in such a state.
  have clears {before : Compiler} (left : before.pending =
        { pendingNew := c.pendingNew, lastDeclared := c.lastDeclared }) :
      forgetWaiting.Leads before fun _ later => later.pending = {} := by
    rw [forgetWaiting, leads_get_bind]
    split
    · exact congrArg (fun left : Pending => { left with pendingNew := false, lastDeclared := none }) left
    · rename_i isOff
      have noNew : c.pendingNew = false :=
        (congrArg Pending.pendingNew left).symm.trans (Bool.eq_false_iff.mpr isOff)
      rw [noNew] at left
      exact congrArg (fun left : Pending => { left with lastDeclared := none }) left
  have drops {before : Compiler} (left : before.pending =
        { pendingNew := c.pendingNew, lastDeclared := c.lastDeclared }) :
      (dropValues flushed.base.depth >>= fun _ => forgetWaiting).Leads before fun _ later =>
          later.pending = {} := by
    rw [dropValues, leads_bind]
    split
    · exact (stills_emit _ before).imp fun _ later same => clears (same.trans left)
    · exact clears left
  cases flushed.base.pendingOp with
  | some plan =>
    dsimp only
    rw [leads_bind, leads_report]
    exact drops dropped
  | none => exact drops dropped

/-! ## The step -/

theorem stills_closing (work : Session → Except Fault (Session × List Problem)) :
    (closing work).Within Compiler.Stills := by
  rw [closing]
  refine within_get.bind fun _ => (within_lift _).bind fun _ => ?_
  exact Within.bind (within_modify fun _ => rfl) fun _ => within_reportAll _

/-- After the step on an end token, nothing waits. -/
theorem leads_step_end (sound : c.Sound) (isEnd : token.isEnd = true) :
    (step token).Leads c fun _ later => later.pending = {} := by
  have ends {next : Compile Unit} (stills : next.Within Compiler.Stills) {before : Compiler}
      (sound : before.Sound) (awaits : before.AwaitsExpression) :
      (do endExpression; next : Compile Unit).Leads before fun _ later => later.pending = {} := by
    rw [leads_bind]
    refine (leads_endExpression_pending sound awaits).imp fun _ later nothing => ?_
    exact (stills later).imp fun _ last same => same.trans nothing
  rw [step_eq, leads_bind]
  have evolves : (awaited token).Leads c fun _ later => c.Evolves later :=
    gives_iff.mpr fun _ ran => (Ensures.of_ok (safe_awaited sound token) ran).1
  refine ((leads_awaited_end sound isEnd).and evolves).imp ?_
  rintro rest before ⟨⟨isSome, awaits⟩, evolves⟩
  obtain ⟨retract, rfl⟩ := Option.isSome_iff_exists.mp isSome
  have stillSound := evolves.sound
  cases token with
  | block isOpen =>
    cases isOpen with
    | false => cases isEnd
    | true =>
      refine ends ?_ stillSound awaits
      refine Within.bind (within_modify fun _ => rfl) fun _ => within_get.bind fun _ =>
        (within_lift _).bind fun _ => ?_
      exact (within_lift _).bind fun _ => within_modify fun _ => rfl
  | expressionEnd =>
    refine ends ?_ stillSound awaits
    refine within_get.bind fun _ => (within_lift _).bind fun found => ?_
    cases found with
    | none => exact within_pure ()
    | some type =>
      dsimp only
      split
      · exact stills_closing _
      · split
        · exact stills_closing _
        · exact within_pure ()
  | _ => cases isEnd

end Compile

/-! ## Builds -/

namespace Build

variable {files : FileTree} {stream : TokenStream} {options : BuildOptions} {autoName : Bool}
  {state : Build}

/-- After an end token nothing waits for a later token, whatever was reported before and by its own
step. -/
theorem Reached.pending_eq_after_end (reached : Reached files stream options autoName state)
    {token : Token} (isEnd : token.isEnd = true) {rest : List Token} {later : Build}
    (processed : (state.reading rest).process token = .ok later) : later.compiler.pending = {} := by
  have ends : Gives ((state.reading rest).process token) fun later => later.compiler.pending = {} := by
    rw [process, gives_bind]
    exact Gives.imp (Compile.leads_step_end { reached.sound with } isEnd) fun _ nothing => nothing
  exact ends.of_ok processed

end Build

/-- A statement that leaves much waiting at its end: a declared variable, an operator without its
right operand, a value to be returned, something new, a name with a dot after it, and a base
type. -/
def unfinished : TokenStream where
  header := .script
  platform := 0
  tokens :=
    [.var "x" "int" false, .value (.int 1), .operator .add, .returnValue, .new, .literal "x",
      .separator .member, .extendsClause, .expressionEnd]

/-- All of it waits before the end token, and nothing after. -/
theorem unfinished_pending : ∃ state later : Build, Build.Reached (.empty []) unfinished {}
      false state ∧
    state.compiler.stream = [.expressionEnd] ∧ state.compiler.pending =
      { pendingExtends := true, consume := .ret, literals := ["x"], expectLiteral := true
        base := state.compiler.base, pendingNew := true, lastDeclared := state.compiler.lastDeclared } ∧
    state.compiler.base ≠ .fresh ∧ state.compiler.lastDeclared ≠ none ∧
    (state.reading []).process .expressionEnd = .ok later ∧ later.compiler.pending = {} := by
  have reached : Build.Reached (.empty []) unfinished {} false _ :=
    .step (.step (.step (.step (.step (.step (.step
      (.step (.start rfl) rfl rfl) rfl rfl) rfl rfl) rfl rfl) rfl rfl) rfl rfl) rfl rfl) rfl rfl
  have isEnd : Token.expressionEnd.isEnd = true := rfl
  refine ⟨_, _, reached, rfl, rfl, by decide, by decide, rfl, ?_⟩
  exact reached.pending_eq_after_end isEnd rfl

end OnePass
