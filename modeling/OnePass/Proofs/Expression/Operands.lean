import OnePass.Proofs.Expression.OpenBody

/-! # Operands and operators

How the compiler's state changes from one operand of an expression to the next.

* **`OpenBody.pushed`** — the state after a value was put on the stack and met the operators that
  waited for it.
* **`Compiler.Awaits`** — an operand may begin, and the current method has some code.
* **`Reads`** — tokens lead from one state to another without a problem, whatever tokens follow.
* **`Settled`** — the value of an expression is on the stack, or will be as soon as the next token
  is read. A name alone is not loaded before it is known not to begin a call, and the result of a
  call alone is dropped until an operator asks for it. -/

namespace OnePass

open Compile Compiler

/-! ## The innermost frame -/

namespace Compiler

variable (c : Compiler) (change : Frame → Frame)

theorem modifyFrame_eq : c.modifyFrame change =
    { c with
      base := if c.frames.isEmpty then change c.base else c.base
      frames := c.frames.modifyHead change } := by
  cases frames : c.frames <;> simp [modifyFrame, frames]

@[simp] theorem session_modifyFrame : (c.modifyFrame change).session = c.session := by
  rw [modifyFrame_eq]

@[simp] theorem frame_modifyFrame : (c.modifyFrame change).frame = change c.frame := by
  cases frames : c.frames <;> simp [modifyFrame, frame, frames]

@[simp] theorem modifyFrame_modifyFrame (next : Frame → Frame) :
    (c.modifyFrame change).modifyFrame next = c.modifyFrame (next ∘ change) := by
  cases frames : c.frames <;> simp [modifyFrame, frames]

theorem modifyFrame_withSession (session : Session) :
    { c.modifyFrame change with session := session } =
      ({ c with session := session } : Compiler).modifyFrame change := by
  simp only [modifyFrame_eq]

@[simp] theorem modifyFrame_id : c.modifyFrame id = c := by
  simp [modifyFrame_eq]

theorem modifyFrame_congr {change other : Frame → Frame} (same : change c.frame = other c.frame) :
    c.modifyFrame change = c.modifyFrame other := by
  cases frames : c.frames <;> simp_all [modifyFrame, frame]

end Compiler

/-! ## Values on the stack -/

namespace Frame

variable (frame : Frame)

variable {frame} in
theorem isIdle_iff : frame.isIdle = true ↔ frame.depth = 0 ∧ frame.failed = false ∧
      frame.pendingOp = none ∧
    frame.pendingNot = false ∧ frame.pendingNeg = false := by
  simp [isIdle, hasValue, and_assoc]

/-- The code of the operators that wait for an operand. -/
def waitingCode : List Instruction :=
  (if frame.pendingNeg then Sign.minus.code else []) ++
    (if frame.pendingNot then Sign.not.code else []) ++ match frame.pendingOp with
    | some plan => plan.lowering.code
    | none => []

/-- The type that the waiting operators leave. -/
def waitingType (table : SymbolTable) (type : Option TypeId) : Option TypeId :=
  match frame.pendingOp with
  | some plan => plan.result
  | none => if frame.pendingNot then some table.wellKnown.boolean else type

variable {frame} in
theorem waitingCode_eq_nil (neg : frame.pendingNeg = false) (not : frame.pendingNot = false)
    (op : frame.pendingOp = none) : frame.waitingCode = [] := by
  simp [waitingCode, neg, not, op]

variable {frame} in
theorem waitingType_eq (not : frame.pendingNot = false) (op : frame.pendingOp = none)
    (table : SymbolTable) (type : Option TypeId) : frame.waitingType table type = type := by
  simp [waitingType, not, op]

/-- The frame after a sign was read. -/
def signed (sign : Sign) : Frame :=
  { frame with
    pendingNeg := sign = .minus
    pendingNot := sign = .not }

/-- The frame after the waiting operators have met their operand. -/
def taking (type : Option TypeId) : Frame :=
  { frame with
    depth := if frame.pendingOp.isNone || frame.depth == 0 then frame.depth + 1 else frame.depth
    operand := type
    pendingOp := none
    pendingNot := false
    pendingNeg := false }

end Frame

namespace OpenBody

variable {body : OpenBody} {code : List Instruction} {c : Compiler}

/-- The state after a value was put on the stack, and met the operators that wait for it. The method
has then the given code, up to that of the operators. -/
def pushed (body : OpenBody) (code : List Instruction) (type : Option TypeId) (c : Compiler) :
    Compiler :=
  ({ c with session := body.sessionWith (code ++ c.frame.waitingCode) } : Compiler).modifyFrame
    (·.taking (c.frame.waitingType body.session.table type))

theorem pushed_modifyFrame (change : Frame → Frame) (type : Option TypeId) :
    body.pushed code type (c.modifyFrame change) =
      ({ c with session := body.sessionWith (code ++ (change c.frame).waitingCode) } :
        Compiler).modifyFrame ((·.taking ((change c.frame).waitingType body.session.table type)) ∘
          change) := by
  simp only [pushed, frame_modifyFrame, modifyFrame_withSession, modifyFrame_modifyFrame]

theorem pushed_withStream (type : Option TypeId) (stream : List Token) :
    body.pushed code type { c with stream := stream } =
    { body.pushed code type c with stream := stream } := by
  simp only [pushed, modifyFrame_eq, frame]

theorem pushed_withNesting (type : Option TypeId) (nesting : Nesting) :
    body.pushed code type { c with nesting := nesting } =
      { body.pushed code type c with nesting := nesting } := by
  simp only [pushed, modifyFrame_eq, frame]

theorem applyPending_eq (frame : Frame) (type : Option TypeId) :
    applyPending frame.pendingNeg frame.pendingNot frame.pendingOp type body.session.table
        (body.methodWith code) =
      (frame.waitingType body.session.table type, body.methodWith (code ++ frame.waitingCode)) := by
  cases neg : frame.pendingNeg <;> cases not : frame.pendingNot <;> cases plan : frame.pendingOp <;>
    simp [applyPending, Frame.waitingType, Frame.waitingCode, Sign.code, neg, not, plan, methodWith,
      MethodDraft.emit, MethodDraft.append, MethodDraft.negate, MethodDraft.apply]

theorem pushOperand_eq (session : c.session = body.sessionWith code) (type : Option TypeId) :
    pushOperand type c = .ok ((), body.pushed code type c, []) := by
  simp only [pushOperand, takePending]
  simp only [bind_bind_apply, get_bind_apply, modify_bind_apply, pure_bind_apply]
  -- Without waiting operators there is no emission at all, only a note in the frame.
  by_cases waits : (c.frame.pendingNeg || c.frame.pendingNot || c.frame.pendingOp.isSome) = true
  · simp only [waits, if_true]
    refine (bind_eq (emitting_eq ((session_modifyFrame _ _).trans session)
      (congrArg Except.ok (applyPending_eq c.frame type)))).trans ?_
    simp only [pure_bind_apply, modify_apply, modifyFrame_withSession,
      modifyFrame_modifyFrame, pushed]
    congr 3
    exact modifyFrame_congr _ rfl
  · obtain ⟨⟨neg, not⟩, plan⟩ : (c.frame.pendingNeg = false ∧ c.frame.pendingNot = false) ∧
        c.frame.pendingOp = none := by simpa using waits
    have same : ({ c with session := body.sessionWith code } : Compiler) = c := by rw [← session]
    simp only [waits, Bool.false_eq_true, if_false, pure_bind_apply, modify_apply,
      modifyFrame_modifyFrame, pushed, Frame.waitingCode_eq_nil neg not plan, List.append_nil, same,
      Frame.waitingType_eq not plan]
    congr 3
    exact modifyFrame_congr _ rfl

/-! ## Between operands -/

end OpenBody

/-- No construct other than the expression waits for a token. -/
structure Compiler.Quiet (c : Compiler) : Prop where
  needEnd : c.needEnd = none
  pendingExtends : c.pendingExtends = false
  interfaces : c.interfaces = none
  inDirective : c.inDirective = false

/-- An operand may begin: no part of one is under way, and the current method has the given code. -/
structure Compiler.Awaits (c : Compiler) (body : OpenBody) (code : List Instruction) :
    Prop extends c.Quiet where
  session : c.session = body.sessionWith code
  usings : c.usings = body.usings
  literals : c.literals = []
  expectLiteral : c.expectLiteral = false
  pendingNew : c.pendingNew = false
  retractable : c.retractable = none
  counting : c.countingOnly = false

theorem Compiler.Quiet.withStream {c : Compiler} (quiet : c.Quiet) (stream : List Token) :
    ({ c with stream := stream } : Compiler).Quiet :=
  { quiet with }

theorem Compiler.Awaits.withStream {c : Compiler} {body : OpenBody} {code : List Instruction}
    (awaits : c.Awaits body code) (stream : List Token) :
    ({ c with stream := stream } : Compiler).Awaits body code :=
  { awaits with }

namespace OpenBody

variable {body : OpenBody} {code : List Instruction} {c : Compiler}

theorem countingOnly_modifyFrame (change : Frame → Frame)
    (kinds : ∀ frame, (change frame).kind = frame.kind) :
    (c.modifyFrame change).countingOnly = c.countingOnly := by
  cases frames : c.frames with
  | nil => simp [modifyFrame, countingOnly, frames]
  | cons frame rest => simp [modifyFrame, countingOnly, frames, Frame.isCounted, kinds]

theorem awaits_pushed (awaits : c.Awaits body code) (next : List Instruction)
    (type : Option TypeId) : (body.pushed next type c).Awaits body (next ++ c.frame.waitingCode) := by
  have counting : (body.pushed next type c).countingOnly = false :=
    (countingOnly_modifyFrame (·.taking _) fun _ => rfl).trans awaits.counting
  rw [pushed, modifyFrame_eq] at counting ⊢
  exact { awaits with session := rfl, counting := counting }

theorem flushReference_nil (literals : c.literals = []) :
    flushReference c = .ok ((), c, []) := by
  simp [flushReference, literals]

theorem loadVar_methodWith (var : LocalVar) :
    (body.methodWith code).loadVar var = body.methodWith (code ++ [var.load]) := by
  cases slot : var.slot <;>
    simp [MethodDraft.loadVar, LocalVar.load, slot, MethodDraft.emit, MethodDraft.append, methodWith]

theorem flushReference_name (awaits : c.Awaits body code) {name : String} {var : LocalVar}
    (found : body.session.lookupVar name = .ok (some var)) :
    flushReference { c with literals := [name] } =
      .ok ((), body.pushed (code ++ [var.load]) (some var.type) c, []) := by
  -- Forgetting the name leads back to the state before it was read.
  have cleared : ({ c with literals := [], expectLiteral := false } : Compiler) = c := by
    rw [← awaits.literals, ← awaits.expectLiteral]
  have loaded : (body.methodWith code).loadReference body.session.table (.var var) =
      .ok (var.type, body.methodWith (code ++ [var.load])) := by
    simp only [MethodDraft.loadReference, loadVar_methodWith]
  simp only [flushReference, takeName, resolveHere, clearName,
    bind_bind_apply, get_bind_apply, List.isEmpty_cons, Bool.false_eq_true, if_false,
    modify_bind_apply, pure_bind_apply, cleared, awaits.counting]
  simp only [awaits.session, awaits.usings, resolveReference_sessionWith body code found,
    lift_ok_bind_apply]
  rw [bind_eq (emitting_eq awaits.session loaded)]
  exact pushOperand_eq rfl _

/-- A token is acted on at once if nothing else waits for it. -/
theorem step_eq (quiet : c.Quiet) {token : Token} (notEnd : token.isEnd = false) :
    step token c = dispatch token c.retractable { c with retractable := none } := by
  simp [step, takeRetractable, checkEnd, quiet.needEnd, readBase,
    quiet.pendingExtends, readInterfaces, quiet.interfaces, notEnd]

theorem step_eq_dispatch (quiet : c.Quiet) (retractable : c.retractable = none) {token : Token}
    (notEnd : token.isEnd = false) : step token c = dispatch token none c := by
  have same : ({ c with retractable := none } : Compiler) = c := by rw [← retractable]
  rw [step_eq quiet notEnd, retractable, same]

end OpenBody

/-! ## Reading tokens -/

/-- Tokens are read one after the other without a problem, whatever tokens follow them. -/
inductive Reads : List Token → Compiler → Compiler → Prop where
  | nil {c : Compiler} : Reads [] c c
  | cons {token : Token} {tokens : List Token} {c c' : Compiler} (mid : Compiler) (notLine : token ≠ .newLine)
      (step : ∀ stream, step token { c with stream := stream } =
        .ok ((), { mid with stream := stream }, []))
      (rest : Reads tokens mid c') : Reads (token :: tokens) c c'

namespace Reads

variable {c mid c' : Compiler}

theorem single {token : Token} (notLine : token ≠ .newLine)
    (step : ∀ stream, step token { c with stream := stream } =
      .ok ((), { c' with stream := stream }, [])) : Reads [token] c c' :=
  cons c' notLine step nil

theorem append {first second : List Token} (before : Reads first c mid)
    (after : Reads second mid c') : Reads (first ++ second) c c' := by
  induction before with
  | nil => exact after
  | cons mid notLine step _ ih => exact cons mid notLine step (ih after)

end Reads

/-- The state after the tokens of an expression whose value is on the stack in the state `target`.
Two things can be left to the next token: the load of a variable, whose name could still be that of
a call, and taking back the result of a call that was dropped since nothing waited for it. -/
inductive Settled (body : OpenBody) (target : Compiler) : Compiler → Prop where
  | loaded : Settled body target target
  | named {c : Compiler} {code : List Instruction} {name : String} {var : LocalVar}
      (awaits : c.Awaits body code) (found : body.session.lookupVar name = .ok (some var))
      (pushed : body.pushed (code ++ [var.load]) (some var.type) c = target) :
      Settled body target { c with literals := [name] }
  | dropped {c : Compiler} {code next : List Instruction} {type : TypeId} (awaits : c.Awaits body code)
      (frames : c.frames = []) (idle : c.base.isIdle = true) (consume : c.consume = .normal)
      (pushed : body.pushed next (some type) c = target) :
      Settled body target
        { c with session := body.sessionWith (next ++ [⟨.pop, .none⟩]), retractable := some type }

namespace Settled

variable {body : OpenBody} {target c : Compiler} {code : List Instruction}

theorem withStream (settled : Settled body target c) (stream : List Token) :
    Settled body { target with stream := stream } { c with stream := stream } := by
  cases settled with
  | loaded => exact loaded
  | @named before _ _ _ awaits found pushed =>
    subst pushed
    exact @named body _ { before with stream := stream } _ _ _ { awaits with } found
      (OpenBody.pushed_withStream ..)
  | @dropped before _ _ _ awaits frames idle consume pushed =>
    subst pushed
    exact @dropped body _ { before with stream := stream } _ _ _ { awaits with } frames idle consume
      (OpenBody.pushed_withStream ..)

theorem withNesting (settled : Settled body target c) (nesting : Nesting) :
    Settled body { target with nesting := nesting } { c with nesting := nesting } := by
  cases settled with
  | loaded => exact loaded
  | @named before _ _ _ awaits found pushed =>
    subst pushed
    exact @named body _ { before with nesting := nesting } _ _ _ { awaits with } found
      (OpenBody.pushed_withNesting ..)
  | @dropped before _ _ _ awaits frames idle consume pushed =>
    subst pushed
    exact @dropped body _ { before with nesting := nesting } _ _ _ { awaits with } frames
      idle consume (OpenBody.pushed_withNesting ..)

/-- Inside a bracket or behind an assignment or `return`, no result is dropped. -/
theorem not_dropped {before : Compiler} {next : List Instruction} {type : TypeId}
    (frames : before.frames = []) (consume : before.consume = .normal)
    (pushed : body.pushed next (some type) before = target)
    (waited : target.frames ≠ [] ∨ target.consume ≠ .normal) : False := by
  subst pushed
  simp [OpenBody.pushed, modifyFrame_eq, frames, consume] at waited

/-- Where no result is dropped, the value is on the stack as soon as a token asks for it. -/
theorem flush (settled : Settled body target c) (awaits : target.Awaits body code)
    (waited : target.frames ≠ [] ∨ target.consume ≠ .normal) :
    flushReference c = .ok ((), target, []) := by
  cases settled with
  | loaded => exact OpenBody.flushReference_nil awaits.literals
  | named before found pushed => rw [OpenBody.flushReference_name before found, pushed]
  | dropped before frames idle consume pushed =>
    exact (not_dropped frames consume pushed waited).elim

theorem facts (settled : Settled body target c) (awaits : target.Awaits body code)
    (waited : target.frames ≠ [] ∨ target.consume ≠ .normal) :
    c.Quiet ∧ c.retractable = none ∧ c.nesting = target.nesting ∧ c.consume = target.consume ∧
      c.frames.head?.map (·.kind) = target.frames.head?.map (·.kind) := by
  cases settled with
  | loaded => exact ⟨awaits.toQuiet, awaits.retractable, rfl, rfl, rfl⟩
  | @named before _ _ _ here found pushed =>
    subst pushed
    refine ⟨{ here with }, here.retractable, ?_, ?_, ?_⟩
    · simp only [OpenBody.pushed, modifyFrame_eq]
    · simp only [OpenBody.pushed, modifyFrame_eq]
    · cases frames : before.frames <;> simp [OpenBody.pushed, modifyFrame_eq, frames, Frame.taking]
  | dropped before frames idle consume pushed =>
    exact (not_dropped frames consume pushed waited).elim

end Settled

/-! ## Operators and signs -/

/-- Whether an operator stands between two values. -/
def Operator.isBinary : Operator → Bool
  | not | assign | addAssign | subAssign | mulAssign | divAssign | modAssign | convertTo | inc
      | dec => false
  | _ => true

variable {op : Operator} {plan : OperatorPlan}

theorem SymbolTable.isBinary_of_planned {table : SymbolTable} {lhs : Option TypeId}
    (planned : table.planOperator lhs op = .ok plan) : op.isBinary = true := by
  cases op with
  | add | sub | mul | div | mod | eq | notEq | and | or | xor | gt | lt | gtEq | ltEq | within | range
  | pow => rfl
  | not | assign | addAssign | subAssign | mulAssign | divAssign | modAssign | convertTo | inc | dec =>
    simp [planOperator, Operator.native?, throw, throwThe, MonadExceptOf.throw] at planned

namespace OpenBody

variable {body : OpenBody} {code : List Instruction} {c target : Compiler}

/-- An operator that stands between two values is neither a sign nor an assignment. -/
theorem operator_eq (isBinary : op.isBinary = true) (notSign : isSign c = false) :
    operator op none c = binary op c := by
  -- Only a minus depends on the state.
  cases op with
  | sub => simp [operator, notSign, Operator.compoundBase?]
  | add | mul | div | mod | eq | notEq | and | or | xor | gt | lt | gtEq | ltEq | within | range | pow =>
    simp [operator, Operator.compoundBase?]
  | not | assign | addAssign | subAssign | mulAssign | divAssign | modAssign | convertTo | inc | dec =>
    cases isBinary

/-- Once the value is on the stack, how it came there makes no difference. -/
theorem binary_flushed (flushed : flushReference c = .ok ((), target, []))
    (literals : target.literals = []) (op : Operator) : binary op c = binary op target := by
  simp only [binary, bind_eq flushed, bind_eq (flushReference_nil literals)]

theorem binary_eq (flushed : flushReference c = .ok ((), target, []))
    (awaits : target.Awaits body code) (planned : body.session.table.planOperator
      target.frame.operand op = .ok plan)
    (value : target.frame.hasValue = true) (waiting : target.frame.pendingOp = none) :
    binary op c = .ok ((), target.modifyFrame ({ · with pendingOp := some plan }), []) := by
  simp only [binary, bind_eq flushed, get_bind_apply, value, Bool.not_true,
    Bool.false_eq_true, if_false, waiting, awaits.session, table_sessionWith, planned,
    attempt_ok_bind_apply, modify_apply]

theorem operator_some {type : TypeId}
    (retracted : retractDiscard type c = .ok ((), target, [])) :
    operator op (some type) c = operator op none target := by
  simp only [operator, bind_eq retracted]

theorem retractDiscard_eq {next : List Instruction} {type : TypeId}
    (session : c.session = body.sessionWith (next ++ [⟨.pop, .none⟩])) (frames : c.frames = [])
    (idle : c.base.isIdle = true) :
    retractDiscard type c = .ok ((), body.pushed next (some type) c, []) := by
  simp only [retractDiscard, get_bind_apply, session, frames, List.isEmpty_nil, Bool.not_true,
    Bool.false_eq_true, if_false, currentMethod_sessionWith, lift_ok_bind_apply]
  have last : (body.methodWith (next ++ [⟨.pop, .none⟩])).last?.map (·.opcode) = some .pop := by
    simp [methodWith, MethodDraft.last?]
  have dropped : (body.methodWith (next ++ [⟨.pop, .none⟩])).dropLast = body.methodWith next := by
    simp [methodWith, MethodDraft.dropLast]
  obtain ⟨-, -, op, not, neg⟩ := Frame.isIdle_iff.mp idle
  have frame : c.frame = c.base := by simp only [frame, frames, List.head?_nil, Option.getD_none]
  simp only [last, BEq.rfl, if_true, dropped, setMethod_sessionWith, lift_ok_bind_apply,
    modify_bind_apply, modify_apply, modifyBase, pushed, modifyFrame, frames, frame,
    Frame.taking, Frame.waitingCode_eq_nil neg not op, Frame.waitingType_eq not op, List.append_nil,
      op, not, neg]
  rfl

end OpenBody

namespace Settled

variable {body : OpenBody} {target c : Compiler} {code : List Instruction}

/-- The three ways in which a value can be left come together at an operator. -/
theorem step_operator_eq (settled : Settled body target c) (awaits : target.Awaits body code)
    (isBinary : op.isBinary = true) (value : target.frame.hasValue = true)
    (waiting : target.frame.pendingOp = none) : step (.operator op) c = binary op target := by
  have notSign : isSign target = false := by
    simp [isSign, value, waiting]
  cases settled with
  | loaded =>
    rw [OpenBody.step_eq_dispatch awaits.toQuiet awaits.retractable rfl, dispatch,
      OpenBody.operator_eq isBinary notSign]
  | @named before _ name _ here found pushed =>
    -- A name in front of a minus makes it no sign, so that `isSign` is decided by the name alone.
    have quiet : ({ before with literals := [name] } : Compiler).Quiet := { here with }
    rw [OpenBody.step_eq_dispatch quiet here.retractable rfl, dispatch,
      OpenBody.operator_eq isBinary rfl]
    refine OpenBody.binary_flushed ?_ awaits.literals op
    rw [OpenBody.flushReference_name here found, pushed]
  | @dropped before _ next type here frames idle consume pushed =>
    -- The `pop` is taken back before the operator is looked at.
    have same : before = { before with retractable := none } := by rw [← here.retractable]
    rw [same] at pushed
    have retracted : retractDiscard type
        { before with session := body.sessionWith (next ++ [⟨.pop, .none⟩]), retractable := none } =
          .ok ((), target, []) := by
      rw [← pushed]
      exact OpenBody.retractDiscard_eq rfl frames idle
    have quiet : ({ before with
        session := body.sessionWith (next ++ [⟨.pop, .none⟩]), retractable := some type } :
            Compiler).Quiet :=
      { here with }
    rw [OpenBody.step_eq quiet rfl, dispatch, OpenBody.operator_some retracted,
      OpenBody.operator_eq isBinary notSign]

theorem step_operator (settled : Settled body target c) (awaits : target.Awaits body code)
    (planned : body.session.table.planOperator target.frame.operand op = .ok plan)
    (value : target.frame.hasValue = true) (waiting : target.frame.pendingOp = none) :
    step (.operator op) c = .ok ((), target.modifyFrame ({ · with pendingOp := some plan }), []) := by
  rw [settled.step_operator_eq awaits (SymbolTable.isBinary_of_planned planned) value waiting]
  exact OpenBody.binary_eq (OpenBody.flushReference_nil awaits.literals) awaits planned value waiting

theorem reads_operator (settled : Settled body target c) (awaits : target.Awaits body code)
    (planned : body.session.table.planOperator target.frame.operand op = .ok plan)
    (value : target.frame.hasValue = true) (waiting : target.frame.pendingOp = none) :
    Reads [.operator op] c (target.modifyFrame ({ · with pendingOp := some plan })) := by
  refine .single nofun fun stream => ?_
  have stepped := (settled.withStream stream).step_operator (awaits.withStream stream) planned
    value waiting
  rw [stepped]
  simp only [modifyFrame_eq]

end Settled

namespace OpenBody

variable {body : OpenBody} {code : List Instruction} {c : Compiler}

/-- The state after a sign. -/
def signed (sign : Sign) (c : Compiler) : Compiler := c.modifyFrame (·.signed sign)

theorem signed_none (neg : c.frame.pendingNeg = false) (not : c.frame.pendingNot = false) :
    signed .none c = c := by
  refine (modifyFrame_congr c ?_).trans c.modifyFrame_id
  generalize c.frame = frame at neg not
  cases frame
  simp_all [Frame.signed]

theorem step_minus (awaits : c.Awaits body code) (neg : c.frame.pendingNeg = false)
    (not : c.frame.pendingNot = false) (first : c.frame.hasValue = false ∨ c.frame.pendingOp.isSome) :
    step (.operator .sub) c = .ok ((), signed .minus c, []) := by
  have isSign : isSign c = true := by
    rcases first with empty | waiting
    · simp [isSign, awaits.literals, empty]
    · simp [isSign, awaits.literals, waiting]
  rw [step_eq_dispatch awaits.toQuiet awaits.retractable rfl, dispatch]
  simp only [operator, get_bind_apply, isSign, BEq.rfl, Bool.and_true, if_true, modify_apply]
  congr 3
  exact modifyFrame_congr c (by simp [Frame.signed, neg, not])

theorem step_not (awaits : c.Awaits body code) (neg : c.frame.pendingNeg = false)
    (not : c.frame.pendingNot = false) :
    step (.operator .not) c = .ok ((), signed .not c, []) := by
  rw [step_eq_dispatch awaits.toQuiet awaits.retractable rfl, dispatch]
  simp only [operator, bind_eq (flushReference_nil awaits.literals), modify_apply]
  congr 3
  exact modifyFrame_congr c (by simp [Frame.signed, neg, not])

theorem reads_sign (sign : Sign) (awaits : c.Awaits body code) (neg : c.frame.pendingNeg = false)
    (not : c.frame.pendingNot = false) (first : c.frame.hasValue = false ∨ c.frame.pendingOp.isSome) :
    Reads sign.tokens c (signed sign c) := by
  cases sign with
  | none =>
    rw [signed_none neg not]
    exact .nil
  | minus =>
    refine .single nofun fun stream => ?_
    rw [step_minus (awaits.withStream stream) neg not first]
    simp only [signed, modifyFrame_eq]
  | not =>
    refine .single nofun fun stream => ?_
    rw [step_not (awaits.withStream stream) neg not]
    simp only [signed, modifyFrame_eq]

theorem awaits_modifyFrame (awaits : c.Awaits body code) (change : Frame → Frame)
    (kinds : ∀ frame, (change frame).kind = frame.kind) :
    (c.modifyFrame change).Awaits body code := by
  have counting : (c.modifyFrame change).countingOnly = false :=
    (countingOnly_modifyFrame change kinds).trans awaits.counting
  rw [modifyFrame_eq] at counting ⊢
  exact { awaits with counting := counting }

end OpenBody

end OnePass
