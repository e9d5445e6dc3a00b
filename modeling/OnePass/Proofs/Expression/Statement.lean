import OnePass.Proofs.Expression.Reading

/-! # Statements

A statement is an expression and what becomes of its value: it is dropped, returned, or stored to a
variable. At the end of the expression the value may be in any of the three states of `Settled`. A
value that something waits for is taken by one instruction (`OpenBody.Consumes`); another one is
dropped, if that was not already done.

The main result is `Build.run_statement`: reading the tokens of a statement appends exactly the code
that `Use.compile` gives by recursion on the syntax. -/

namespace OnePass

open Compile OpenBody List

/-! ## The end of an expression -/

namespace OpenBody

variable {body : OpenBody} {code : List Instruction} {c target : Compiler}

theorem step_end (quiet : c.Quiet) (consume : c.consume = .normal) :
    step .expressionEnd c = expressionEnd { c with retractable := none } := by
  simp [step, takeRetractable, checkEnd, quiet.needEnd, readBase,
    quiet.pendingExtends, readInterfaces, quiet.interfaces, consume, dispatch]

/-- A value that is to be stored or returned is so before the expression ends. -/
theorem step_end_consume (quiet : c.Quiet) (retractable : c.retractable = none)
    (consume : c.consume ≠ .normal) (finished : finishConsume c = .ok ((), target, [])) :
    step .expressionEnd c = expressionEnd target := by
  have same : ({ c with retractable := none } : Compiler) = c := by rw [← retractable]
  have waits : (c.consume != .normal && Token.isEnd .expressionEnd) = true := by simp [consume,
    Token.isEnd]
  simp only [step, takeRetractable, bind_bind_apply, get_bind_apply,
    modify_bind_apply, pure_bind_apply, same]
  simp only [checkEnd, readBase, readInterfaces, bind_bind_apply,
    get_bind_apply, pure_bind_apply, quiet.needEnd, quiet.pendingExtends, quiet.interfaces,
    Bool.not_false, if_true, Bool.false_eq_true, if_false, waits, bind_eq finished, dispatch]

theorem emit_eq (session : c.session = body.sessionWith code) {work : MethodDraft → MethodDraft}
    {next : List Instruction} (worked : work (body.methodWith code) = body.methodWith next) :
    emit work c = .ok ((), { c with session := body.sessionWith next }, []) := by
  refine bind_eq (a := .done ()) (emitting_eq session ?_)
  rw [worked]

theorem endExpression_eq (flushed : flushReference c = .ok ((), target, []))
    (session : target.session = body.sessionWith code) (waiting : target.base.pendingOp = none)
    (pendingNew : target.pendingNew = false) :
    endExpression c = .ok ((),
      { target with
        session := body.sessionWith (code ++ replicate target.base.depth ⟨.pop, .none⟩)
        base := .fresh
        lastDeclared := none }, []) := by
  simp only [endExpression, dropValues, forgetWaiting, bind_eq flushed,
    get_bind_apply, modify_bind_apply, waiting]
  by_cases left : target.base.depth > 0
  · have appended : (body.methodWith code).append (replicate target.base.depth ⟨.pop, .none⟩) =
        body.methodWith (code ++ replicate target.base.depth ⟨.pop, .none⟩) := rfl
    have dropped : ({ target with base := .fresh } : Compiler).session = body.sessionWith code :=
      session
    simp only [left, if_true]
    rw [bind_eq (emit_eq dropped appended)]
    simp only [get_bind_apply, pendingNew, Bool.false_eq_true, if_false, modify_apply]
  · have empty : target.base.depth = 0 := by omega
    simp [empty, pendingNew, ← session]

theorem expressionEnd_eq (ended : endExpression c = .ok ((), target, []))
    (session : target.session = body.sessionWith code) (typeBegun : body.type.initializing = false)
    (methodBegun : body.method.paramsOpen = false) : expressionEnd c = .ok ((), target, []) := by
  have type : (body.typeWith code).initializing = false := typeBegun
  have method : (body.typeWith code).currentMethod?.any (·.paramsOpen) = false := methodBegun
  simp only [expressionEnd, bind_eq ended, get_bind_apply, session, currentType_sessionWith,
    lift_ok_bind_apply, type, method, Bool.false_eq_true, if_false, pure_apply]

/-! ## Storing and returning -/

variable (body) in
/-- One instruction takes the value of an expression for what waits for it. -/
def Consumes (consume : Consume) (last : Instruction) : Prop :=
  ∀ ⦃c target : Compiler⦄ ⦃code : List Instruction⦄, flushReference c = .ok ((), target, []) →
    target.session = body.sessionWith code → target.consume = consume → target.base.pendingOp = none →
    target.base.depth = 1 →
    ∃ base : Frame, base.depth = 0 ∧ base.pendingOp = none ∧
      finishConsume c = .ok ((),
        { target with session := body.sessionWith (code ++ [last]), base := base, consume := .normal }, [])

theorem consumes_ret : body.Consumes .ret ⟨.ret, .none⟩ := by
  intro c target code flushed session consume _ _
  refine ⟨target.base.resetOperand, rfl, rfl, ?_⟩
  have returned : (body.methodWith code).emit .ret = body.methodWith (code ++ [⟨.ret, .none⟩]) := rfl
  have here : ({ target with consume := .normal } : Compiler).session = body.sessionWith code :=
    session
  simp only [finishConsume, bind_eq flushed, get_bind_apply, modify_bind_apply,
    consume]
  rw [bind_eq (emit_eq here returned)]
  rfl

theorem storeVar_eq {var : LocalVar} {instruction : Instruction}
    (stores : var.store? = some instruction) :
    (body.methodWith code).storeVar var = .ok (body.methodWith (code ++ [instruction])) := by
  unfold LocalVar.store? at stores
  split at stores <;> cases stores <;>
    simp_all [LocalVar.store, MethodDraft.storeVar, MethodDraft.markAssigned, MethodDraft.emit,
      MethodDraft.append, methodWith,
      bind, Except.bind, pure, Except.pure]

theorem takeTarget_eq (awaits : c.Awaits body code) {name : String} {var : LocalVar}
    (found : body.session.lookupVar name = .ok (some var)) :
    takeTarget { c with literals := [name] } = .ok (some (.var var), c, []) := by
  have cleared : ({ c with literals := [], expectLiteral := false } : Compiler) = c := by
    rw [← awaits.literals, ← awaits.expectLiteral]
  simp only [takeTarget, takeName, resolveHere, Compiler.clearName, bind_bind_apply,
    get_bind_apply, isEmpty_cons, Bool.false_eq_true, if_false, modify_bind_apply,
    pure_bind_apply, cleared]
  simp only [awaits.session, awaits.usings, resolveReference_sessionWith body code found,
    lift_ok_bind_apply, pure_apply]

theorem consumes_assign {var : LocalVar} {instruction : Instruction}
    (stores : var.store? = some instruction) :
    body.Consumes (.assign (some (.var var))) instruction := by
  intro c target code flushed session consume waiting value
  refine ⟨{ target.base with depth := 0 }, rfl, waiting, ?_⟩
  have stored : (do return ((), ← (body.methodWith code).storeVar var) : Except Failure
      (Unit × MethodDraft)) = .ok ((), body.methodWith (code ++ [instruction])) := by
    rw [storeVar_eq stores]
    rfl
  have here : ({ target with consume := .normal } : Compiler).session = body.sessionWith code :=
    session
  have hasValue : target.base.hasValue = true := by simp [Frame.hasValue, value]
  simp only [finishConsume, bind_eq flushed, get_bind_apply, modify_bind_apply,
    consume, store, waiting, hasValue, value, Option.isSome_none, Bool.false_eq_true, if_false,
      Bool.not_true]
  refine (bind_eq (emitting_eq here stored)).trans ?_
  simp only [modify_apply, Compiler.modifyBase, value, waiting]

end OpenBody

/-! ## Statements -/

namespace Settled

variable {body : OpenBody} {target c : Compiler} {code : List Instruction}

theorem step_end (settled : Settled body target c) (awaits : target.Awaits body code)
    (frames : target.frames = []) (consume : target.consume = .normal)
    (value : target.base.depth = 1) (waiting : target.base.pendingOp = none)
    (typeBegun : body.type.initializing = false) (methodBegun : body.method.paramsOpen = false) :
    step .expressionEnd c = .ok ((),
      { target with
        session := body.sessionWith (code ++ [⟨.pop, .none⟩])
        base := .fresh
        lastDeclared := none }, []) := by
  -- Whether the value is on the stack or its name is still to be loaded, it is dropped now.
  have drops {before : Compiler} (flushed : flushReference before = .ok ((), target, [])) :
      expressionEnd before = .ok ((),
        { target with
          session := body.sessionWith (code ++ [⟨.pop, .none⟩]), base := .fresh, lastDeclared :=
              none }, []) := by
    have ended := OpenBody.endExpression_eq flushed awaits.session waiting awaits.pendingNew
    rw [value, replicate_one] at ended
    exact OpenBody.expressionEnd_eq ended rfl typeBegun methodBegun
  cases settled with
  | loaded =>
    have same : ({ target with retractable := none } : Compiler) =
      target := by rw [← awaits.retractable]
    rw [OpenBody.step_end awaits.toQuiet consume, same]
    exact drops (flushReference_nil awaits.literals)
  | @named before _ name _ here found pushed =>
    have quiet : ({ before with literals := [name] } : Compiler).Quiet := { here with }
    have normal : before.consume = .normal := by
      simpa [← pushed, OpenBody.pushed, Compiler.modifyFrame_eq] using consume
    have same : ({ before with literals := [name], retractable := none } : Compiler) =
        { before with literals := [name] } := by rw [← here.retractable]
    rw [OpenBody.step_end quiet normal, same]
    exact drops (by rw [flushReference_name here found, pushed])
  | @dropped before _ next type here noFrames idle normal pushed =>
    -- The `pop` is already there: the end of the expression finds nothing to drop.
    have frame : before.frame = before.base := by simp [Compiler.frame, noFrames]
    rw [OpenBody.pushed_of_idle (frame ▸ idle), Compiler.modifyFrame_eq] at pushed
    subst pushed
    have code_eq : next = code := body.sessionWith_injective awaits.session
    obtain ⟨depth, -, noOp, -, -⟩ := Frame.isIdle_iff.mp idle
    let done : Compiler :=
      { before with session := body.sessionWith (next ++ [⟨.pop, .none⟩]), retractable := none }
    have flushed : flushReference done = .ok ((), done, []) := flushReference_nil here.literals
    have ended := OpenBody.endExpression_eq flushed rfl noOp here.pendingNew
    rw [show done.base.depth = 0 from depth, replicate_zero, append_nil] at ended
    have quiet : ({ before with
        session := body.sessionWith (next ++ [⟨.pop, .none⟩]), retractable := some type } :
            Compiler).Quiet :=
      { here with }
    rw [OpenBody.step_end quiet normal]
    refine (OpenBody.expressionEnd_eq ended rfl typeBegun methodBegun).trans ?_
    simp only [done, code_eq, noFrames, modifyHead_nil, here.retractable]

theorem step_end_consumed (settled : Settled body target c) (awaits : target.Awaits body code)
    {consume : Consume} {last : Instruction} (consumes : body.Consumes consume last)
    (notNormal : consume ≠ .normal) (waits : target.consume = consume)
    (value : target.base.depth = 1) (waiting : target.base.pendingOp = none)
    (typeBegun : body.type.initializing = false) (methodBegun : body.method.paramsOpen = false) :
    step .expressionEnd c = .ok ((),
      { target with
        session := body.sessionWith (code ++ [last])
        base := .fresh
        consume := .normal
        lastDeclared := none }, []) := by
  have waited : target.consume ≠ .normal := waits ▸ notNormal
  obtain ⟨quiet, retractable, -, same, -⟩ := settled.facts awaits (.inr waited)
  obtain ⟨base, empty, noOp, finished⟩ :=
    consumes (settled.flush awaits (.inr waited)) awaits.session waits waiting value
  rw [OpenBody.step_end_consume quiet retractable (same ▸ waited) finished]
  -- What waited has taken the value, so that the expression ends on an empty stack.
  let done : Compiler :=
    { target with session := body.sessionWith (code ++ [last]), base := base, consume := .normal }
  have flushed : flushReference done = .ok ((), done, []) := flushReference_nil awaits.literals
  have ended := OpenBody.endExpression_eq flushed rfl noOp awaits.pendingNew
  rw [show done.base.depth = 0 from empty, replicate_zero, append_nil] at ended
  exact OpenBody.expressionEnd_eq ended rfl typeBegun methodBegun

end Settled

/-- The open body with more code. -/
def OpenBody.extend (body : OpenBody) (code : List Instruction) : OpenBody where
  session := body.sessionWith (body.method.code ++ code)
  usings := body.usings
  index := body.index
  type := body.typeWith (body.method.code ++ code)
  method := body.methodWith (body.method.code ++ code)
  current := body.current_sessionWith _
  open_eq := rfl

/-- The body of a method is open and nothing of an expression is under way. The bodies of the type
and of the method have both begun, so that a block that opens now is a plain one
(`Compile.blockOwner`) and the end of an expression closes neither. -/
structure Compiler.Rests (c : Compiler) (body : OpenBody) : Prop extends c.Quiet where
  session : c.session = body.session
  usings : c.usings = body.usings
  literals : c.literals = []
  expectLiteral : c.expectLiteral = false
  pendingNew : c.pendingNew = false
  retractable : c.retractable = none
  frames : c.frames = []
  idle : c.base.isIdle = true
  consume : c.consume = .normal
  typeBegun : body.type.initializing = false
  methodBegun : body.method.paramsOpen = false

namespace Compiler

variable {c : Compiler} {body : OpenBody}

theorem Rests.awaits (rests : c.Rests body) : c.Awaits body body.method.code :=
  { rests with
    session := rests.session.trans body.sessionWith_own.symm
    counting := by simp [countingOnly, rests.frames] }

/-- The state after a statement with some code. -/
def written (c : Compiler) (body : OpenBody) (code : List Instruction) : Compiler :=
  { c with
    session := (body.extend code).session
    base := .fresh
    lastDeclared := none }

theorem Awaits.withConsume {code : List Instruction} (awaits : c.Awaits body code)
    (consume : Consume) : ({ c with consume := consume } : Compiler).Awaits body code :=
  { awaits with }

end Compiler

theorem OpenBody.pushed_base {body : OpenBody} {c : Compiler} (frames : c.frames = [])
    (idle : c.base.isIdle = true) (code : List Instruction) (type : Option TypeId) :
    body.pushed code type c = { c with session := body.sessionWith code, base := c.base.taking type } := by
  have frame : c.frame = c.base := by simp [Compiler.frame, frames]
  rw [pushed_of_idle (frame ▸ idle), Compiler.modifyFrame_eq]
  simp [frames]

namespace Compiler.Rests

variable {body : OpenBody} {c : Compiler} (rests : c.Rests body)

include rests

theorem frame_idle : c.frame.isIdle = true := by
  have frame : c.frame = c.base := by simp [Compiler.frame, rests.frames]
  rw [frame, rests.idle]

theorem reads_dropped (expr : Expr) {value : Value}
    (compiled : expr.compile body.scope = some value) :
    Reads (expr.tokens ++ [.expressionEnd]) c (c.written body (value.code ++ [⟨.pop, .none⟩])) := by
  obtain ⟨depth, -, -, -, -⟩ := Frame.isIdle_iff.mp rests.idle
  obtain ⟨c', read, settled⟩ := Expr.yields expr compiled rests.awaits rests.frame_idle
  have awaits :=
    awaits_pushed_first rests.awaits rests.frame_idle (body.method.code ++ value.code) value.type
  rw [pushed_base rests.frames rests.idle] at settled awaits
  refine read.append (.single nofun fun stream => ?_)
  rw [(settled.withStream stream).step_end (awaits.withStream stream) rests.frames rests.consume
    (by simp [Frame.taking, depth]) rfl rests.typeBegun rests.methodBegun]
  simp only [written, extend, append_assoc]

theorem reads_consumed (expr : Expr) {value : Value}
    (compiled : expr.compile body.scope = some value) {consume : Consume} {last : Instruction}
    (consumes : body.Consumes consume last) (notNormal : consume ≠ .normal) :
    Reads (expr.tokens ++ [.expressionEnd]) { c with consume := consume }
      (c.written body (value.code ++ [last])) := by
  obtain ⟨depth, -, -, -, -⟩ := Frame.isIdle_iff.mp rests.idle
  have waits := rests.awaits.withConsume consume
  obtain ⟨c', read, settled⟩ := Expr.yields expr compiled waits rests.frame_idle
  have awaits := awaits_pushed_first waits rests.frame_idle (body.method.code ++ value.code)
    value.type
  have pushed := @pushed_base body { c with consume := consume } rests.frames rests.idle
  rw [pushed] at settled awaits
  refine read.append (.single nofun fun stream => ?_)
  rw [(settled.withStream stream).step_end_consumed (awaits.withStream stream) consumes
    notNormal rfl (by simp [Frame.taking, depth]) rfl rests.typeBegun rests.methodBegun]
  simp only [written, extend, append_assoc, rests.consume]

theorem reads_return : Reads [.returnValue] c { c with consume := .ret } := by
  refine .single nofun fun stream => ?_
  rw [step_eq_dispatch (rests.toQuiet.withStream stream) rests.retractable rfl]
  rfl

theorem reads_target {name : String} {var : LocalVar}
    (found : body.session.lookupVar name = .ok (some var)) (before : Consume) :
    Reads [.literal name, .operator .assign] { c with consume := before }
      { c with consume := .assign (some (.var var)) } := by
  have waits := rests.awaits.withConsume before
  refine (reads_name waits name).append (.single nofun fun stream => ?_)
  have awaits := waits.withStream stream
  have quiet : ({ c with consume := before, literals := [name], stream := stream } :
    Compiler).Quiet := { awaits with }
  have taken := OpenBody.takeTarget_eq awaits found
  rw [step_eq_dispatch quiet awaits.retractable rfl]
  simp only [dispatch, operator, bind_eq taken, modify_apply]

end Compiler.Rests

/-- A statement emits its code and leaves nothing under way. -/
theorem Use.reads {body : OpenBody} {c : Compiler} (rests : c.Rests body) (use : Use) (expr : Expr)
    {code : List Instruction} (compiled : use.compile body.scope expr = some code) :
    Reads (use.tokens expr) c (c.written body code) := by
  simp only [Use.compile, Option.bind_eq_bind, Option.bind_eq_some_iff] at compiled
  obtain ⟨value, valueCompiled, last, lastFound, compiled⟩ := compiled
  cases compiled
  cases use with
  | dropped =>
    cases lastFound
    exact rests.reads_dropped expr valueCompiled
  | returned =>
    cases lastFound
    exact rests.reads_return.append (rests.reads_consumed expr valueCompiled
      OpenBody.consumes_ret (by simp))
  | stored name =>
    simp only [Use.instruction?, Option.bind_eq_bind, Option.bind_eq_some_iff] at lastFound
    obtain ⟨var?, found, var, rfl, stores⟩ := lastFound
    have target := rests.reads_target (OpenBody.toOption_eq_some.mp found) c.consume
    exact target.append (rests.reads_consumed expr valueCompiled (OpenBody.consumes_assign stores)
      (by simp))

/-! ## Builds -/

/-- A token that is no line break and finds no problem changes the state only. -/
theorem Build.process_of_step {build : Build} {token : Token} {c : Compiler}
    (notLine : token ≠ .newLine) (stepped : step token build.compiler = .ok ((), c, [])) :
    build.process token = .ok { build with compiler := c } := by
  have sameLine : (token == .newLine) = false := by simpa using notLine
  simp [Build.process, stepped, sameLine, bind, Except.bind, pure, Except.pure]

/-- A build reads the tokens without a diagnostic and stays on its line. -/
theorem Reads.run {tokens : List Token} {c c' : Compiler} (read : Reads tokens c c') (build : Build)
    {rest : List Token} (compiler : build.compiler = { c with stream := tokens ++ rest })
    (fuel : Nat) : build.run (tokens.length + fuel) =
      Build.run fuel { build with compiler := { c' with stream := rest } } := by
  induction read generalizing build with
  | nil =>
    rw [List.length_nil, Nat.zero_add, ← List.nil_append rest, ← compiler]
  | @cons token tokens c c' mid notLine step read ih =>
    have stream : build.compiler.stream = token :: (tokens ++ rest) := by rw [compiler]; rfl
    have processed :
        Build.process { build with compiler := { build.compiler with stream := tokens ++ rest } } token =
        .ok { build with compiler := { mid with stream := tokens ++ rest } } := by
      refine Build.process_of_step notLine ?_
      rw [compiler]
      exact step (tokens ++ rest)
    rw [List.length_cons, Nat.add_right_comm, Build.run, stream]
    simp only [processed]
    exact ih _ rfl

/-- Nothing is under way after a statement, so that another one can follow. -/
theorem Compiler.Rests.written {body : OpenBody} {c : Compiler} (rests : c.Rests body)
    (code : List Instruction) (stream : List Token) :
    ({ c.written body code with stream := stream } : Compiler).Rests (body.extend code) :=
  { rests with session := rfl, idle := rfl }

namespace Counter

/-- A class `Counter` with a static method `Count`. -/
def table : SymbolTable where
  types := [.bare "Object" "System" .plain .host,
    { TypeDef.bare "Int32" "System" .struct .host with category := .int32 },
      .bare "Array" "System" .plain .host,
    { TypeDef.bare "Counter" "" .plain .declared with
      methods := [⟨"Count", [0], 1, true, false, .everywhere, {}⟩] }]
  names := [("Counter", 3)]
  wellKnown := { object := 0, int32 := 1, array := 2 }

/-- The body of the method, which has a local variable `x`. -/
def method : MethodDraft :=
  { slot := .method ⟨3, 0⟩, isStatic := true, paramsOpen := false
    declared := LocalTable.empty.add ⟨"x", 1, false, false⟩ }

/-- The class with the method open and current. -/
def body : OpenBody where
  session :=
    { options := {}, table := table, moduleName := "counter"
      drafts := [{ id := 3, openMethods := [method] }]
      openTypes := [0] }
  usings := []
  index := 0
  type := { id := 3, openMethods := [method] }
  method := method
  current := rfl
  open_eq := rfl

/-- `-Count([x, 1]) + (x)` -/
def expr : Expr :=
  .binary
    (.operand .minus (.call [] "Count" [.operand .none (.array [.operand .none (.var "x"),
      .operand .none (.constant (.int 1))])]))
    .add .none (.group (.operand .none (.var "x")))

/-- The code of `x = -Count([x, 1]) + (x)`. -/
def code : List Instruction :=
  [⟨.ldcI4, .i4 2⟩, ⟨.newarr, .type 1⟩,
    ⟨.dup, .none⟩, ⟨.ldcI4, .i4 0⟩, ⟨.ldloc, .loc 0⟩, ⟨.stelem, .type 1⟩,
    ⟨.dup, .none⟩, ⟨.ldcI4, .i4 1⟩, ⟨.ldcI4, .i4 1⟩, ⟨.stelem, .type 1⟩,
    ⟨.call, .method ⟨3, 0⟩⟩, ⟨.neg, .none⟩, ⟨.ldloc, .loc 0⟩, ⟨.add, .none⟩, ⟨.stloc, .loc 0⟩]

/-- Where the statement is about to be read. -/
def start : Build :=
  { compiler := { session := body.session, files := ⟨[], []⟩, stream := (Use.stored "x").tokens expr } }

/-- Nothing is under way at the start. -/
theorem start_rests : start.compiler.Rests body :=
  ⟨⟨rfl, rfl, rfl, rfl⟩, rfl, rfl, rfl, rfl, rfl, rfl, rfl, rfl, rfl, rfl, rfl⟩

end Counter

end OnePass
