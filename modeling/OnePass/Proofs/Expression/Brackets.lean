import OnePass.Proofs.Expression.Operands

/-! # Brackets

What the compiler does at the brackets of an expression: groups, calls, constructions and array
literals. -/

namespace OnePass

open Compile Compiler List

/-- One more open parenthesis. -/
def Nesting.inStatement (nesting : Nesting) : Nesting :=
  { nesting with statements := nesting.statements + 1 }

/-- One more open bracket of an array literal. -/
def Nesting.inSequence (nesting : Nesting) : Nesting :=
  { nesting with sequences := nesting.sequences + 1 }

/-- The state after a bracket was opened. -/
def Compiler.entered (c : Compiler) (nesting : Nesting) (kind : FrameKind) : Compiler :=
  { c with nesting := nesting, frames := { kind := kind } :: c.frames }

namespace OpenBody

variable {body : OpenBody} {code : List Instruction} {c : Compiler}

theorem awaits_entered (awaits : c.Awaits body code) (nesting : Nesting) {kind : FrameKind}
    (counted : Frame.isCounted { kind := kind } = false) :
    (c.entered nesting kind).Awaits body code := by
  have counting : (c.entered nesting kind).countingOnly = false := by
    simpa [entered, countingOnly, counted] using awaits.counting
  exact { awaits with counting := counting }

theorem position_eq (body : OpenBody) (code : List Instruction)
    (session : c.session = body.sessionWith code) : position? c = .ok (some code.length, c, []) := by
  simp only [position?, get_bind_apply, session, currentMethod_sessionWith,
    lift_ok_bind_apply]
  rfl

/-! ## Names and constants -/

theorem step_value (awaits : c.Awaits body code) (value : Literal) :
    step (.value value) c =
      .ok ((), body.pushed (code ++ [.ofLiteral value])
        (some (body.session.table.literalType value)) c, []) := by
  have loaded : (Except.ok ((body.methodWith code).loadConstant body.session.table value) :
      Except Failure (TypeId × MethodDraft)) =
        .ok (body.session.table.literalType value, body.methodWith (code ++ [.ofLiteral value])) := rfl
  rw [step_eq_dispatch awaits.toQuiet awaits.retractable rfl, dispatch]
  simp only [Compile.value, bind_eq (flushReference_nil awaits.literals), get_bind_apply,
    awaits.counting, Bool.false_eq_true, if_false]
  refine (bind_eq (emitting_eq awaits.session loaded)).trans ?_
  exact pushOperand_eq rfl _

theorem step_literal (quiet : c.Quiet) (retractable : c.retractable = none)
    (next : c.literals = [] ∨ c.expectLiteral = true) (text : String) :
    step (.literal text) c =
      .ok ((), { c with literals := c.literals ++ [text], expectLiteral := false }, []) := by
  have noFlush : (!c.literals.isEmpty && !c.expectLiteral) = false := by
    rcases next with first | expected
    · simp [first]
    · simp [expected]
  rw [step_eq_dispatch quiet retractable rfl, dispatch]
  simp only [literal, get_bind_apply, quiet.inDirective, Bool.false_eq_true, if_false, noFlush,
    modify_apply]

theorem step_dot (quiet : c.Quiet) (retractable : c.retractable = none) (begun : c.literals ≠ []) :
    step (.separator .member) c = .ok ((), { c with expectLiteral := true }, []) := by
  have notEmpty : c.literals.isEmpty = false := by simpa using begun
  rw [step_eq_dispatch quiet retractable rfl, dispatch]
  simp only [memberSeparator, get_bind_apply, notEmpty, Bool.false_eq_true, if_false,
    modify_apply]

theorem reads_path (quiet : c.Quiet) (retractable : c.retractable = none)
    (next : c.literals = [] ∨ c.expectLiteral = true) (owner : List String) (name : String) :
    Reads (pathTokens owner name) c
      { c with literals := c.literals ++ (owner ++ [name]), expectLiteral := false } := by
  induction owner generalizing c with
  | nil =>
    exact .single nofun fun stream => step_literal (quiet.withStream stream) retractable next name
  | cons segment owner ih =>
    -- The segment and its dot leave a name that asks for another segment.
    let begun : Compiler := { c with literals := c.literals ++ [segment], expectLiteral := false }
    let dotted : Compiler := { begun with expectLiteral := true }
    have rest : Reads (pathTokens owner name) dotted _ := ih { quiet with } retractable (.inr rfl)
    rw [append_assoc] at rest
    refine .cons begun nofun
      (fun stream => step_literal (quiet.withStream stream) retractable next segment) ?_
    refine .cons dotted nofun (fun stream => ?_) rest
    exact step_dot { quiet with } retractable (by simp [begun])

theorem reads_path_first (quiet : c.Quiet) (retractable : c.retractable = none)
    (literals : c.literals = []) (expectLiteral : c.expectLiteral = false) (owner : List String)
    (name : String) : Reads (pathTokens owner name) c { c with literals := owner ++ [name] } := by
  have read := reads_path quiet retractable (.inl literals) owner name
  rwa [literals, nil_append, ← expectLiteral] at read

/-- A name alone is remembered until it is known what it stands for. -/
theorem reads_name (awaits : c.Awaits body code) (name : String) :
    Reads [.literal name] c { c with literals := [name] } :=
  reads_path_first awaits.toQuiet awaits.retractable awaits.literals awaits.expectLiteral [] name

/-! ## Groups -/

theorem step_openGroup (awaits : c.Awaits body code) :
    step (.statement true) c = .ok ((), c.entered c.nesting.inStatement .group, []) := by
  rw [step_eq_dispatch awaits.toQuiet awaits.retractable rfl, dispatch]
  simp only [openStatement, modify_bind_apply, get_bind_apply, awaits.literals,
    isEmpty_nil, Bool.true_or, if_true, awaits.pendingNew, Bool.false_eq_true, if_false,
    modify_apply, pushFrame, entered, Nesting.inStatement]

/-! ## Opening calls and constructions -/

theorem step_new (awaits : c.Awaits body code) :
    step .new c = .ok ((), { c with pendingNew := true }, []) := by
  rw [step_eq_dispatch awaits.toQuiet awaits.retractable rfl, dispatch, modify_apply]

theorem step_openNamed (awaits : c.Awaits body code) {path : List String} (named : path ≠ [])
    {new : Bool} {kind : FrameKind} (opens : if new then
        kind = .construct (body.session.table.resolveType (dotted path) body.usings) (dotted path)
          (some code.length)
      else ∃ site, body.session.resolveCallSite path body.usings = .ok site ∧
        kind = .call site (some code.length)) :
    step (.statement true) { c with literals := path, pendingNew := new } =
      .ok ((), c.entered c.nesting.inStatement kind, []) := by
  have notEmpty : path.isEmpty = false := by simpa using named
  have quiet : ({ c with literals := path, pendingNew := new } : Compiler).Quiet := { awaits with }
  rw [step_eq_dispatch quiet awaits.retractable rfl, dispatch]
  simp only [openStatement, takeName, bind_bind_apply, modify_bind_apply,
    get_bind_apply, notEmpty, awaits.expectLiteral, Bool.or_self, Bool.false_eq_true, if_false,
    pure_bind_apply]
  refine (bind_eq (position_eq body code ?_)).trans ?_
  · exact awaits.session
  cases new <;> simp only [if_true, Bool.false_eq_true, if_false] at opens
  · obtain ⟨site, resolved, rfl⟩ := opens
    simp only [awaits.session, awaits.usings, resolveCallSite_sessionWith, resolved,
      lift_ok_bind_apply, modify_apply, pushFrame, Compiler.clearName, entered, Nesting.inStatement,
      awaits.literals, awaits.expectLiteral, awaits.pendingNew, Bool.false_eq_true, if_false]
  · simp only [opens, awaits.session, awaits.usings, table_sessionWith, modify_apply, pushFrame,
      Compiler.clearName, entered, Nesting.inStatement, awaits.literals, awaits.expectLiteral,
      awaits.pendingNew, if_true]

end OpenBody

/-! ## Closing parentheses -/

/-- What a closing parenthesis does with its frame. -/
def Frame.close (frame : Frame) : Compile Unit :=
  match frame.kind with
  | .base | .group | .sequence .. => finishGroup frame
  | .call site start => emitCall site start frame.finishArg.args
  | .construct type name start => emitConstruct type name start frame.finishArg.args

/-- Whether the innermost bracket is that of an array depends on its kind. -/
theorem any_isSequence_congr {frames others : List Frame}
    (kinds : frames.head?.map (·.kind) = others.head?.map (·.kind)) :
    frames.head?.any (·.isSequence) = others.head?.any (·.isSequence) := by
  cases frames <;> cases others <;> simp_all [Frame.isSequence]

theorem Settled.step_close {body : OpenBody} {target c : Compiler} {code : List Instruction}
    (settled : Settled body target c) (awaits : target.Awaits body code) {frame : Frame}
    {rest : List Frame} (frames : target.frames = frame :: rest)
    (noArray : frame.isSequence = false) {outside : Nesting}
    (nesting : target.nesting = outside.inStatement) :
    step (.statement false) c = frame.close { target with nesting := outside, frames := rest } := by
  have inside : target.frames ≠ [] ∨ target.consume ≠ .normal := .inl (by simp [frames])
  obtain ⟨quiet, retractable, same, -, kinds⟩ := settled.facts awaits inside
  -- The bracket is counted off before the value is loaded, hence the change of the nesting.
  have flushed := (settled.withNesting outside).flush { awaits with } inside
  have notArray : c.frames.head?.any (·.isSequence) = false := by
    simpa [any_isSequence_congr kinds, frames] using noArray
  have opened : (c.nesting.statements == 0) = false := by simp [same, nesting, Nesting.inStatement]
  have closed : { c.nesting with statements := c.nesting.statements - 1 } = outside := by
    simp [same, nesting, Nesting.inStatement]
  rw [OpenBody.step_eq_dispatch quiet retractable rfl, dispatch]
  simp only [closeStatement, get_bind_apply, opened, notArray, Bool.false_eq_true, if_false,
    modify_bind_apply, closed]
  rw [bind_eq flushed]
  simp only [get_bind_apply, frames, modify_bind_apply]
  rfl

/-! ## Groups and calls become values -/

namespace OpenBody

variable {body : OpenBody} {code : List Instruction} {c : Compiler} {ref : MemberRef}

theorem close_group {frame : Frame} (kind : frame.kind = .group) (waiting : frame.pendingOp = none)
    (value : frame.depth > 0) (session : c.session = body.sessionWith code) :
    frame.close c = .ok ((), body.pushed code frame.operand c, []) := by
  simp only [Frame.close, kind, finishGroup, waiting, value, if_true]
  exact pushOperand_eq session _

theorem toOption_eq_some {ε α : Type} {result : Except ε α} {a : α} :
    result.toOption = some a ↔ result = .ok a := by
  cases result <;> simp [Except.toOption]

theorem lift_ok {α : Type} (a : α) : (liftM (Except.ok a : Except Fault α) : Except Failure α) =
      .ok a := rfl

theorem ok_bind {ε α β : Type} (a : α) (next : α → Except ε β) :
    (Except.ok a >>= next) = next a := rfl

theorem callee_eq_some {scope : Scope} {path : List String} {args : List (Option TypeId)}
    {callee : Callee} (found : scope.callee? path args = some callee) :
    ∃ site ref method, scope.session.resolveCallSite path scope.usings = .ok site ∧
      scope.session.resolveCallee site args = .ok ref ∧ scope.session.table.method ref = .ok method ∧
      scope.session.table.isVoid method.result = .ok false ∧
      receiverCode method site = some callee.receiver ∧
      callee.call = ⟨if method.isVirtual then .callvirt else .call, .method ref⟩ ∧
      callee.result = method.result := by
  simp only [Scope.callee?, Option.bind_eq_bind, Option.bind_eq_some_iff, toOption_eq_some] at found
  obtain ⟨site, resolved, ref, called, method, here, isVoid, result, receiver, receives, found⟩ :=
    found
  split at found
  · cases found
  · cases found
    exact ⟨site, ref, method, resolved, called, here, by simp_all, receives, rfl, rfl⟩

theorem callCode_eq {method : MethodDef} {site : CallSite} {receiver args : List Instruction}
    (receives : receiverCode method site = some receiver)
    (found : body.session.table.method ref = .ok method)
    (result : body.session.table.isVoid method.result = .ok false) (discard : Bool) :
    callCode (if method.isStatic then none else site.receiver?) (some code.length) ref discard
        body.session.table (body.methodWith (code ++ args)) =
      .ok (if discard then none else some method.result,
        body.methodWith (code ++ (receiver ++ args ++
          [⟨if method.isVirtual then .callvirt else .call, .method ref⟩]) ++
          if discard then [⟨.pop, .none⟩] else [])) := by
  -- The call itself does not depend on where the receiver came from.
  have called (before : List Instruction) : (body.methodWith before).call body.session.table
      ref discard = .ok (if discard then none else some method.result,
        body.methodWith (before ++ [⟨if method.isVirtual then .callvirt else .call, .method ref⟩] ++
          if discard then [⟨.pop, .none⟩] else [])) := by
    cases discard <;>
      simp [MethodDraft.call, found, result, MethodDraft.emit, MethodDraft.append, methodWith, bind,
        Except.bind, pure, Except.pure]
  unfold receiverCode at receives
  split at receives
  · rename_i isStatic
    cases receives
    simp only [callCode, isStatic, if_true, pure_bind, called, lift_ok, nil_append,
      append_assoc]
  · rename_i var isStatic onVar
    cases receives
    -- The code of the arguments is cut off, the receiver is loaded, and the code is put back.
    have args_eq : (body.methodWith (code ++ args)).tail code.length = args := by
      simp [methodWith, MethodDraft.tail]
    have cut_eq : (body.methodWith (code ++ args)).cut code.length = body.methodWith code := by
      simp [methodWith, MethodDraft.cut]
    have appended : (body.methodWith (code ++ [var.load])).append args =
        body.methodWith (code ++ [var.load] ++ args) := rfl
    simp only [callCode, isStatic, Bool.false_eq_true, if_false, onVar, Option.getD_some,
      args_eq, cut_eq, MethodDraft.loadReceiver, loadVar_methodWith, lift_ok, ok_bind, pure_bind,
        appended, called,
      append_assoc]
  · cases receives

/-- The state after a call. The method has then the given code; if nothing waits for the result it
is dropped, and may be taken back. -/
def called (body : OpenBody) (code : List Instruction) (type : TypeId) (c : Compiler) : Compiler :=
  if c.frames.isEmpty && c.consume == .normal && c.base.isIdle then
    { c with session := body.sessionWith (code ++ [⟨.pop, .none⟩]), retractable := some type }
  else body.pushed code (some type) c

theorem called_withStream (type : TypeId) (stream : List Token) :
    body.called code type { c with stream := stream } =
    { body.called code type c with stream := stream } := by
  unfold called
  split
  · rfl
  · exact pushed_withStream ..

theorem settled_called (awaits : c.Awaits body code) (next : List Instruction) (type : TypeId) :
    Settled body (body.pushed next (some type) c) (body.called next type c) := by
  unfold called
  split
  · rename_i discard
    simp only [Bool.and_eq_true, List.isEmpty_iff, beq_iff_eq] at discard
    obtain ⟨⟨frames, consume⟩, idle⟩ := discard
    exact .dropped awaits frames idle consume rfl
  · exact .loaded

theorem emitCall_eq {method : MethodDef} {site : CallSite} {receiver args : List Instruction}
    {types : List (Option TypeId)} (session : c.session = body.sessionWith (code ++ args))
    (resolved : body.session.resolveCallee site types = .ok ref)
    (found : body.session.table.method ref = .ok method)
    (result : body.session.table.isVoid method.result = .ok false)
    (receives : receiverCode method site = some receiver) :
    emitCall site (some code.length) types c =
      .ok ((), body.called (code ++ (receiver ++ args ++
        [⟨if method.isVirtual then .callvirt else .call, .method ref⟩])) method.result c, []) := by
  have emitted (discard : Bool) := emitting_eq session (callCode_eq receives found result discard)
  simp only [emitCall, get_bind_apply, session, resolveCallee_sessionWith, resolved,
    attempt_ok_bind_apply, table_sessionWith, found, result, lift_ok_bind_apply, called]
  -- The compiler decides before the call whether anything waits for the result.
  by_cases discard : (c.frames.isEmpty && c.consume == .normal && c.base.isIdle) = true
  · simp only [discard]
    rw [bind_eq (emitted true)]
    rfl
  · rw [Bool.not_eq_true] at discard
    simp only [discard]
    rw [bind_eq (emitted false)]
    simp only [Bool.false_eq_true, if_false, append_nil]
    exact pushOperand_eq rfl _

theorem emitConstruct_eq {type : TypeId} {name : String} {start : Option Nat}
    {types : List (Option TypeId)} (session : c.session = body.sessionWith code)
    (found : body.session.table.findCtor type types = .ok (some ref)) :
    emitConstruct (some type) name start types c =
      .ok ((), body.pushed (code ++ [⟨.newobj, .ctor ref⟩]) (some ref.owner) c, []) := by
  have constructed : (body.methodWith code).constructFrom body.session.table type types =
      .ok (ref.owner, body.methodWith (code ++ [⟨.newobj, .ctor ref⟩])) := by
    simp only [MethodDraft.constructFrom, found, lift_ok, ok_bind]
    rfl
  simp only [emitConstruct]
  rw [bind_eq (emitting_eq session constructed)]
  exact pushOperand_eq rfl _

end OpenBody

end OnePass
