import OnePass.Proofs.Expression.Lists

/-! # Reading expressions

The compiler has no syntax tree: it acts on every token at once. Here its work on the tokens of an
expression is tied to the code that the syntax gives by recursion. An operand is read in the same
way wherever one may begin, so the statement for it (`OpenBody.Yields`) speaks of every state that
awaits an operand; a whole expression is read where nothing of an expression came before it
(`OpenBody.YieldsFirst`), and lists inside a bracket that collects their values
(`OpenBody.YieldsAll`, `OpenBody.YieldsMore`). There is one lemma for each construct, and
`Expr.yields` assembles them by recursion on the syntax. -/

namespace OnePass

open OnePass.Frame List Compiler

namespace OpenBody

variable (body : OpenBody) {values : List Value} {tokens : List Token} {c : Compiler}

/-- Tokens put a value on the stack wherever an operand may begin. -/
def Yields (tokens : List Token) (value : Value) : Prop :=
  ∀ ⦃c : Compiler⦄ ⦃code : List Instruction⦄, c.Awaits body code →
    ∃ c', Reads tokens c c' ∧ Settled body (body.pushed (code ++ value.code) value.type c) c'

/-- Tokens put a value on the stack where nothing of an expression was read. -/
def YieldsFirst (tokens : List Token) (value : Value) : Prop :=
  ∀ ⦃c : Compiler⦄ ⦃code : List Instruction⦄, c.Awaits body code → c.frame.isIdle = true →
    ∃ c', Reads tokens c c' ∧ Settled body (body.pushed (code ++ value.code) value.type c) c'

/-- Tokens put values on the stack which the innermost bracket collects. The last value may still be
under way. -/
def YieldsAll (tokens : List Token) (values : List Value) : Prop :=
  ∀ ⦃c : Compiler⦄ ⦃code : List Instruction⦄ ⦃frame : Frame⦄ ⦃rest : List Frame⦄ ⦃kind : FrameKind⦄
    ⦃done : List Value⦄, c.Awaits body code → c.frames = frame :: rest →
      Collects done code.length kind frame →
    ∃ c' last, Reads tokens c c' ∧
      Settled body { c with
        session := body.sessionWith (code ++ values.flatMap (·.code)), frames := last :: rest } c' ∧
      Collects (done ++ values) (code ++ values.flatMap (·.code)).length kind
        (last.finished (code ++ values.flatMap (·.code)).length)

/-- Tokens put further values on the stack, each after a comma. -/
def YieldsMore (tokens : List Token) (values : List Value) : Prop :=
  ∀ ⦃target c : Compiler⦄ ⦃code : List Instruction⦄ ⦃frame : Frame⦄ ⦃rest : List Frame⦄
    ⦃kind : FrameKind⦄ ⦃done : List Value⦄, Settled body target c → target.Awaits body code →
      target.frames = frame :: rest →
    Collects done code.length kind (frame.finished code.length) →
    ∃ c' last, Reads tokens c c' ∧
      Settled body { target with
        session := body.sessionWith (code ++ values.flatMap (·.code)), frames := last :: rest } c' ∧
      Collects (done ++ values) (code ++ values.flatMap (·.code)).length kind
        (last.finished (code ++ values.flatMap (·.code)).length)

variable {body}

/-! ## Operands -/

theorem yields_constant (value : Literal) :
    body.Yields [.value value] ⟨[value.load], some (value.type body.session.table.wellKnown)⟩ := by
  have load : value.load = .ofLiteral value := by
    cases value with
    | bool value => cases value <;> rfl
    | _ => rfl
  have type : value.type body.session.table.wellKnown = body.session.table.literalType value := by
    cases value <;> rfl
  intro c code awaits
  rw [load, type]
  refine ⟨_, .single nofun fun stream => ?_, .loaded⟩
  rw [step_value (awaits.withStream stream), pushed_withStream]

theorem yields_var {name : String} {var : LocalVar}
    (found : body.session.lookupVar name = .ok (some var)) :
    body.Yields [.literal name] ⟨[var.load], some var.type⟩ := by
  intro c code awaits
  exact ⟨{ c with literals := [name] }, reads_name awaits name, .named awaits found rfl⟩

theorem awaits_pushed_first {code : List Instruction} (awaits : c.Awaits body code)
    (idle : c.frame.isIdle = true) (next : List Instruction) (type : Option TypeId) :
    (body.pushed next type c).Awaits body next := by
  obtain ⟨-, -, op, not, neg⟩ := isIdle_iff.mp idle
  have here := awaits_pushed awaits next type
  rwa [waitingCode_eq_nil neg not op, append_nil] at here

theorem pushed_entered (c : Compiler) (nesting : Nesting) (kind : FrameKind)
    (next : List Instruction) (type : Option TypeId) :
    body.pushed next type (c.entered nesting kind) =
      { c with
        session := body.sessionWith next
        nesting := nesting
        frames := taking { kind := kind } type :: c.frames } := by
  have frame : (c.entered nesting kind).frame = { kind := kind } := rfl
  rw [pushed, frame, waitingCode_eq_nil rfl rfl rfl, append_nil, waitingType_eq rfl rfl]
  rfl

theorem yields_group {value : Value} (inner : body.YieldsFirst tokens value) :
    body.Yields (.statement true :: tokens ++ [.statement false]) value := by
  intro c code awaits
  have entered : (c.entered c.nesting.inStatement .group).Awaits body code :=
    awaits_entered awaits _ rfl
  obtain ⟨c', read, settled⟩ := inner entered rfl
  have here := awaits_pushed_first entered rfl (code ++ value.code) value.type
  rw [pushed_entered] at settled here
  refine ⟨body.pushed (code ++ value.code) value.type c, ?_, .loaded⟩
  refine .cons _ nofun (fun stream => step_openGroup (awaits.withStream stream)) (read.append ?_)
  refine .single nofun fun stream => ?_
  rw [(settled.withStream stream).step_close (here.withStream stream) rfl rfl rfl,
    close_group rfl rfl Nat.one_pos rfl, ← pushed_withStream]
  rfl

/-- A call has the result of the method that its name and the types of its arguments mean. -/
theorem yields_call {owner : List String} {name : String}
    {callee : Callee} (args : body.YieldsAll tokens values)
    (found : body.scope.callee? (owner ++ [name]) (values.map (·.type)) = some callee) :
    body.Yields (pathTokens owner name ++ .statement true :: tokens ++ [.statement false])
      ⟨callee.receiver ++ values.flatMap (·.code) ++ [callee.call], some callee.result⟩ := by
  intro c code awaits
  obtain ⟨site, ref, method, resolved, called, here, result, receives, call_eq, result_eq⟩ :=
    callee_eq_some found
  rw [call_eq, result_eq]
  have path := reads_path_first awaits.toQuiet awaits.retractable awaits.literals
    awaits.expectLiteral owner name
  have entered : (c.entered c.nesting.inStatement (.call site (some code.length))).Awaits body code :=
    awaits_entered awaits _ rfl
  have empty : Collects [] code.length (.call site (some code.length))
      { kind := .call site (some code.length) } :=
    .call site (some code.length)
  -- Inside the parenthesis the arguments are collected; the last of them ends with the parenthesis.
  obtain ⟨c', last, read, settled, collects⟩ := args entered rfl empty
  obtain ⟨kind, types⟩ := collects.finishArg_eq rfl
  have inside := awaits_collecting (code ++ values.flatMap (·.code)) entered rfl
    collects.isCounted_eq
  have closed (stream : List Token) := (settled.withStream stream).step_close
    (inside.withStream stream) rfl (by simp [isSequence, kind]) rfl
  refine ⟨_, ?_, settled_called awaits _ _⟩
  rw [append_assoc]
  refine path.append (.cons _ (by simp) (fun stream => ?_)
    (read.append (.single (by simp) fun stream => ?_)))
  · exact step_openNamed (awaits.withStream stream) (by simp)
      (by simpa [awaits.pendingNew, scope] using resolved)
  · rw [closed]
    simp only [close, kind, types]
    rw [← called_withStream]
    exact emitCall_eq rfl called here result receives

theorem ctor_eq_some {scope : Scope} {path : List String} {args : List (Option TypeId)}
    {ref : MemberRef} (found : scope.ctor? path args = some ref) :
    ∃ type, scope.session.table.resolveType (dotted path) scope.usings = some type ∧
      scope.session.table.findCtor type args = .ok (some ref) := by
  simp only [Scope.ctor?, Option.bind_eq_bind, Option.bind_eq_some_iff, toOption_eq_some] at found
  obtain ⟨type, resolved, result, here, rfl⟩ := found
  exact ⟨type, resolved, here⟩

theorem yields_construct {space : List String} {name : String}
    {ref : MemberRef} (args : body.YieldsAll tokens values)
    (found : body.scope.ctor? (space ++ [name]) (values.map (·.type)) = some ref) :
    body.Yields (.new :: pathTokens space name ++ .statement true :: tokens ++ [.statement false])
      ⟨values.flatMap (·.code) ++ [⟨.newobj, .ctor ref⟩], some ref.owner⟩ := by
  intro c code awaits
  obtain ⟨type, resolved, here⟩ := ctor_eq_some found
  simp only [scope] at resolved here
  let kind : FrameKind := .construct (some type) (dotted (space ++ [name])) (some code.length)
  have quiet : ({ c with pendingNew := true } : Compiler).Quiet := { awaits with }
  have path := reads_path_first quiet awaits.retractable awaits.literals
    awaits.expectLiteral space name
  have entered : (c.entered c.nesting.inStatement kind).Awaits body code :=
    awaits_entered awaits _ rfl
  have empty : Collects [] code.length kind { kind := kind } := .construct ..
  obtain ⟨c', last, read, settled, collects⟩ := args entered rfl empty
  obtain ⟨kind_eq, types⟩ := collects.finishArg_eq rfl
  have inside := awaits_collecting (code ++ values.flatMap (·.code)) entered rfl
    collects.isCounted_eq
  have closed (stream : List Token) := (settled.withStream stream).step_close
    (inside.withStream stream) rfl (by simp [isSequence, kind_eq, kind]) rfl
  refine ⟨_, ?_, .loaded⟩
  rw [cons_append, cons_append, append_assoc]
  refine .cons _ (by simp) (fun stream => step_new (awaits.withStream stream)) (path.append ?_)
  refine .cons _ (by simp) (fun stream => ?_) (read.append (.single (by simp) fun stream => ?_))
  · exact step_openNamed (awaits.withStream stream) (concat_ne_nil name space)
      (by simp [kind, resolved])
  · rw [closed]
    simp only [close, kind_eq, types]
    rw [← pushed_withStream, ← append_assoc]
    exact emitConstruct_eq rfl here

theorem yields_array (elements : body.YieldsAll tokens values) :
    body.Yields (.sequence true :: tokens ++ [.sequence false])
      ⟨arrayCode body.session.table values, some body.session.table.wellKnown.array⟩ := by
  intro c code awaits
  let kind : FrameKind := .sequence (some code.length) code.length []
  have entered : (c.entered c.nesting.inSequence kind).Awaits body code :=
    awaits_entered awaits _ rfl
  have empty : Collects [] code.length kind { kind := kind } := .sequence code.length rfl
  obtain ⟨c', last, read, settled, collects⟩ := elements entered rfl empty
  have inside := awaits_collecting (code ++ values.flatMap (·.code)) entered rfl
    collects.isCounted_eq
  refine ⟨_, ?_, .loaded⟩
  refine .cons _ nofun (fun stream => step_openArray (awaits.withStream stream))
    (read.append (.single nofun fun stream => ?_))
  rw [(settled.withStream stream).step_closeArray (inside.withStream stream) rfl collects rfl,
    ← pushed_withStream]
  rfl

/-! ## Chains of operators -/

theorem waitingCode_signed {frame : Frame} (neg : frame.pendingNeg = false)
    (not : frame.pendingNot = false) (sign : Sign) :
    (frame.signed sign).waitingCode = sign.code ++ frame.waitingCode := by
  cases sign <;> simp [Frame.signed, waitingCode, Sign.code, neg, not]

theorem waitingType_signed {frame : Frame} (not : frame.pendingNot = false) (sign : Sign)
    (table : SymbolTable) (value : Value) :
    (frame.signed sign).waitingType table value.type = frame.waitingType table
    (sign.apply table value).type := by
  cases sign <;> cases op : frame.pendingOp <;> simp [Frame.signed, waitingType, Sign.apply, not, op]

theorem pushed_signed (neg : c.frame.pendingNeg = false) (not : c.frame.pendingNot = false)
    (sign : Sign) (code : List Instruction) (value : Value) :
    body.pushed (code ++ value.code) value.type (signed sign c) =
      body.pushed (code ++ (sign.apply body.session.table value).code)
        (sign.apply body.session.table value).type c := by
  rw [signed, pushed_modifyFrame, waitingCode_signed neg not, waitingType_signed not, pushed]
  simp only [Sign.apply, append_assoc]
  exact modifyFrame_congr _ rfl

theorem yieldsFirst_operand {sign : Sign} {value : Value} (term : body.Yields tokens value) :
    body.YieldsFirst (sign.tokens ++ tokens) (sign.apply body.session.table value) := by
  intro c code awaits idle
  obtain ⟨depth, failed, op, not, neg⟩ := isIdle_iff.mp idle
  have empty : c.frame.hasValue = false := by simp [hasValue, depth, failed]
  have signRead := reads_sign sign awaits neg not (.inl empty)
  have signedAwaits : (signed sign c).Awaits body code := awaits_modifyFrame awaits _ fun _ => rfl
  obtain ⟨c', read, settled⟩ := term signedAwaits
  rw [pushed_signed neg not] at settled
  exact ⟨c', signRead.append read, settled⟩

theorem pushed_of_idle (idle : c.frame.isIdle = true) (code : List Instruction)
    (type : Option TypeId) :
    body.pushed code type c =
      ({ c with session := body.sessionWith code } : Compiler).modifyFrame (·.taking type) := by
  obtain ⟨-, -, op, not, neg⟩ := isIdle_iff.mp idle
  rw [pushed, waitingCode_eq_nil neg not op, waitingType_eq not op, append_nil]

theorem pushed_binary (idle : c.frame.isIdle = true) (code : List Instruction) (left right : Value)
    (plan : OperatorPlan) :
    body.pushed (code ++ left.code ++ right.code) right.type
        ((body.pushed (code ++ left.code) left.type c).modifyFrame ({ · with pendingOp := some plan })) =
      body.pushed (code ++ (left.code ++ right.code ++ plan.lowering.code)) plan.result c := by
  obtain ⟨depth, -, -, -, -⟩ := isIdle_iff.mp idle
  rw [pushed_of_idle idle, modifyFrame_modifyFrame, pushed_modifyFrame, pushed_of_idle idle]
  simp only [Function.comp_apply, taking, waitingCode, waitingType, Bool.false_eq_true, if_false,
    nil_append, append_assoc]
  refine modifyFrame_congr _ ?_
  have frame (session : Session) : ({ c with session := session } : Compiler).frame = c.frame := rfl
  simp [frame, depth]

theorem frame_pushed_first (idle : c.frame.isIdle = true) (next : List Instruction)
    (type : Option TypeId) : (body.pushed next type c).frame = c.frame.taking type := by
  obtain ⟨-, -, noOp, not, -⟩ := isIdle_iff.mp idle
  rw [pushed, frame_modifyFrame, waitingType_eq not noOp]
  rfl

/-- After the first value of a chain, an operator and a sign wait for the operand that comes
next. -/
theorem reads_binary {sign : Sign} {op : Operator} {plan : OperatorPlan} {first : List Token}
    {left : Value} (chain : body.YieldsFirst first left)
    (planned : body.session.table.planOperator left.type op = .ok plan) {code : List Instruction}
    (awaits : c.Awaits body code) (idle : c.frame.isIdle = true) :
    let waiting := (body.pushed (code ++ left.code) left.type c).modifyFrame
      ({ · with pendingOp := some plan })
    Reads (first ++ .operator op :: sign.tokens) c (signed sign waiting) ∧
      (signed sign waiting).Awaits body (code ++ left.code) ∧
      waiting.frame.pendingNeg = false ∧ waiting.frame.pendingNot = false := by
  obtain ⟨c₁, firstRead, firstSettled⟩ := chain awaits idle
  have firstAwaits := awaits_pushed_first awaits idle (code ++ left.code) left.type
  obtain ⟨depth, -, -, -, -⟩ := isIdle_iff.mp idle
  have frame : (body.pushed (code ++ left.code) left.type c).frame = c.frame.taking left.type :=
    frame_pushed_first idle _ _
  have opRead := firstSettled.reads_operator firstAwaits (by rw [frame]; exact planned)
    (by rw [frame]; simp [hasValue, taking, depth]) (by rw [frame]; rfl)
  -- The operator waits in the frame while the right operand is read, which is an operand like any
  -- other.
  let waiting := (body.pushed (code ++ left.code) left.type c).modifyFrame
    ({ · with pendingOp := some plan })
  have waitingAwaits : waiting.Awaits body (code ++ left.code) :=
    awaits_modifyFrame firstAwaits _ fun _ => rfl
  have waitingFrame : waiting.frame = { c.frame.taking left.type with pendingOp := some plan } := by
    simp only [waiting, frame_modifyFrame, frame]
  have noNeg : waiting.frame.pendingNeg = false := by rw [waitingFrame]; rfl
  have noNot : waiting.frame.pendingNot = false := by rw [waitingFrame]; rfl
  have signRead := reads_sign sign waitingAwaits noNeg noNot (.inr (by rw [waitingFrame]; rfl))
  refine ⟨?_, awaits_modifyFrame waitingAwaits _ fun _ => rfl, noNeg, noNot⟩
  simpa using (firstRead.append opRead).append signRead

theorem yieldsFirst_binary {sign : Sign} {op : Operator} {plan : OperatorPlan}
    {first second : List Token} {left right : Value} (chain : body.YieldsFirst first left)
    (term : body.Yields second right) (planned : body.session.table.planOperator left.type
      op = .ok plan) :
    body.YieldsFirst (first ++ .operator op :: sign.tokens ++ second)
      ⟨left.code ++ (sign.apply body.session.table right).code ++ plan.lowering.operations,
        plan.result⟩ := by
  have operations : plan.lowering.operations = plan.lowering.code := by cases plan.lowering <;> rfl
  intro c code awaits idle
  rw [operations]
  obtain ⟨read, signedAwaits, noNeg, noNot⟩ := reads_binary chain planned awaits idle
  obtain ⟨c₂, secondRead, settled⟩ := term signedAwaits
  rw [pushed_signed noNeg noNot, pushed_binary idle] at settled
  exact ⟨c₂, read.append secondRead, settled⟩

/-! ## Lists -/

theorem yieldsMore_nil : body.YieldsMore [] [] := by
  intro target c code frame rest kind done settled awaits frames collects
  have same : ({ target with session := body.sessionWith code, frames := frame :: rest } :
      Compiler) = target := by
    rw [← awaits.session, ← frames]
  refine ⟨c, frame, .nil, ?_, ?_⟩
  · simpa only [flatMap_nil, append_nil, same] using settled
  · simpa only [flatMap_nil, append_nil] using collects

theorem yieldsAll_nil : body.YieldsAll [] [] := by
  intro c code frame rest kind done awaits frames collects
  exact yieldsMore_nil .loaded awaits frames (by rwa [collects.finished])

theorem yieldsAll_cons {first more : List Token} {value : Value}
    (one : body.YieldsFirst first value) (others : body.YieldsMore more values) :
    body.YieldsAll (first ++ more) (value :: values) := by
  intro c code frame rest kind done awaits frames collects
  have innermost : c.frame = frame := by simp [Compiler.frame, frames]
  have idle : c.frame.isIdle = true := innermost ▸ collects.isIdle
  obtain ⟨c₁, firstRead, firstSettled⟩ := one awaits idle
  have firstAwaits := awaits_pushed_first awaits idle (code ++ value.code) value.type
  have pushed_eq : body.pushed (code ++ value.code) value.type c =
      { c with
        session := body.sessionWith (code ++ value.code)
        frames := frame.taking value.type :: rest } := by
    simp only [pushed_of_idle idle, modifyFrame, frames]
  rw [pushed_eq] at firstSettled firstAwaits
  have taken := collects.finished_taking value
  rw [← length_append] at taken
  obtain ⟨c₂, last, moreRead, settled, collected⟩ := others firstSettled firstAwaits rfl taken
  refine ⟨c₂, last, firstRead.append moreRead, ?_, ?_⟩
  · simpa using settled
  · simpa using collected

theorem yieldsMore_cons {next : List Token} (list : body.YieldsAll next values) :
    body.YieldsMore (.separator .statement :: next) values := by
  intro target c code frame rest kind done settled awaits frames collects
  have comma := settled.reads_comma awaits frames collects
  have notCounted : (frame.finished code.length).isCounted = false := by
    generalize frame.finished code.length = done at collects
    cases collects <;> rfl
  have inside := awaits_collecting code awaits frames notCounted
  rw [← awaits.session] at inside
  obtain ⟨c', last, read, settled', collected⟩ := list inside rfl collects
  exact ⟨c', last, comma.append read, settled', collected⟩

end OpenBody

/-! ## All expressions -/

variable {body : OpenBody}

mutual

/-- Every operand puts its value on the stack. -/
theorem Term.yields (term : Term) {value : Value}
    (compiled : term.compile body.scope = some value) : body.Yields term.tokens value := by
  cases term with
  | constant literal =>
    simp only [Term.compile, Option.some.injEq] at compiled
    subst compiled
    rw [Term.tokens]
    exact OpenBody.yields_constant literal
  | var name =>
    simp only [Term.compile, Option.bind_eq_bind, Option.bind_eq_some_iff,
      OpenBody.toOption_eq_some] at compiled
    obtain ⟨found, looked, var, rfl, compiled⟩ := compiled
    cases compiled
    rw [Term.tokens]
    exact OpenBody.yields_var looked
  | group inner =>
    rw [Term.compile] at compiled
    rw [Term.tokens]
    exact OpenBody.yields_group (inner.yields compiled)
  | call owner name args =>
    simp only [Term.compile, Option.bind_eq_bind, Option.bind_eq_some_iff] at compiled
    obtain ⟨values, all, callee, found, compiled⟩ := compiled
    cases compiled
    rw [Term.tokens]
    exact OpenBody.yields_call (yields_listTokens args all) found
  | construct space name args =>
    simp only [Term.compile, Option.bind_eq_bind, Option.bind_eq_some_iff] at compiled
    obtain ⟨values, all, ref, found, compiled⟩ := compiled
    cases compiled
    rw [Term.tokens]
    exact OpenBody.yields_construct (yields_listTokens args all) found
  | array elements =>
    simp only [Term.compile, Option.bind_eq_bind, Option.bind_eq_some_iff] at compiled
    obtain ⟨values, all, compiled⟩ := compiled
    cases compiled
    rw [Term.tokens]
    exact OpenBody.yields_array (yields_listTokens elements all)

theorem Expr.yields (expr : Expr) {value : Value}
    (compiled : expr.compile body.scope = some value) : body.YieldsFirst expr.tokens value := by
  cases expr with
  | operand sign term =>
    simp only [Expr.compile, Option.bind_eq_bind, Option.bind_eq_some_iff] at compiled
    obtain ⟨operand, termCompiled, compiled⟩ := compiled
    cases compiled
    rw [Expr.tokens]
    exact OpenBody.yieldsFirst_operand (term.yields termCompiled)
  | binary left op sign right =>
    simp only [Expr.compile, Option.bind_eq_bind, Option.bind_eq_some_iff,
      OpenBody.toOption_eq_some] at compiled
    obtain ⟨leftValue, leftCompiled, rightValue, rightCompiled, plan, planned, compiled⟩ := compiled
    cases compiled
    rw [Expr.tokens]
    exact OpenBody.yieldsFirst_binary (left.yields leftCompiled) (right.yields rightCompiled) planned

/-- Arguments and elements put their values on the stack. -/
theorem yields_listTokens (exprs : List Expr) {values : List Value}
    (compiled : compileAll body.scope exprs = some values) :
    body.YieldsAll (listTokens exprs) values := by
  cases exprs with
  | nil =>
    cases compiled
    exact OpenBody.yieldsAll_nil
  | cons first rest =>
    simp only [compileAll, Option.bind_eq_bind, Option.bind_eq_some_iff] at compiled
    obtain ⟨value, firstCompiled, values, restCompiled, compiled⟩ := compiled
    cases compiled
    rw [listTokens]
    exact OpenBody.yieldsAll_cons (first.yields firstCompiled) (yields_restTokens rest restCompiled)

theorem yields_restTokens (exprs : List Expr) {values : List Value}
    (compiled : compileAll body.scope exprs = some values) :
    body.YieldsMore (restTokens exprs) values := by
  cases exprs with
  | nil =>
    cases compiled
    exact OpenBody.yieldsMore_nil
  | cons next rest =>
    simp only [compileAll, Option.bind_eq_bind, Option.bind_eq_some_iff] at compiled
    obtain ⟨value, nextCompiled, values, restCompiled, compiled⟩ := compiled
    cases compiled
    rw [restTokens]
    exact OpenBody.yieldsMore_cons
      (OpenBody.yieldsAll_cons (next.yields nextCompiled) (yields_restTokens rest restCompiled))

end

end OnePass
