import OnePass.Proofs.Expression.Refusal
import OnePass.Proofs.Outline.Action

/-! # Compound assignments

`x *= value` loads the variable and plans the operator, which then waits for an operand like any
operator of a chain; the store comes at the end of the expression. The operator so takes the first
operand of the value, and not the whole value: `x *= a + b` is read as `x = x * a + b`.

* `Expr.after` — an expression with a variable and an operator in front.
* `Expr.grouped` — the same with the expression in parentheses.

The main statement is `compound_assignment_takes_first_operand`. -/

namespace OnePass

open Compile Option Build List

/-! ## Code -/

/-- Whether an expression is a single operand, with no operator outside of parentheses. -/
def Expr.isOperand : Expr → Bool
  | operand .. => true
  | binary .. => false

/-- The expression with a variable and an operator in front of its first operand. -/
def Expr.after (name : String) (op : Operator) : Expr → Expr
  | operand sign term => binary (operand .none (.var name)) op sign term
  | binary left next sign right => binary (left.after name op) next sign right

theorem Expr.tokens_after (name : String) (op : Operator) (expr : Expr) :
    (expr.after name op).tokens = .literal name :: .operator op :: expr.tokens := by
  cases expr with
  | operand sign term => simp [after, Expr.tokens, Term.tokens, Sign.tokens]
  | binary left next sign right =>
    rw [after, Expr.tokens, left.tokens_after name op, Expr.tokens]
    rfl

theorem Expr.overLocals_after {scope : Scope} {name : String} {var : LocalVar} {op : Operator}
    (found : scope.session.lookupVar name = .ok (some var)) (isBinary : op.isBinary = true)
    (expr : Expr) (known : expr.OverLocals scope) : (expr.after name op).OverLocals scope := by
  cases expr with
  | operand sign term => exact ⟨⟨var, found⟩, isBinary, known⟩
  | binary left next sign right =>
    obtain ⟨overLeft, nextBinary, overRight⟩ := known
    exact ⟨left.overLocals_after found isBinary overLeft, nextBinary, overRight⟩

/-- Whether an instruction loads a constant, a local or an argument. -/
def OpCode.isLoad : OpCode → Bool
  | ldnull | ldstr | ldcI4 | ldcI4S | ldcI4One | ldcI4Zero | ldcI8 | ldcR4 | ldcR8 | ldloc
      | ldarg => true
  | _ => false

/-- Code that begins with a load. -/
def BeginsWithLoad (code : List Instruction) : Prop :=
  ∃ first rest, code = first :: rest ∧ first.opcode.isLoad = true

theorem BeginsWithLoad.append {code : List Instruction} (begins : BeginsWithLoad code)
    (more : List Instruction) : BeginsWithLoad (code ++ more) := by
  obtain ⟨first, rest, rfl, isLoad⟩ := begins
  exact ⟨first, rest ++ more, rfl, isLoad⟩

section Code

variable {scope : Scope}

mutual

theorem Term.beginsWithLoad (term : Term) (known : term.OverLocals scope) {value : Value}
    (compiled : term.compile scope = some value) : BeginsWithLoad value.code := by
  cases term with
  | constant literal =>
    simp only [Term.compile, Option.some.injEq] at compiled
    subst compiled
    refine ⟨_, [], rfl, ?_⟩
    cases literal with
    | bool value => cases value <;> rfl
    | _ => rfl
  | var name =>
    obtain ⟨var, found⟩ := known
    simp only [Term.compile, found, Except.toOption, bind_eq_bind, bind_some, Option.pure_def,
      Option.some.injEq] at compiled
    subst compiled
    refine ⟨_, [], rfl, ?_⟩
    rw [LocalVar.load]
    cases var.slot <;> rfl
  | group inner =>
    rw [Term.compile] at compiled
    exact inner.beginsWithLoad known compiled
  | call | construct | array => cases known

theorem Expr.beginsWithLoad (expr : Expr) (known : expr.OverLocals scope) {value : Value}
    (compiled : expr.compile scope = some value) : BeginsWithLoad value.code := by
  cases expr with
  | operand sign term =>
    simp only [Expr.compile, bind_eq_bind, bind_eq_some_iff] at compiled
    obtain ⟨operand, termCompiled, compiled⟩ := compiled
    cases compiled
    exact (term.beginsWithLoad known termCompiled).append _
  | binary left op sign right =>
    simp only [Expr.compile, bind_eq_bind, bind_eq_some_iff] at compiled
    obtain ⟨leftValue, leftCompiled, _, _, _, _, compiled⟩ := compiled
    cases compiled
    exact ((left.beginsWithLoad known.1 leftCompiled).append _).append _

end

end Code

/-! ## Plans -/

/-- A plan by the given machine operations or by a call. -/
def OperatorPlan.Lowers (opcodes : List OpCode) (plan : OperatorPlan) : Prop :=
  plan.lowering = .native opcodes ∨ ∃ ref, plan.lowering = .call ref

variable {compound op : Operator}

namespace SymbolTable

variable (table : SymbolTable)

theorem lowers_methodPlan (lhs : TypeId) (op : Operator) (opcodes : List OpCode) :
    Gives (table.methodPlan lhs op) (·.Lowers opcodes) := by
  rw [methodPlan]
  split
  · exact gives_throw
  · refine gives_fault_ok fun found _ => ?_
    cases found with
    | none =>
      dsimp only
      exact gives_bind_ok fun _ _ => gives_throw
    | some ref =>
      dsimp only
      exact gives_bind_ok fun _ _ => .inr ⟨ref, rfl⟩

theorem lowers_typedPlan (lhs : TypeId) (op : Operator) (opcodes : List OpCode) :
    Gives (table.typedPlan lhs op opcodes) (·.Lowers opcodes) := by
  have native : (table.nativePlan (some lhs) op opcodes).Lowers opcodes := .inl rfl
  have refuses (problem : String → Problem) :
      Gives (do throw (.problem (problem (← table.typeName lhs))) : Except Failure OperatorPlan)
        (·.Lowers opcodes) := by
    exact gives_bind_ok fun _ _ => gives_throw
  rw [typedPlan]
  refine gives_bind_ok fun category _ => ?_
  dsimp only
  split
  · split
    · exact native
    · exact refuses .modOfNonNumber
  · split
    · exact native
    · exact refuses (.logicOfNonBoolean _)
  · split
    · exact native
    · exact refuses (.logicOfNonBoolean _)
  · exact native
  · split
    · exact native
    · split
      · -- A sum of strings is a call.
        refine gives_bind_ok fun found _ => ?_
        cases found with
        | none => exact gives_throw
        | some concat => exact .inr ⟨concat, rfl⟩
      · split
        · exact native
        · exact table.lowers_methodPlan lhs op opcodes

theorem lowers_planOperator {op : Operator} {opcodes : List OpCode}
    (native : op.native? = some opcodes) (lhs : Option TypeId) : Gives (table.planOperator lhs op)
      (·.Lowers opcodes) := by
  unfold planOperator
  split
  · cases native
  · cases native
  · cases native
  · rw [native]
    cases lhs with
    | none => exact .inl rfl
    | some type => exact table.lowers_typedPlan type op opcodes

theorem code_planOperator (base : compound.compoundBase? = some op) (lhs : Option TypeId) :
    Gives (table.planOperator lhs op) fun plan =>
      ∃ first rest, plan.lowering.operations = first :: rest ∧ first.opcode.isLoad = false := by
  obtain ⟨opcode, native, noLoad⟩ : ∃ opcode, op.native? = some [opcode] ∧ opcode.isLoad = false := by
    cases compound <;> cases base <;> exact ⟨_, rfl, rfl⟩
  refine (table.lowers_planOperator native lhs).imp fun plan lowers => ?_
  rcases lowers with lowering | ⟨ref, lowering⟩
  · exact ⟨⟨opcode, .none⟩, [], by rw [lowering]; rfl, noLoad⟩
  · exact ⟨⟨.call, .method ref⟩, [], by rw [lowering]; rfl, rfl⟩

end SymbolTable

theorem Operator.isBinary_of_compoundBase (base : compound.compoundBase? = some op) :
    op.isBinary = true := by
  cases compound <;> cases base <;> rfl

/-! ## With and without parentheses -/

section Comparison

variable {scope : Scope} {name : String} {var : LocalVar} {op : Operator}

/-- The expression in parentheses, with a variable and an operator in front. -/
def Expr.grouped (name : String) (op : Operator) (expr : Expr) : Expr :=
  binary (operand .none (.var name)) op .none (.group expr)

theorem Expr.compile_var (found : scope.session.lookupVar name = .ok (some var)) :
    (Expr.operand .none (.var name)).compile scope = some ⟨[var.load], some var.type⟩ := by
  simp [Expr.compile, Term.compile, found, Except.toOption, Sign.apply, Sign.code]

theorem Expr.exists_of_compile_binary (found : scope.session.lookupVar name = .ok (some var))
    {sign : Sign} {term : Term} {value : Value}
    (compiled : (binary (operand .none (.var name)) op sign term).compile scope = some value) :
    ∃ right plan, term.compile scope = some right ∧
      scope.session.table.planOperator (some var.type) op = .ok plan ∧
      value.code = var.load :: (sign.apply scope.session.table right).code ++
        plan.lowering.operations := by
  rw [Expr.compile, compile_var found] at compiled
  simp only [bind_eq_bind, bind_some, bind_eq_some_iff, OpenBody.toOption_eq_some] at compiled
  obtain ⟨right, rightCompiled, plan, planned, compiled⟩ := compiled
  cases compiled
  exact ⟨right, plan, rightCompiled, planned, rfl⟩

/-- With parentheses, the operator comes after the whole expression. -/
theorem Expr.code_grouped (found : scope.session.lookupVar name = .ok (some var)) {expr : Expr}
    {value : Value} (compiled : (expr.grouped name op).compile scope = some value) :
    ∃ inner plan, expr.compile scope = some inner ∧
      scope.session.table.planOperator (some var.type) op = .ok plan ∧
      value.code = var.load :: inner.code ++ plan.lowering.operations := by
  obtain ⟨inner, plan, innerCompiled, planned, code⟩ := exists_of_compile_binary found compiled
  rw [Term.compile] at innerCompiled
  refine ⟨inner, plan, innerCompiled, planned, ?_⟩
  simpa [Sign.apply, Sign.code] using code

/-- Without parentheses, the operator comes after the first operand. If there are others, each
begins with a load. -/
theorem Expr.code_after (found : scope.session.lookupVar name = .ok (some var)) (expr : Expr)
    (known : expr.OverLocals scope) {value inner : Value}
    (compiled : (expr.after name op).compile scope = some value)
    (alone : expr.compile scope = some inner) :
    ∃ first plan more rest, scope.session.table.planOperator (some var.type) op = .ok plan ∧
      value.code = var.load :: first ++ plan.lowering.operations ++ more ∧ inner.code = first ++ rest ∧
      (expr.isOperand = true → more = [] ∧ rest = []) ∧
      (expr.isOperand = false → BeginsWithLoad rest) := by
  cases expr with
  | operand sign term =>
    obtain ⟨right, plan, rightCompiled, planned, code⟩ := exists_of_compile_binary found compiled
    rw [Expr.compile, rightCompiled] at alone
    cases alone
    exact ⟨_, plan, [], [], planned, by rw [code, append_nil], (append_nil _).symm, fun _ =>
        ⟨rfl, rfl⟩, by
      simp [isOperand]⟩
  | binary left next sign right =>
    obtain ⟨overLeft, -, overRight⟩ := known
    simp only [after, Expr.compile, bind_eq_bind, bind_eq_some_iff] at compiled alone
    obtain ⟨leftValue, leftCompiled, rightValue, rightCompiled, plan', -, compiled⟩ := compiled
    obtain ⟨leftAlone, leftAloneCompiled, rightAgain, rightAgainCompiled, plan'', -, alone⟩ := alone
    cases compiled
    cases alone
    cases rightCompiled.symm.trans rightAgainCompiled
    obtain ⟨first, plan, more, rest, planned, code, aloneCode, one, several⟩ :=
      left.code_after found overLeft leftCompiled leftAloneCompiled
    have rightLoad := ((right.beginsWithLoad overRight rightCompiled).append sign.code).append
      plan''.lowering.operations
    refine ⟨first, plan, more ++ (sign.apply scope.session.table rightValue).code ++
      plan'.lowering.operations, rest ++ (sign.apply scope.session.table rightValue).code ++
          plan''.lowering.operations, planned, ?_, ?_, by
      simp [isOperand], fun _ => ?_⟩
    · simp [code]
    · simp [aloneCode]
    · rw [append_assoc]
      cases leftKind : left.isOperand with
      | true => simpa [(one leftKind).2, Sign.apply] using rightLoad
      | false => exact (several leftKind).append _

/-- The parentheses make no difference if and only if there is a single operand inside. -/
theorem Expr.code_eq_iff (found : scope.session.lookupVar name = .ok (some var))
    {compound : Operator} (base : compound.compoundBase? = some op) {expr : Expr}
    (known : expr.OverLocals scope) {value other : Value}
    (compiled : (expr.after name op).compile scope = some value)
    (compiledOther : (expr.grouped name op).compile scope = some other) : value.code = other.code ↔
      expr.isOperand = true := by
  obtain ⟨inner, planOther, alone, plannedOther, codeOther⟩ := code_grouped found compiledOther
  obtain ⟨first, plan, more, rest, planned, code, innerCode, one, several⟩ :=
    expr.code_after found known compiled alone
  cases planned.symm.trans plannedOther
  rw [code, codeOther, innerCode]
  constructor
  · intro same
    by_contra notOperand
    obtain ⟨load, loads, rfl, isLoad⟩ := several (by simpa using notOperand)
    obtain ⟨operation, operations, lowered, noLoad⟩ :=
      (scope.session.table.code_planOperator base _).of_ok planned
    -- After the first operand comes the operation, or else the load of the second operand.
    have both : operation = load := by
      simp only [lowered, cons_append, append_assoc, cons.injEq, append_cancel_left_eq,
        true_and] at same
      exact same.1
    simp [both, isLoad] at noLoad
  · intro isOperand
    obtain ⟨rfl, rfl⟩ := one isOperand
    simp

end Comparison

/-! ## Reading a compound assignment -/

namespace OpenBody

variable {body : OpenBody} {c : Compiler} {code : List Instruction} {name : String} {var : LocalVar}

/-- After the target of a compound assignment, its operator waits as if the target had been written
out before it. -/
theorem compoundAssign_eq (awaits : c.Awaits body code) (frames : c.frames = [])
    (idle : c.base.isIdle = true) (found : body.session.lookupVar name = .ok (some var))
    (op : Operator) : compoundAssign op { c with literals := [name] } =
      binary op (body.pushed (code ++ [var.load]) (some var.type)
        { c with consume := .assign (some (.var var)) }) := by
  obtain ⟨depth, -, noOp, not, neg⟩ := Frame.isIdle_iff.mp idle
  have loaded : loadTarget (.var var) body.session.table (body.methodWith code) =
      .ok (var.type, body.methodWith (code ++ [var.load])) := by
    rw [loadTarget, loadVar_methodWith]
  -- Both ways the variable is loaded and the operator planned. They differ in when the store is
  -- noted.
  let before : Compiler :=
    { c with session := body.sessionWith (code ++ [var.load]), base := c.base.taking (some var.type) }
  have noted : ({ c with session := body.sessionWith (code ++ [var.load]) } : Compiler).modifyBase
      (fun base =>
      { base with depth := base.depth + 1, operand := some var.type }) = before := by
    simp [before, Compiler.modifyBase, Frame.taking, noOp, not, neg]
  have pushed : body.pushed (code ++ [var.load]) (some var.type)
      { c with consume := .assign (some (.var var)) } =
          { before with consume := .assign (some (.var var)) } :=
    @pushed_base body { c with consume := .assign (some (.var var)) } frames idle _ _
  have frame : ({ before with consume := .assign (some (.var var)) } : Compiler).frame =
      c.base.taking (some var.type) := by simp [Compiler.frame, before, frames]
  have value : (c.base.taking (some var.type)).hasValue = true := by simp [Frame.hasValue,
    Frame.taking, depth]
  have literals : ({ before with consume := .assign (some (.var var)) } : Compiler).literals = [] :=
    awaits.literals
  simp only [compoundAssign, bind_eq (takeTarget_eq awaits found),
    bind_eq (emitting_eq awaits.session loaded), modify_bind_apply, get_bind_apply, noted,
    pushed]
  simp only [binary, bind_eq (flushReference_nil literals), get_bind_apply, frame, value,
    Bool.not_true, Bool.false_eq_true, if_false, show (c.base.taking (some var.type)).pendingOp =
      none from rfl,
    show (c.base.taking (some var.type)).operand = some var.type from rfl]
  cases before.session.table.planOperator (some var.type) op with
  | ok plan =>
    simp only [attempt_ok_bind_apply, modify_bind_apply, modify_apply]
    simp only [Compiler.modifyBase, Compiler.modifyFrame, before, frames]
  | error failure => cases failure <;> rfl

theorem operator_compound (base : compound.compoundBase? = some op) :
    operator compound none c = compoundAssign op c := by
  cases compound <;> cases base <;> simp [operator, Operator.compoundBase?]

/-- The operator of a compound assignment after its target is the operator alone after an assignment
to the target and the target once more. -/
theorem step_compound (awaits : c.Awaits body code) (frames : c.frames = [])
    (idle : c.base.isIdle = true) (found : body.session.lookupVar name = .ok (some var))
    (base : compound.compoundBase? = some op) :
    step (.operator compound) { c with literals := [name] } =
      step (.operator op) { c with consume := .assign (some (.var var)), literals := [name] } := by
  have quiet : ({ c with literals := [name] } : Compiler).Quiet := { awaits with }
  have waits : ({ c with consume := .assign (some (.var var)) } : Compiler).Awaits body code :=
    awaits.withConsume _
  have quietToo : ({ c with consume := .assign (some (.var var)), literals := [name] } :
      Compiler).Quiet :=
    { awaits with }
  rw [step_eq_dispatch quiet awaits.retractable rfl,
    step_eq_dispatch quietToo awaits.retractable rfl, dispatch, dispatch, operator_compound base,
    operator_eq (Operator.isBinary_of_compoundBase base) rfl,
      compoundAssign_eq awaits frames idle found]
  exact (binary_flushed (flushReference_name waits found) (awaits_pushed waits _ _).literals op).symm

end OpenBody

theorem Build.read_compound {build : Build} {body : OpenBody} (rests : build.compiler.Rests body)
    {name : String} {var : LocalVar} (found : body.session.lookupVar name = .ok (some var))
    (base : compound.compoundBase? = some op) (rest : List Token) :
    build.read (.literal name :: .operator compound :: rest) =
      build.read (.literal name :: .operator .assign :: .literal name :: .operator op :: rest) := by
  have awaits := rests.awaits
  have waits := awaits.withConsume (.assign (some (.var var)))
  have short := OpenBody.reads_name awaits name
  have long := (rests.reads_target found build.compiler.consume).append
    (OpenBody.reads_name waits name)
  have stepped := OpenBody.step_compound awaits rests.frames rests.idle found base
  -- What was read leads to states that differ, and the operators lead from both to the same state.
  have processed : process { build with compiler := { build.compiler with literals := [name] } }
      (.operator compound) = process { build with compiler :=
        { build.compiler with consume := .assign (some (.var var)), literals := [name] } }
            (.operator op) := by
    simp only [process, stepped]
    rfl
  calc build.read ([.literal name] ++ .operator compound :: rest)
    _ = Build.read (.operator compound :: rest)
        { build with compiler := { build.compiler with literals := [name] } } := by
      rw [read_append, short.read rfl]
      rfl
    _ = Build.read (.operator op :: rest) { build with compiler :=
        { build.compiler with consume := .assign (some (.var var)), literals := [name] } } := by
      rw [read_cons, processed, ← read_cons]
    _ = build.read ([.literal name, .operator .assign] ++ [.literal name] ++ .operator op :: rest) := by
      rw [read_append, long.read rfl]
      rfl

/-! ## Statements -/

/-- A compound assignment is the assignment with its operator written out, without parentheses
around the value. Let the body of a method be open, with nothing of an expression under way, and let
`name` be a variable of it that is not final.

Whatever tokens follow, `name op=` is read exactly as `name = name op`, with the same states and the
same diagnostics.

Outside of try regions, let an expression of constants, variables, groups and binary operators
follow, and let both `name op= expr` and `name = name op (expr)` leave no diagnostic. Then both
append their code and change nothing else. They append the same code if and only if the expression
is a single operand. -/
theorem compound_assignment_takes_first_operand {build : Build} {body : OpenBody}
    (rests : build.compiler.Rests body) {name : String} {var : LocalVar}
    (found : body.session.lookupVar name = .ok (some var)) {last : Instruction}
    (stores : var.store? = some last) {compound op : Operator}
    (base : compound.compoundBase? = some op) :
    (∀ rest, build.read (.literal name :: .operator compound :: rest) =
      build.read (.literal name :: .operator .assign :: .literal name :: .operator op :: rest)) ∧
    (build.compiler.tryRegion = false → ∀ (expr : Expr) (done other : Build),
      expr.OverLocals body.scope → build.read (.literal name :: .operator compound :: expr.tokens ++
        [.expressionEnd]) = .ok done →
      build.read (.literal name :: .operator .assign :: .literal name :: .operator op ::
        .statement true :: expr.tokens ++ [.statement false, .expressionEnd]) = .ok other →
      done.diagnostics = build.diagnostics → other.diagnostics = build.diagnostics →
      ∃ code otherCode, (Use.stored name).compile body.scope (expr.after name op) = some code ∧
        done = { build with compiler := build.compiler.written body code } ∧
        (Use.stored name).compile body.scope (expr.grouped name op) = some otherCode ∧
        other = { build with compiler := build.compiler.written body otherCode } ∧
        (code = otherCode ↔ expr.isOperand = true)) := by
  refine ⟨Build.read_compound rests found base, ?_⟩
  intro outside expr done other known read readOther silent silentOther
  have isBinary := Operator.isBinary_of_compoundBase base
  have knownAfter := expr.overLocals_after found isBinary known
  have knownGrouped : (expr.grouped name op).OverLocals body.scope := ⟨⟨var, found⟩, isBinary, known⟩
  have written : (Use.stored name).tokens (expr.after name op) =
      .literal name :: .operator .assign :: .literal name :: .operator op :: expr.tokens ++
          [.expressionEnd] := by
    rw [Use.tokens, expr.tokens_after]
  have writtenGrouped : (Use.stored name).tokens (expr.grouped name op) = .literal name ::
      .operator .assign :: .literal name :: .operator op :: .statement true :: expr.tokens ++
          [.statement false, .expressionEnd] := by
    simp [Use.tokens, Expr.grouped, Expr.tokens, Term.tokens, Sign.tokens]
  have readAfter : build.read ((Use.stored name).tokens (expr.after name op)) = .ok done := by
    rw [written, ← read]
    exact (Build.read_compound rests found base _).symm
  obtain ⟨value, compiled, rfl⟩ :=
    Build.exists_of_read_assignment rests outside found stores knownAfter readAfter silent
  obtain ⟨otherValue, otherCompiled, rfl⟩ :=
    Build.exists_of_read_assignment rests outside found stores knownGrouped
      (writtenGrouped ▸ readOther) silentOther
  refine ⟨_, _, Use.compile_stored found stores compiled, rfl,
    Use.compile_stored found stores otherCompiled, rfl, ?_⟩
  rw [List.append_cancel_right_eq]
  exact Expr.code_eq_iff found base known compiled otherCompiled

namespace Counter

/-- `1 + x` -/
def sum : Expr := .binary (.operand .none (.constant (.int 1))) .add .none (.var "x")

/-- With a sum behind it, a compound product is another one than with the sum in parentheses. -/
theorem start_read_compound :
    start.compiler.Rests body ∧ sum.OverLocals body.scope ∧ ∃ done other code otherCode,
      start.read (.literal "x" :: .operator .mulAssign :: sum.tokens ++ [.expressionEnd]) =
        .ok done ∧ start.read (.literal "x" :: .operator .assign :: .literal "x" ::
          .operator .mul :: .statement true :: sum.tokens ++ [.statement false, .expressionEnd]) =
            .ok other ∧
        done = { start with compiler := start.compiler.written body code } ∧
        other = { start with compiler := start.compiler.written body otherCode } ∧ code ≠ otherCode := by
  have known : sum.OverLocals body.scope := ⟨trivial, rfl, _, rfl⟩
  obtain ⟨done, read, silent⟩ : ∃ done,
      start.read (.literal "x" :: .operator .mulAssign :: sum.tokens ++ [.expressionEnd]) =
        .ok done ∧ done.diagnostics = start.diagnostics := by
    refine ⟨_, rfl, ?_⟩
    rfl
  obtain ⟨other, readOther, silentOther⟩ : ∃ other,
      start.read (.literal "x" :: .operator .assign :: .literal "x" :: .operator .mul ::
        .statement true :: sum.tokens ++ [.statement false, .expressionEnd]) = .ok other ∧
        other.diagnostics = start.diagnostics := by
    refine ⟨_, rfl, ?_⟩
    rfl
  have found : body.session.lookupVar "x" = .ok (some ⟨.mutable 0, 1⟩) := rfl
  have base : Operator.mulAssign.compoundBase? = some .mul := rfl
  obtain ⟨-, compare⟩ := compound_assignment_takes_first_operand start_rests found rfl base
  obtain ⟨code, otherCode, -, written, -, otherWritten, same⟩ :=
    compare rfl sum done other known read readOther silent silentOther
  exact ⟨start_rests, known, done, other, code, otherCode, read, readOther, written, otherWritten,
      fun equal => by
    simpa [sum, Expr.isOperand] using same.mp equal⟩

end Counter

/-- A script that sets a variable to five, and then does something with it. -/
def scriptWith (rest : List Token) : TokenStream where
  header := .script
  platform := 0
  tokens := .var "x" "int" false :: .operator .assign :: .value (.int 5) :: .expressionEnd ::
    .literal "x" :: rest

/-- `x *= 1 + 2` is not `x = x * (1 + 2)`: it multiplies by one, and then adds two. Nothing is
reported. -/
theorem product_of_sum_multiplies_first_operand :
    let codes (result : BuildResult) := result.compiled.types.map fun type => type.bodies.map (·.code)
    let compound := scriptWith [.operator .mulAssign, .value (.int 1), .operator .add,
      .value (.int 2), .expressionEnd]
    let grouped := scriptWith [.operator .assign, .literal "x", .operator .mul, .statement true,
      .value (.int 1), .operator .add, .value (.int 2), .statement false, .expressionEnd]
    (build (.empty []) compound {} false).map (fun result => (result.diagnostics, codes result)) =
        .ok ([], [[[⟨.ldcI4, .i4 5⟩, ⟨.stloc, .loc 0⟩, ⟨.ldloc, .loc 0⟩, ⟨.ldcI4, .i4 1⟩,
          ⟨.mul, .none⟩, ⟨.ldcI4, .i4 2⟩, ⟨.add, .none⟩, ⟨.stloc, .loc 0⟩, ⟨.ret, .none⟩]]]) ∧
      (build (.empty []) grouped {} false).map (fun result => (result.diagnostics, codes result)) =
        .ok ([], [[[⟨.ldcI4, .i4 5⟩, ⟨.stloc, .loc 0⟩, ⟨.ldloc, .loc 0⟩, ⟨.ldcI4, .i4 1⟩,
          ⟨.ldcI4, .i4 2⟩, ⟨.add, .none⟩, ⟨.mul, .none⟩, ⟨.stloc, .loc 0⟩, ⟨.ret, .none⟩]]]) := by
  decide +kernel

end OnePass
