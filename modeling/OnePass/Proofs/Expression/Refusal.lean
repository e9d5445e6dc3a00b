import OnePass.Proofs.Expression.Statement
import OnePass.Proofs.LineBreak

/-! # Expressions that are refused

A statement that has code is read without a problem (`Use.reads`). Here is the converse for a part
of the language, the expressions of constants, variables, groups and binary operators
(`Expr.OverLocals`): if one of them has no code, it is because an operator is not defined for its
left operand, and this is reported as soon as the operator is read (`Expr.stumbles`). So an
assignment that leaves no diagnostic has the code that the syntax says
(`Build.exists_of_read_assignment`). -/

namespace OnePass

open OpenBody Build

variable {tokens : List Token}

/-! ## Tokens that cannot be read -/

/-- Reading the tokens leads to one that is not read without a problem. -/
inductive Stumbles : List Token → Compiler → Prop where
  | here {token : Token} {tokens : List Token} {c : Compiler}
      (refused : ∀ stream later problems,
        Compile.step token { c with stream := stream } = .ok ((), later, problems) → problems ≠ []) :
      Stumbles (token :: tokens) c
  | later {token : Token} {tokens : List Token} {c : Compiler} (mid : Compiler)
      (step : ∀ stream, Compile.step token { c with stream := stream } =
        .ok ((), { mid with stream := stream }, []))
      (rest : Stumbles tokens mid) : Stumbles (token :: tokens) c

theorem Stumbles.append {c : Compiler} (stumbles : Stumbles tokens c) (more : List Token) :
    Stumbles (tokens ++ more) c := by
  induction stumbles with
  | here refused => exact .here refused
  | later mid step _ ih => exact .later mid step ih

theorem Reads.stumbles {first second : List Token} {c mid : Compiler} (read : Reads first c mid)
    (stumbles : Stumbles second mid) : Stumbles (first ++ second) c := by
  induction read with
  | nil => exact stumbles
  | cons mid _ step _ ih => exact .later mid step (ih stumbles)

theorem Reads.read {c c' : Compiler} (read : Reads tokens c c') {build : Build}
    {stream : List Token} (compiler : build.compiler = { c with stream := stream }) :
    build.read tokens = .ok { build with compiler := { c' with stream := stream } } := by
  induction read generalizing build with
  | nil => rw [Build.read_nil, ← compiler]
  | cons mid notLine step _ ih =>
    have processed := Build.process_of_step notLine
      ((congrArg (Compile.step _) compiler).trans (step stream))
    rw [Build.read_cons, processed]
    exact ih rfl

/-- Outside of try regions, what is not read without a problem leaves a diagnostic. -/
theorem Stumbles.lt_diagnostics {c : Compiler} (stumbles : Stumbles tokens c)
    {build later : Build} {stream : List Token}
    (compiler : build.compiler = { c with stream := stream })
    (plain : ∀ token ∈ tokens, token.isPlain = true) (noDirective : c.inDirective = false)
    (outside : c.tryRegion = false) (read : build.read tokens = .ok later) :
    build.diagnostics.length < later.diagnostics.length := by
  induction stumbles generalizing build with
  | @here token tokens c refused =>
    obtain ⟨next, processed, readOn⟩ := exists_of_read_cons read
    obtain ⟨problems, stepped, -, diagnostics⟩ := exists_of_process processed
    rw [compiler] at stepped diagnostics
    have found : 0 < problems.length := List.length_pos_of_ne_nil (refused _ _ _ stepped)
    have longer : next.diagnostics.length = build.diagnostics.length + problems.length := by
      simp [diagnostics, outside]
    have more := length_diagnostics_read readOn
    omega
  | @later token tokens c mid step _ ih =>
    obtain ⟨first, others⟩ := List.forall_mem_cons.mp plain
    obtain ⟨next, processed, readOn⟩ := exists_of_read_cons read
    obtain ⟨problems, stepped, -, diagnostics⟩ := exists_of_process processed
    rw [compiler, step stream] at stepped
    obtain ⟨same, rfl⟩ : { mid with stream := stream } = next.compiler ∧
      [] = problems := by simpa using stepped
    have unchanged : next.diagnostics = build.diagnostics := by simpa using diagnostics
    -- The token is no directive, so that the next one is outside of try regions as well.
    have kept := aside_process first (by rw [compiler]; exact noDirective) processed
    rw [← same, compiler] at kept
    rw [← unchanged]
    exact ih same.symm others ((congrArg Aside.inDirective kept).trans noDirective)
      ((congrArg Aside.tryRegion kept).trans outside) readOn

/-! ## Expressions over locals -/

mutual

/-- Constants, variables of the current method, and groups. -/
def Term.OverLocals (scope : Scope) : Term → Prop
  | .constant _ => True
  | .var name => ∃ var, scope.session.lookupVar name = .ok (some var)
  | .group inner => inner.OverLocals scope
  | .call .. | .construct .. | .array .. => False

/-- Chains of binary operators, down to constants and variables. -/
def Expr.OverLocals (scope : Scope) : Expr → Prop
  | .operand _ term => term.OverLocals scope
  | .binary left op _ right => left.OverLocals scope ∧ op.isBinary = true ∧ right.OverLocals scope

end

theorem OpenBody.binary_refused {body : OpenBody} {code : List Instruction} {c : Compiler}
    (awaits : c.Awaits body code) {op : Operator}
    (refused : ∀ plan, body.session.table.planOperator c.frame.operand op ≠ .ok plan)
    (value : c.frame.hasValue = true) (waiting : c.frame.pendingOp = none) {later : Compiler}
    {problems : List Problem} (ran : Compile.binary op c = .ok ((), later, problems)) :
    problems ≠ [] := by
  simp only [Compile.binary, Compile.bind_eq (flushReference_nil awaits.literals),
    Compile.get_bind_apply, value, Bool.not_true, Bool.false_eq_true, if_false, waiting,
      awaits.session, table_sessionWith] at ran
  cases planned : body.session.table.planOperator c.frame.operand op with
  | ok plan => exact absurd planned (refused plan)
  | error failure =>
    rw [planned] at ran
    cases failure with
    | problem problem =>
      have reported : [problem] = problems := congrArg (fun outcome => outcome.2.2) (Except.ok.inj ran)
      simp [← reported]
    | fault fault => cases ran

/-- The value before the operator is read in one of three ways, and the operator is refused after
all of them. -/
theorem Settled.stumbles_operator {body : OpenBody} {target c : Compiler} {code : List Instruction}
    (settled : Settled body target c) (awaits : target.Awaits body code) {op : Operator}
    (isBinary : op.isBinary = true) (refused : ∀ plan,
      body.session.table.planOperator target.frame.operand op ≠ .ok plan)
    (value : target.frame.hasValue = true) (waiting : target.frame.pendingOp = none)
    (rest : List Token) : Stumbles (.operator op :: rest) c := by
  refine .here fun stream later problems stepped => ?_
  rw [(settled.withStream stream).step_operator_eq (awaits.withStream stream) isBinary value
    waiting] at stepped
  exact binary_refused (awaits.withStream stream) refused value waiting stepped

section Stumbling

variable {body : OpenBody}

mutual

theorem Term.stumbles (term : Term) (known : term.OverLocals body.scope)
    (noCode : term.compile body.scope = none) {c : Compiler} {code : List Instruction}
    (awaits : c.Awaits body code) : Stumbles term.tokens c := by
  cases term with
  | constant value => simp [Term.compile] at noCode
  | var name =>
    obtain ⟨var, found⟩ := known
    simp [Term.compile, found, Except.toOption] at noCode
  | group inner =>
    rw [Term.compile] at noCode
    rw [Term.tokens]
    have entered : (c.entered c.nesting.inStatement .group).Awaits body code :=
      awaits_entered awaits _ rfl
    exact .later _ (fun stream => step_openGroup (awaits.withStream stream))
      ((inner.stumbles known noCode entered rfl).append _)
  | call | construct | array => cases known

theorem Expr.stumbles (expr : Expr) (known : expr.OverLocals body.scope)
    (noCode : expr.compile body.scope = none) {c : Compiler} {code : List Instruction}
    (awaits : c.Awaits body code) (idle : c.frame.isIdle = true) : Stumbles expr.tokens c := by
  obtain ⟨depth, failed, -, not, neg⟩ := Frame.isIdle_iff.mp idle
  cases expr with
  | operand sign term =>
    have empty : c.frame.hasValue = false := by simp [Frame.hasValue, depth, failed]
    have signedAwaits : (signed sign c).Awaits body code := awaits_modifyFrame awaits _ fun _ => rfl
    rw [Expr.tokens]
    refine (reads_sign sign awaits neg not (.inl empty)).stumbles (term.stumbles known ?_ signedAwaits)
    cases compiled : term.compile body.scope with
    | none => rfl
    | some value => simp [Expr.compile, compiled] at noCode
  | binary left op sign right =>
    obtain ⟨overLeft, isBinary, overRight⟩ := known
    rw [Expr.tokens]
    cases leftCompiled : left.compile body.scope with
    | none => exact ((left.stumbles overLeft leftCompiled awaits idle).append _).append _
    | some value =>
      have chain := left.yields leftCompiled
      cases planned : body.session.table.planOperator value.type op with
      | ok plan =>
        -- The left operand and the operator are read, so that it is the right operand that has no
        -- code.
        obtain ⟨read, signedAwaits, -, -⟩ := reads_binary chain planned awaits idle
        refine read.stumbles (right.stumbles overRight ?_ signedAwaits)
        have planned : body.scope.session.table.planOperator value.type op = .ok plan := planned
        cases rightCompiled : right.compile body.scope with
        | none => rfl
        | some operand =>
          simp [Expr.compile, leftCompiled, rightCompiled, planned, Except.toOption] at noCode
      | error failure =>
        obtain ⟨after, read, settled⟩ := chain awaits idle
        have frame : (body.pushed (code ++ value.code) value.type c).frame = c.frame.taking value.type :=
          frame_pushed_first idle _ _
        have valueAwaits := awaits_pushed_first awaits idle (code ++ value.code) value.type
        refine (read.stumbles (settled.stumbles_operator valueAwaits isBinary ?_ ?_ ?_ _)).append _
        · rw [frame]
          exact fun plan isPlan => by cases planned.symm.trans isPlan
        · rw [frame]
          simp [Frame.hasValue, Frame.taking, depth]
        · rw [frame]
          rfl

end

end Stumbling

section Tokens

variable {scope : Scope}

mutual

theorem Term.isPlain_tokens (term : Term) (known : term.OverLocals scope) :
    ∀ token ∈ term.tokens, token.isPlain = true := by
  cases term with
  | constant | var => simp [Term.tokens, Token.isPlain]
  | group inner =>
    have plain := inner.isPlain_tokens known
    simpa [Term.tokens, Token.isPlain, or_imp, forall_and] using plain
  | call | construct | array => cases known

theorem Expr.isPlain_tokens (expr : Expr) (known : expr.OverLocals scope) :
    ∀ token ∈ expr.tokens, token.isPlain = true := by
  have signs (sign : Sign) : ∀ token ∈ sign.tokens, token.isPlain = true := by
    cases sign <;> simp [Sign.tokens, Token.isPlain]
  cases expr with
  | operand sign term =>
    rw [Expr.tokens]
    exact List.forall_mem_append.mpr ⟨signs sign, term.isPlain_tokens known⟩
  | binary left op sign right =>
    obtain ⟨overLeft, -, overRight⟩ := known
    rw [Expr.tokens]
    exact List.forall_mem_append.mpr ⟨List.forall_mem_append.mpr ⟨left.isPlain_tokens overLeft,
      List.forall_mem_cons.mpr ⟨rfl, signs sign⟩⟩, right.isPlain_tokens overRight⟩

end

end Tokens

/-! ## Assignments -/

section Assignment

variable {body : OpenBody} {name : String} {var : LocalVar} {last : Instruction}

theorem Use.compile_stored (found : body.session.lookupVar name = .ok (some var))
    (stores : var.store? = some last) {expr : Expr} {value : Value}
    (compiled : expr.compile body.scope = some value) :
    (Use.stored name).compile body.scope expr = some (value.code ++ [last]) := by
  have found : body.scope.session.lookupVar name = .ok (some var) := found
  simp [Use.compile, compiled, Use.instruction?, found, stores, Except.toOption]

/-- An assignment of an expression over locals that leaves no diagnostic is compiled as its syntax
says. -/
theorem Build.exists_of_read_assignment {build done : Build} (rests : build.compiler.Rests body)
    (outside : build.compiler.tryRegion = false)
    (found : body.session.lookupVar name = .ok (some var)) (stores : var.store? = some last)
    {expr : Expr} (known : expr.OverLocals body.scope)
    (read : build.read ((Use.stored name).tokens expr) = .ok done)
    (silent : done.diagnostics = build.diagnostics) : ∃ value, expr.compile body.scope = some value ∧
      done = { build with compiler := build.compiler.written body (value.code ++ [last]) } := by
  cases compiled : expr.compile body.scope with
  | some value =>
    have reads := Use.reads rests (.stored name) expr (Use.compile_stored found stores compiled)
    rw [reads.read rfl] at read
    cases read
    exact ⟨value, rfl, rfl⟩
  | none =>
    have waits := rests.awaits.withConsume (.assign (some (.var var)))
    have stumbles : Stumbles ((Use.stored name).tokens expr) build.compiler :=
      (rests.reads_target found build.compiler.consume).stumbles
        ((expr.stumbles known compiled waits rests.frame_idle).append [.expressionEnd])
    have plain : ∀ token ∈ (Use.stored name).tokens expr, token.isPlain = true := by
      simpa [Use.tokens, Token.isPlain, or_imp, forall_and] using expr.isPlain_tokens known
    have more := stumbles.lt_diagnostics rfl plain rests.inDirective outside read
    rw [silent] at more
    exact absurd more (Nat.lt_irrefl _)

end Assignment

end OnePass
