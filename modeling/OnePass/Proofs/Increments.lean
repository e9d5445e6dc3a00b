import OnePass.Proofs.Expression.OpenBody
import OnePass.Proofs.Integrity.Build
import OnePass.Proofs.Layout.Names

/-! # Increments and decrements

A step of a name by one loads what the name means, adds or subtracts one and stores the result. For
a field the three are emitted together, so that either all of them or none are in the code. For a
variable the store is emitted on its own, after it was checked whether the variable takes one. A
final local that was stored to refuses: that is reported, and the load and the addition are left in
the code without their store.

In every other case the step is all or nothing. What is refused is reported before any code is
emitted. -/

namespace OnePass

open MethodDraft Session

/-! ## The code of a step -/

/-- The code that adds one to the value on the stack, or takes one away. -/
def Operator.stepCode (op : Operator) : List Instruction :=
  [⟨.ldcI4One, .none⟩, ⟨if op = .dec then .sub else .add, .none⟩]

namespace SymbolTable

/-- The code that leaves a receiver on the stack twice: once for the load of its field, and once for
the store. -/
def receiverCode (table : SymbolTable) : Option Receiver → Except Fault (List Instruction)
  | none => return []
  | some (.var var) => return [var.load, ⟨.dup, .none⟩]
  | some (.field ref) => do return [(← table.field ref).load ref, ⟨.dup, .none⟩]
  | some .this => return [⟨.ldarg, .arg 0⟩, ⟨.dup, .none⟩]

/-- The code that steps what a name means by one. The store comes last. -/
def steppingCode (table : SymbolTable) (op : Operator) : Reference → Except Fault (List Instruction)
  | .var var => return var.load :: op.stepCode ++ [var.store]
  | .field receiver ref => do
    let field ← table.field ref
    let store := ⟨if field.isStatic then .stsfld else .stfld, .field ref⟩
    return (← table.receiverCode receiver) ++ field.load ref :: op.stepCode ++ [store]
  | .constant _ | .missing _ => return []

end SymbolTable

namespace MethodDraft

/-- Why a method takes no further store to a variable: it is a final that has one. -/
def refusal? (method : MethodDraft) : VarSlot → Option Problem
  | .final index => do
    let found ← method.locals[index.toNat]?
    if found.assigned then some (.finalAssignedTwice found.name) else none
  | .mutable _ | .param _ => none

/-- What a step of a name leaves behind, where the store comes last in its code: the method and the
problems. -/
def Stepped (method : MethodDraft) (code : List Instruction) (name : String) (reference : Reference)
    (changed : MethodDraft) (problems : List Problem) : Prop :=
  match reference with
  | .var var =>
    match method.refusal? var.slot with
    | none => problems = [] ∧ changed.code = method.code ++ code
    | some problem => problems = [problem] ∧ changed.code = method.code ++ code.dropLast
  | .field _ _ => problems = [] ∧ changed.code = method.code ++ code
  | .constant _ => problems = [.constantChanged name] ∧ changed = method
  | .missing name => problems = [.unknownName name] ∧ changed = method

variable {method : MethodDraft}

theorem step_eq_append (op : Operator) : method.step op = method.append op.stepCode := by
  simp [step, emit, append, Operator.stepCode]

theorem storeVar_outcome (method : MethodDraft) {var : LocalVar} (has : method.Has var.slot) :
    (method.refusal? var.slot = none ∧
        ∃ stored, method.storeVar var = .ok stored ∧ stored.code = method.code ++ [var.store]) ∨
      ∃ problem, method.refusal? var.slot = some problem ∧
        method.storeVar var = .error (.problem problem) := by
  obtain ⟨slot, type⟩ := var
  cases slot with
  | mutable index | param index => exact .inl ⟨rfl, _, rfl, rfl⟩
  | final index =>
    have inRange : index.toNat < method.locals.length := has
    by_cases assigned : method.locals[index.toNat].assigned
    · refine .inr ⟨.finalAssignedTwice method.locals[index.toNat].name, ?_, ?_⟩
      · simp [refusal?, inRange, assigned]
      · simp [storeVar, markAssigned, inRange, assigned, bind, Except.bind]
    · refine .inl ⟨by simp [refusal?, inRange, assigned], ?_⟩
      simp [storeVar, markAssigned, inRange, assigned, bind, Except.bind, pure, Except.pure,
        emit, append, LocalVar.store]

end MethodDraft

theorem SymbolTable.stepField_eq_append {table : SymbolTable} {receiver : Option Receiver}
    {ref : MemberRef} (known : table.Holds (Reference.field receiver ref).symbols) (op : Operator)
    (method : MethodDraft) : ∃ code, table.steppingCode op (.field receiver ref) = .ok code ∧
      Compile.stepField op receiver ref table method = .ok ((), method.append code) := by
  have lift_ok {α : Type} (a : α) : (liftM (Except.ok a : Except Fault α) : Except Failure α) =
    .ok a := rfl
  obtain ⟨field, found⟩ := SymbolTable.Has.exists_field
    (known (.field ref) (by simp [Reference.symbols]))
  have holder (object : MemberRef) (isField : receiver = some (.field object)) :
      ∃ held, table.field object = .ok held :=
    SymbolTable.Has.exists_field (known (.field object)
      (by simp [isField, Reference.symbols, Receiver.symbols]))
  rcases receiver with - | var | object | -
  case some.field =>
    obtain ⟨held, here⟩ := holder object rfl
    simp [here, steppingCode, receiverCode, FieldDef.load, Compile.stepField, loadReceiver,
      loadField, storeField, MethodDraft.step_eq_append, MethodDraft.emit, MethodDraft.append,
      found, lift_ok, bind, Except.bind, pure, Except.pure]
  all_goals
    simp [steppingCode, receiverCode, FieldDef.load, Compile.stepField, loadReceiver,
      loadThis, loadVar_eq_append, loadField, storeField,
      MethodDraft.step_eq_append, MethodDraft.emit, MethodDraft.append, found, lift_ok, bind,
        Except.bind, pure,
      Except.pure]

/-- What is reported of a construct that had to end before an operator. -/
def Compiler.unended (c : Compiler) : List Problem := c.needEnd.toList.map Compile.notEnded

/-! ## Emission -/

namespace Compile

variable {α β : Type} {c mid later : Compiler}

theorem emitting_done (work : SymbolTable → MethodDraft → Except Failure (α × MethodDraft)) {a : α}
    {method changed : MethodDraft} (current : c.session.currentMethod? = .ok (some method))
    (worked : work c.session.table method = .ok (a, changed)) :
    ∃ session, session.currentMethod? = .ok (some changed) ∧
      emitting work c = .ok (.done a, { c with session := session }, []) := by
  obtain ⟨index, draft, rest, found, openMethods⟩ := currentMethod?_eq_some current
  obtain ⟨-, -, isOpen⟩ := current?_eq_some found
  obtain ⟨-, sets⟩ := setMethod_of_current found openMethods
  refine ⟨c.session.setDraft index { draft with openMethods := changed :: rest }, ?_, ?_⟩
  · rw [currentMethod?, currentType?,
      current?_setDraft found { draft with openMethods := changed :: rest } isOpen]
    rfl
  · simp [emitting, current, worked, sets, -bind_pure_comp]

theorem emitting_refused (work : SymbolTable → MethodDraft → Except Failure (α × MethodDraft))
    {method : MethodDraft} {problem : Problem}
    (current : c.session.currentMethod? = .ok (some method))
    (refused : work c.session.table method = .error (.problem problem)) :
    emitting work c = .ok (.refused, c, [problem]) := by
  simp [emitting, current, refused, attempt]
  rfl

theorem stepName_outcome (sound : c.Sound) (op : Operator) (segments : List String)
    {method : MethodDraft} (current : c.session.currentMethod? = .ok (some method)) :
    ∃ reference code later changed problems, c.session.resolveReference segments c.usings =
      .ok reference ∧ c.session.table.steppingCode op reference = .ok code ∧
      stepName op segments c = .ok ((), later, problems) ∧
      later.session.currentMethod? = .ok (some changed) ∧
      method.Stepped code (dotted segments) reference changed problems := by
  obtain ⟨reference, resolved, known⟩ := exists_of_ensures
    (sound.session.ensures_resolveReference segments c.usings)
  have here : resolveHere segments c = .ok (reference, c, []) := by simp [resolveHere, resolved]; rfl
  cases reference with
  | var var =>
    have has : method.Has var.slot :=
      ((c.session.means_resolveReference segments c.usings).of_ok resolved method current).has
    have starts : (method.loadVar var).step op = method.append (var.load :: op.stepCode) := by
      simp [MethodDraft.step_eq_append, loadVar_eq_append, MethodDraft.append]
    obtain ⟨session, now, emitted⟩ := emitting_done
      (fun _ method => .ok ((), (method.loadVar var).step op)) current (by rw [starts])
    rcases MethodDraft.storeVar_outcome (method.append (var.load :: op.stepCode)) has with
      ⟨free, stored, stores, ends⟩ | ⟨problem, refused, fails⟩
    · obtain ⟨done, last, finished⟩ := emitting_done (c := { c with session := session })
        (fun _ method => do return ((), ← method.storeVar var)) now (by rw [stores]; rfl)
      refine ⟨_, _, { c with session := done }, stored, [], resolved, rfl, ?_, last, ?_⟩
      · rw [stepName, bind_eq here]
        exact (bind_eq emitted).trans (bind_eq finished)
      · replace free : method.refusal? var.slot = none := free
        simp [MethodDraft.Stepped, free, ends, MethodDraft.append]
    · have reported := emitting_refused (c := { c with session := session })
        (fun _ method => do return ((), ← method.storeVar var)) now (by rw [fails]; rfl)
      refine ⟨_, _, { c with session := session }, _, [problem], resolved, rfl, ?_, now, ?_⟩
      · rw [stepName, bind_eq here]
        exact (bind_eq emitted).trans (bind_ok reported rfl)
      · replace refused : method.refusal? var.slot = some problem := refused
        simp [MethodDraft.Stepped, refused, MethodDraft.append, Operator.stepCode]
  | field receiver ref =>
    obtain ⟨code, codes, stepped⟩ := SymbolTable.stepField_eq_append known op method
    obtain ⟨session, now, emitted⟩ := emitting_done _ current stepped
    refine ⟨_, code, { c with session := session }, _, [], resolved, codes, ?_, now, rfl, rfl⟩
    rw [stepName, bind_eq here]
    exact bind_eq emitted
  | constant value =>
    refine ⟨_, [], c, method, _, resolved, rfl, ?_, current, rfl, rfl⟩
    rw [stepName, bind_eq here]
    rfl
  | missing name =>
    refine ⟨_, [], c, method, _, resolved, rfl, ?_, current, rfl, rfl⟩
    rw [stepName, bind_eq here]
    rfl

end Compile

namespace Compile

/-- An operator that steps a name, where no clause of a type waits for the token. -/
theorem step_operator_eq {c : Compiler} {op : Operator} (steps : op = .inc ∨ op = .dec)
    (named : c.literals ≠ []) (noBase : c.pendingExtends = false) (noList : c.interfaces = none)
    (noResult : c.retractable = none) {later : Compiler} {problems : List Problem}
    (stepped : stepName op c.literals { c with needEnd := none }.clearName =
      .ok ((), later, problems)) :
    step (.operator op) c = .ok ((), later, c.unended ++ problems) := by
  have checked : checkEnd (.operator op) c = .ok ((), { c with needEnd := none }, c.unended) := by
    cases needEnd : c.needEnd with
    | none =>
      have same : c = { c with needEnd := none } := by rw [← needEnd]
      simpa [checkEnd, needEnd, Compiler.unended] using same
    | some reason =>
      cases reason <;> simp [checkEnd, needEnd, Compiler.unended, endsFor, Token.isEnd] <;> rfl
  have taken : takeRetractable c = .ok (none, c, []) := by
    have same : { c with retractable := none } = c := by rw [← noResult]
    simpa [takeRetractable, noResult, -bind_pure_comp] using same
  rw [step, bind_eq taken]
  refine bind_ok checked ?_
  have operates : operator op none { c with needEnd := none } = .ok ((), later, problems) := by
    rcases steps with rfl | rfl <;> simpa [operator, stepValue, takeName, named] using stepped
  simpa [readBase, noBase, readInterfaces, noList, Token.isEnd, dispatch] using operates

end Compile

/-- In every state that a build reaches inside a method, `++` and `--` after a name load what the
name means, step it and store it back, all in one. If the store is refused, that is reported, as are
a constant and an unknown name, and `MethodDraft.Stepped` says what is left of the code. -/
theorem step_of_name_outcome {files : FileTree} {stream : TokenStream} {options : BuildOptions}
    {autoName : Bool} {build : Build} (reached : Build.Reached files stream options autoName build)
    {op : Operator} (steps : op = .inc ∨ op = .dec) {method : MethodDraft}
    (current : build.compiler.session.currentMethod? = .ok (some method))
    (named : build.compiler.literals ≠ []) (noBase : build.compiler.pendingExtends = false)
    (noList : build.compiler.interfaces = none) (noResult : build.compiler.retractable = none) :
    ∃ reference code later changed problems,
      build.compiler.session.resolveReference build.compiler.literals build.compiler.usings =
        .ok reference ∧
      build.compiler.session.table.steppingCode op reference = .ok code ∧
      Compile.step (.operator op) build.compiler = .ok ((), later, build.compiler.unended ++ problems) ∧
      later.session.currentMethod? = .ok (some changed) ∧
      method.Stepped code (dotted build.compiler.literals) reference changed problems := by
  have sound : { build.compiler with needEnd := none }.clearName.Sound :=
    { reached.sound with named := fun _ => rfl }
  obtain ⟨reference, code, later, changed, problems, resolved, codes, stepped, now, outcome⟩ :=
    Compile.stepName_outcome sound op build.compiler.literals current
  exact ⟨reference, code, later, changed, problems, resolved, codes,
    Compile.step_operator_eq steps named noBase noList noResult stepped, now, outcome⟩

/-- A script that declares a variable and steps it. -/
def steppedVariable (isFinal : Bool) : TokenStream where
  header := .script
  platform := 0
  tokens := [.var "x" "int" isFinal, .operator .assign, .value (.int 1), .expressionEnd,
    .literal "x", .operator .inc]

/-- `x++` on a local adds four instructions: load, one, add, store. -/
theorem steppedVariable_code :
    ∃ build method later changed, Build.Reached (.empty []) (steppedVariable false) {} false build ∧
      build.compiler.session.currentMethod? = .ok (some method) ∧
      Compile.step (.operator .inc) build.compiler = .ok ((), later, []) ∧
      later.session.currentMethod? = .ok (some changed) ∧
      changed.code = method.code ++
        [⟨.ldloc, .loc 0⟩, ⟨.ldcI4One, .none⟩, ⟨.add, .none⟩, ⟨.stloc, .loc 0⟩] := by
  have reached : Build.Reached (.empty []) (steppedVariable false) {} false _ :=
    .step (.step (.step (.step (.step (.start rfl) rfl rfl) rfl rfl) rfl rfl) rfl rfl) rfl rfl
  obtain ⟨reference, code, later, changed, problems, resolved, codes, stepped, now, outcome⟩ :=
    step_of_name_outcome reached (.inl rfl) rfl (by simp) rfl rfl rfl
  cases resolved
  cases codes
  obtain ⟨rfl, ends⟩ := outcome
  exact ⟨_, _, later, changed, reached, rfl, stepped, now, ends⟩

/-- The store to a final that has one is refused, and the code before it stays. -/
theorem steppedFinal_leaves_load :
    ∃ build method later changed, Build.Reached (.empty []) (steppedVariable true) {} false build ∧
      build.compiler.session.currentMethod? = .ok (some method) ∧
      Compile.step (.operator .inc) build.compiler = .ok ((), later, [.finalAssignedTwice "x"]) ∧
      later.session.currentMethod? = .ok (some changed) ∧
      changed.code = method.code ++ [⟨.ldloc, .loc 0⟩, ⟨.ldcI4One, .none⟩, ⟨.add, .none⟩] := by
  have reached : Build.Reached (.empty []) (steppedVariable true) {} false _ :=
    .step (.step (.step (.step (.step (.start rfl) rfl rfl) rfl rfl) rfl rfl) rfl rfl) rfl rfl
  exact ⟨_, _, _, _, reached, rfl, rfl, rfl, rfl⟩

end OnePass
