import OnePass.Proofs.Outline.Declaration
import OnePass.Proofs.Termination

/-! # What a step does

The step on a token is described by `Compiler.Steps`: the session acts, the brackets of the token
are opened or closed (`Token.nest`), and apart from imports and lists of interfaces the step goes on
in the stream and begins nothing that takes tokens away. In every state of a build, what became of
the session is the work of such steps. -/

namespace OnePass

/-! ## Brackets -/

/-- What a token does to the open brackets. A closing bracket that does not fit is ignored. -/
def Token.nest : Token → Nested → Nested
  | .block true, nested => { nested with nesting := { nested.nesting with blocks := nested.nesting.blocks + 1 } }
  | .block false, nested => { nested with nesting := { nested.nesting with blocks := nested.nesting.blocks - 1 } }
  | .statement true, nested =>
    ⟨{ nested.nesting with statements := nested.nesting.statements + 1 },
      .statement :: nested.brackets⟩
  | .statement false, nested =>
    if nested.nesting.statements = 0 ∨ nested.brackets.head? = some .sequence then nested
    else ⟨{ nested.nesting with statements := nested.nesting.statements - 1 }, nested.brackets.tail⟩
  | .sequence true, nested =>
    ⟨{ nested.nesting with sequences := nested.nesting.sequences + 1 }, .sequence :: nested.brackets⟩
  | .sequence false, nested =>
    if nested.nesting.sequences = 0 ∨ nested.brackets.head? ≠ some .sequence then nested
    else ⟨{ nested.nesting with sequences := nested.nesting.sequences - 1 }, nested.brackets.tail⟩
  | _, nested => nested

/-- The brackets of an expression are counted: parentheses and square brackets. -/
structure Nested.Counts (nested : Nested) : Prop where
  statements : nested.nesting.statements = nested.brackets.count .statement
  sequences : nested.nesting.sequences = nested.brackets.count .sequence
  kinds : .block ∉ nested.brackets

theorem Nested.Counts.nest {nested : Nested} (counts : nested.Counts) (token : Token) :
    (token.nest nested).Counts := by
  obtain ⟨⟨blocks, statements, sequences⟩, brackets⟩ := nested
  obtain ⟨rfl, rfl, kinds⟩ : statements = brackets.count .statement ∧
      sequences = brackets.count .sequence ∧ .block ∉ brackets :=
        ⟨counts.statements, counts.sequences, counts.kinds⟩
  unfold Token.nest
  split
  · exact ⟨rfl, rfl, kinds⟩
  · exact ⟨rfl, rfl, kinds⟩
  · exact ⟨by simp, by simp, by simpa using kinds⟩
  · -- Only the innermost bracket is closed, and only by its own kind.
    split
    · exact ⟨rfl, rfl, kinds⟩
    rename_i fits
    cases brackets with
    | nil => simp at fits
    | cons bracket rest =>
      cases bracket with
      | block => exact absurd List.mem_cons_self kinds
      | statement => exact ⟨by simp, by simp, fun here => kinds (List.mem_cons_of_mem _ here)⟩
      | sequence => simp at fits
  · exact ⟨by simp, by simp, by simpa using kinds⟩
  · split
    · exact ⟨rfl, rfl, kinds⟩
    rename_i fits
    cases brackets with
    | nil => simp at fits
    | cons bracket rest =>
      cases bracket with
      | block => exact absurd List.mem_cons_self kinds
      | statement => simp at fits
      | sequence => exact ⟨by simp, by simp, fun here => kinds (List.mem_cons_of_mem _ here)⟩
  · exact ⟨rfl, rfl, kinds⟩

theorem Nested.Counts.brackets_eq_nil {nested : Nested} (counts : nested.Counts)
    (statements : nested.nesting.statements = 0) (sequences : nested.nesting.sequences = 0) :
    nested.brackets = [] := by
  refine List.eq_nil_iff_forall_not_mem.mpr fun bracket here => ?_
  cases bracket with
  | block => exact counts.kinds here
  | statement => exact List.count_eq_zero.mp (counts.statements ▸ statements) here
  | sequence => exact List.count_eq_zero.mp (counts.sequences ▸ sequences) here

/-- Whether a token includes a module. -/
def Token.isInclude : Token → Bool
  | .includeModule _ => true
  | _ => false

/-- What the step on a token can do to the state. Inside a list of interfaces the token may be
swallowed. -/
structure Compiler.Steps (token : Token) (c later : Compiler) : Prop where
  session : c.session.Becomes token.isInclude later.session
  nested : c.interfaces = none → later.nested = token.nest c.nested
  brackets : later.nested = c.nested ∨ later.nested = token.nest c.nested
  stream : (∀ path, token ≠ .importLibrary path) →
    ∃ taken, c.stream = taken ++ later.stream ∧ ∀ token ∈ taken, token.isArgument = true
  interfaces : token ≠ .implementsClause → c.interfaces = none → later.interfaces = none

namespace Compiler

variable {c later : Compiler} {token : Token}

theorem Proceeds.steps (proceeds : c.Proceeds token.nest later) : c.Steps token later where
  session := proceeds.session.weaken
  nested := fun _ => proceeds.nested
  brackets := .inr proceeds.nested
  stream := fun _ => proceeds.stream
  interfaces := fun _ => proceeds.interfaces

theorem Proceeds.trans_steps {last : Compiler} (first : c.Proceeds id later)
    (second : later.Steps token last) : c.Steps token last where
  session := first.session.weaken.trans second.session
  nested := fun none => by rw [second.nested (first.interfaces none), first.nested, id]
  brackets := by
    have same : later.nested = c.nested := first.nested
    rw [← same]
    exact second.brackets
  stream := fun isOther => arguments_trans first.stream (second.stream isOther)
  interfaces := fun isOther none => second.interfaces isOther (first.interfaces none)

end Compiler

namespace Compile

variable {α : Type} {c : Compiler} {token : Token}

/-- The action does what the step on a token may do. -/
def Steps (token : Token) (action : Compile Unit) : Prop := ∀ c, action.Leads c fun _ later =>
      c.Steps token later

/-- For a token that is no bracket, it is enough to leave the brackets alone. -/
theorem Within.steps {action : Compile Unit} (proceeds : action.Proceeds) (same : token.nest = id) :
    action.Steps token :=
  fun c => (proceeds c).imp fun _ later here => Compiler.Proceeds.steps (by rw [same]; exact here)

theorem Within.bind_steps {action : Compile α} {next : α → Compile Unit} (first : action.Proceeds)
    (second : ∀ a, (next a).Steps token) : (action >>= next).Steps token := by
  intro c
  rw [Compile.leads_bind]
  refine (first c).imp fun a later toLater => ?_
  exact (second a later).imp fun _ last toLast => toLater.trans_steps toLast

/-! ## Brackets of an expression -/

theorem steps_openStatement : openStatement.Steps (.statement true) := fun c =>
  (leads_openStatement c).imp fun _ _ changed =>
    Compiler.Proceeds.steps (.of_outline changed rfl rfl rfl rfl)

theorem steps_closeStatement : closeStatement.Steps (.statement false) := by
  intro c
  refine (leads_closeStatement c).imp fun _ later changed => Compiler.Proceeds.steps ?_
  by_cases ignored : c.nesting.statements = 0 ∨ c.outline.brackets.head? = some .sequence
  · rw [if_pos ignored] at changed
    exact .of_outline changed rfl (if_pos ignored).symm rfl rfl
  · rw [if_neg ignored] at changed
    exact .of_outline changed rfl (if_neg ignored).symm rfl rfl

theorem steps_openSequence : openSequence.Steps (.sequence true) := fun c =>
  (leads_openSequence c).imp fun _ _ changed =>
    Compiler.Proceeds.steps (.of_outline changed rfl rfl rfl rfl)

theorem steps_closeSequence : closeSequence.Steps (.sequence false) := by
  intro c
  refine (leads_closeSequence c).imp fun _ later changed => Compiler.Proceeds.steps ?_
  by_cases ignored : c.nesting.sequences = 0 ∨ c.outline.brackets.head? ≠ some .sequence
  · rw [if_pos ignored] at changed
    exact .of_outline changed rfl (if_pos ignored).symm rfl rfl
  · rw [if_neg ignored] at changed
    exact .of_outline changed rfl (if_neg ignored).symm rfl rfl

/-! ## Blocks and ends -/

theorem steps_openBlock : openBlock.Steps (.block true) := by
  rw [openBlock]
  refine Within.bind_steps keeps_endExpression.alike.proceeds fun _ c => ?_
  rw [leads_modify_bind, leads_get_bind]
  refine leads_lift_ok fun type current => ?_
  dsimp only at current ⊢
  refine leads_lift_ok fun session begun => ?_
  rw [leads_modify]
  exact Compiler.Proceeds.steps (.of_becomes (Session.Acts.beginBody current
    begun).becomes rfl rfl rfl)

theorem proceeds_closeOwner (owner : Option BlockOwner) : (closeOwner owner).Proceeds := by
  unfold closeOwner
  refine within_get.bind fun c => ?_
  dsimp only
  split
  · exact proceeds_closing fun session => gives_iff.mpr fun _ closed => .closeType closed
  · exact proceeds_closing fun session => gives_iff.mpr fun _ closed => .closeMethod closed
  · exact within_pure ()
  · exact within_pure ()

theorem steps_closeBlock : closeBlock.Steps (.block false) := by
  rw [closeBlock]
  refine Within.bind_steps keeps_endExpression.alike.proceeds fun _ c => ?_
  rw [leads_get_bind]
  split
  · -- No block is open, and the count stops at zero.
    rename_i isZero
    have none : c.nesting.blocks = 0 := by simpa using isZero
    have same : c.nesting.blocks - 1 = c.nesting.blocks := by omega
    refine leads_report.mpr (Compiler.Proceeds.steps (.of_session_eq rfl ?_ rfl rfl))
    simp [Token.nest, Compiler.nested, same]
  · rw [leads_modify_bind]
    refine (proceeds_closeOwner _ _).imp fun _ later toLater => Compiler.Proceeds.steps ?_
    have closed : c.Proceeds (Token.nest (.block false))
        { c with
          nesting := { c.nesting with blocks := c.nesting.blocks - 1 }
          blocks := c.blocks.tail } :=
      .of_session_eq rfl rfl rfl rfl
    exact closed.trans toLater

theorem proceeds_expressionEnd : expressionEnd.Proceeds := by
  rw [expressionEnd]
  refine Within.bind keeps_endExpression.alike.proceeds fun _ => within_get.bind fun c => ?_
  refine (within_lift _).bind fun found => ?_
  cases found with
  | none => exact within_pure ()
  | some type =>
    dsimp only
    split
    · exact proceeds_closing fun session => gives_iff.mpr fun _ closed => .closeType closed
    · split
      · exact proceeds_closing fun session => gives_iff.mpr fun _ closed => .closeMethod closed
      · exact within_pure ()

/-! ## Dispatch -/

theorem proceeds_literal (text : String) : (literal text).Proceeds := by
  have notes : (modify fun compiler =>
      { compiler with literals := compiler.literals ++ [text], expectLiteral := false }).Proceeds :=
    proceeds_modify fun _ => rfl
  rw [literal]
  refine within_get.bind fun c => ?_
  dsimp only
  split
  · refine Within.bind (proceeds_modify fun _ => rfl) fun _ => ?_
    exact (noting_directive text).proceeds
  · split
    · exact Within.bind keeps_flushReference.alike.proceeds fun _ => notes
    · exact notes

theorem proceeds_memberSeparator : memberSeparator.Proceeds := by
  rw [memberSeparator]
  refine within_get.bind fun c => ?_
  split
  · exact within_report _
  · exact proceeds_modify fun _ => rfl

/-- A declaration for the whole file. An import adds tokens and nothing else. -/
theorem gives_declare {result : Except Failure Compiler}
    (declared : c.declare? token = some result) : Gives result (c.Steps token) := by
  cases token with
  | enterNamespace name =>
    cases declared
    rw [gives_lift_problem, Compiler.enterNamespace]
    split
    · exact gives_error
    · exact Compiler.Proceeds.steps (.of_session_eq rfl rfl rfl rfl)
  | usingNamespace name =>
    cases declared
    rw [gives_ok, Compiler.useNamespace]
    split <;> exact Compiler.Proceeds.steps (.of_session_eq rfl rfl rfl rfl)
  | includeModule path =>
    cases declared
    rw [Compiler.includeModule]
    refine gives_bind_ok fun image _ => ?_
    refine gives_bind_ok ?_
    rintro ⟨ids, table⟩ registered
    exact
      { session := (Session.Acts.includeModule rfl registered).becomes
        nested := fun _ => rfl
        brackets := .inl rfl
        stream := fun _ => ⟨[], rfl, by simp⟩
        interfaces := fun _ => id }
  | importLibrary path =>
    cases declared
    rw [gives_lift_problem, Compiler.importLibrary]
    split
    · exact Compiler.Proceeds.steps (.of_session_eq rfl rfl rfl rfl)
    · refine gives_bind_ok fun tokens _ => ?_
      exact
        { session := .refl _
          nested := fun _ => rfl
          brackets := .inl rfl
          stream := fun isOther => absurd rfl (isOther path)
          interfaces := fun _ => id }
  | _ => cases declared

theorem steps_declaration (token : Token) (same : token.nest = id) :
    (declaration token).Steps token := by
  intro c
  rw [declaration, leads_get_bind]
  have stays : c.Steps token c := Compiler.Proceeds.steps (by rw [same]; exact refl_of _ c)
  split
  · exact leads_pure.mpr stays
  · rename_i result declared
    rw [leads_bind]
    refine leads_attempt ?_ (leads_pure.mpr stays)
    exact (gives_declare declared).imp fun later steps => leads_modify.mpr steps

theorem steps_dispatch (token : Token) (retract : Option TypeId) :
    (dispatch token retract).Steps token := by
  -- A token that only leaves a mark for the next ones.
  have marks {change : Compiler → Compiler} (same : ∀ c, (change c).described = c.described)
      (isOther : token.nest = id) : (modify change).Steps token :=
    Within.steps (proceeds_modify same) isOther
  have closed : checkClosed.Proceeds := within_get.bind fun c => within_reportAll _
  cases token with
  | enterNamespace | usingNamespace | includeModule | importLibrary => exact steps_declaration _ rfl
  | newLine | directive | new | returnValue => exact marks (fun _ => rfl) rfl
  | classOpen name kind visibility =>
    exact Within.steps (proceeds_declareType name kind visibility) rfl
  | function name returnType kind visibility =>
    exact Within.steps (proceeds_openFunction name returnType kind visibility) rfl
  | var name typeName isFinal => exact Within.steps (proceeds_declareVar name typeName isFinal) rfl
  | block isOpen =>
    cases isOpen with
    | true => exact steps_openBlock
    | false => exact steps_closeBlock
  | statement isOpen =>
    cases isOpen with
    | true => exact steps_openStatement
    | false => exact steps_closeStatement
  | sequence isOpen =>
    cases isOpen with
    | true => exact steps_openSequence
    | false => exact steps_closeSequence
  | separator kind =>
    cases kind with
    | member => exact Within.steps proceeds_memberSeparator rfl
    | statement => exact Within.steps alike_separate.proceeds rfl
  | literal text => exact Within.steps (proceeds_literal text) rfl
  | expressionEnd => exact Within.steps proceeds_expressionEnd rfl
  | operator op => exact Within.steps (alike_operator op retract).proceeds rfl
  | value content => exact Within.steps (keeps_value content).alike.proceeds rfl
  | breakpoint =>
    have emitted : (emit (·.emit .breakpoint)).Alike := alike_emit fun _ => rfl
    exact Within.bind_steps emitted.proceeds fun _ => marks (fun _ => rfl) rfl
  | extendsClause =>
    exact Within.bind_steps closed fun _ => marks (fun _ => rfl) rfl
  | implementsClause =>
    refine Within.bind_steps closed fun _ c => leads_modify.mpr ?_
    exact
      { session := .refl _
        nested := fun _ => rfl
        brackets := .inl rfl
        stream := fun _ => ⟨[], rfl, by simp⟩
        interfaces := fun isOther => absurd rfl isOther }
  | label name =>
    have labels : (emitting fun _ method => do return ((), ← method.label name)).Alike := by
      refine alike_emitting fun _ method => ?_
      rw [gives_bind, gives_lift_problem]
      exact method.gives_label name
    exact Within.steps (labels.proceeds.bind fun _ => within_pure ()) rfl
  | goto name =>
    have branches : (emit (·.branch name)).Alike := alike_emit fun _ => rfl
    exact Within.steps branches.proceeds rfl
  | actual | async | parameterType | reserved => exact Within.steps (within_pure ()) rfl

/-! ## The step -/

theorem proceeds_takeRetractable : takeRetractable.Proceeds :=
  within_get.bind fun _ => Within.bind (proceeds_modify fun _ => rfl) fun _ => within_pure _

theorem leads_readBase (token : Token) (c : Compiler) :
    (readBase token).Leads c fun used _ => used = true → token.nest = id := by
  unfold readBase
  rw [leads_get_bind]
  split
  · exact leads_pure.mpr nofun
  rw [leads_modify_bind]
  split
  · rw [leads_bind]
    refine ((noting_amendCurrent (fun _ _ extended => .inl extended) rfl).proceeds _).imp
      fun _ _ _ => ?_
    rw [leads_modify_bind, leads_pure]
    exact fun _ => rfl
  · rw [leads_bind, leads_report, leads_pure]
    exact nofun

/-- Only inside a list of interfaces a token is part of one. -/
theorem leads_readInterfaces (token : Token) (c : Compiler) :
    (readInterfaces token).Leads c fun used _ => used = true → c.interfaces ≠ none := by
  cases reading : c.interfaces with
  | none =>
    unfold readInterfaces
    rw [leads_get_bind, reading]
    exact leads_pure.mpr nofun
  | some current => exact ((noting_readInterfaces token).proceeds c).imp fun _ _ _ _ => nofun

/-- The step on a token: first the constructs that wait for it, which do not touch the brackets,
then the token. -/
theorem steps_step (token : Token) : (step token).Steps token := by
  rw [step]
  refine Within.bind_steps proceeds_takeRetractable fun retract => ?_
  refine Within.bind_steps (noting_checkEnd token).proceeds fun _ c => ?_
  rw [leads_bind]
  refine (((noting_readBase token).proceeds c).and (leads_readBase token c)).imp ?_
  rintro inBase based ⟨toBased, isWord⟩
  split
  · rename_i used
    rw [leads_pure]
    exact Compiler.Proceeds.steps (by rw [isWord used]; exact toBased)
  rw [leads_bind]
  refine (((noting_readInterfaces token).proceeds based).and
    (leads_readInterfaces token based)).imp ?_
  rintro inList listed ⟨toListed, reading⟩
  have toHere : c.Proceeds id listed := toBased.trans toListed
  split
  · -- Inside a list of interfaces a bracket is only reported, and nothing is said about what is open.
    rename_i used
    rw [leads_pure]
    exact
      { session := toHere.session.weaken
        nested := fun none => absurd (toBased.interfaces none) (reading used)
        brackets := .inl toHere.nested
        stream := fun _ => toHere.stream
        interfaces := fun _ => toHere.interfaces }
  · have rest : (do
        if (← get).consume != .normal && token.isEnd then finishConsume
        dispatch token retract : Compile Unit).Steps token := by
      refine Within.bind_steps within_get fun state => ?_
      dsimp only
      split
      · exact Within.bind_steps keeps_finishConsume.alike.proceeds fun _ => steps_dispatch token retract
      · exact steps_dispatch token retract
    exact (rest listed).imp fun _ last toLast => toHere.trans_steps toLast

end Compile

/-! ## Runs -/

namespace Build

variable {files : FileTree} {stream : TokenStream} {options : BuildOptions} {autoName : Bool}
  {build later : Build}

theorem steps_process {token : Token} {rest : List Token}
    (processed : { build with compiler := { build.compiler with stream := rest } }.process token =
      .ok later) :
    { build.compiler with stream := rest }.Steps token later.compiler := by
  have gives : Gives ({ build with compiler := { build.compiler with stream := rest } }.process
      token) fun later =>
      { build.compiler with stream := rest }.Steps token later.compiler := by
    rw [process, gives_bind]
    exact Gives.imp (Compile.steps_step token _) fun _ steps => steps
  exact gives.of_ok processed

/-- In every state of a build, the open brackets of the expression are counted. -/
theorem Reached.counts (reached : Reached files stream options autoName build) :
    build.compiler.nested.Counts := by
  induction reached with
  | start => exact ⟨rfl, rfl, List.not_mem_nil⟩
  | @step build later token rest reached next processed ih =>
    rcases (steps_process processed).brackets with same | nested
    · rw [same]
      exact ih
    · rw [nested]
      exact Nested.Counts.nest ih token

/-- In every state of a build the session is what became of the new session. -/
theorem Reached.becomes (reached : Reached files stream options autoName build) :
    ∃ session, Session.create { options with header := stream.header } autoName = .ok session ∧
      session.Becomes true build.compiler.session := by
  induction reached with
  | start created => exact ⟨_, created, .refl _⟩
  | step reached next processed ih =>
    obtain ⟨session, created, becomes⟩ := ih
    exact ⟨session, created, becomes.trans (steps_process processed).session.allowing⟩

theorem Reached.becomes_alone (alone : ∀ state path rest,
      Reached files stream options autoName state → state.compiler.stream ≠ .includeModule path :: rest)
    (reached : Reached files stream options autoName build) :
    ∃ session, Session.create { options with header := stream.header } autoName = .ok session ∧
      session.Becomes false build.compiler.session := by
  induction reached with
  | start created => exact ⟨_, created, .refl _⟩
  | @step build later token rest reached next processed ih =>
    obtain ⟨session, created, becomes⟩ := ih
    have isOther : token.isInclude = false := by
      cases token with
      | includeModule path => exact absurd next (alone _ _ _ reached)
      | _ => rfl
    have acted := (steps_process processed).session
    rw [isOther] at acted
    exact ⟨session, created, becomes.trans acted⟩

end Build

end OnePass
