import OnePass.Proofs.Apart.Expression
import OnePass.Proofs.Integrity.Step

/-! # Which tokens look aside

Of all tokens, only four see or change the aside: a line break and a directive mark, which decide
whether the next word names a directive, a word, which may be such a name, and an import, which adds
tokens to the stream (`Token.looksAside`). What waits for a token is dealt with before the token
itself, and never looks aside (`apart_awaited`). -/

namespace OnePass

/-- Whether what a token does can depend on the aside, or change it. -/
def Token.looksAside : Token → Bool
  | newLine | literal _ | directive | importLibrary _ => true
  | _ => false

variable {token : Token}

/-- What a token declares for the whole file is put beside the aside, unless it adds tokens. -/
theorem Compiler.declare?_beside (c : Compiler) (aside : Aside)
    (straight : token.looksAside = false) : (c.beside aside).declare? token = (c.declare? token).map
      (Except.map (·.beside aside)) := by
  cases token with
  | enterNamespace name =>
    simp only [declare?, enterNamespace]
    split <;> rfl
  | usingNamespace name =>
    have used : (c.beside aside).useNamespace name = (c.useNamespace name).beside aside := by
      by_cases isUsed : c.usings.contains name = true <;> simp only [useNamespace, beside, isUsed] <;> rfl
    simp only [declare?, used]
    rfl
  | includeModule path =>
    simp only [declare?, includeModule, beside]
    rcases c.files.moduleImage c.session.options path with problem | image
    · rfl
    · rcases registered : image.register c.session.table with (problem | fault) | ⟨ids, table⟩ <;>
        simp [registered, bind, Except.bind, liftM, monadLift, MonadLift.monadLift, Except.map,
          Except.mapError, pure, Except.pure]
  | importLibrary path => cases straight
  | _ => rfl

namespace Compile

variable {α β : Type}

/-! ## What waits for a token -/

theorem apart_amendCurrent (change : TypeDraft → Option TypeDraft) (refusal : Problem) :
    (amendCurrent change refusal).Apart := by
  rw [amendCurrent]
  refine apart_get_bind (fun _ _ => rfl) fun c => (apart_lift _).bind fun current => ?_
  split
  · exact fun _ _ => rfl
  · exact apart_report _

theorem apart_implementCurrent (name : String) : (implementCurrent name).Apart := by
  rw [implementCurrent]
  split
  · exact apart_pure ()
  · exact apart_amendCurrent _ _

theorem apart_readBase (token : Token) : (readBase token).Apart := by
  unfold readBase
  refine apart_get_bind (fun _ _ => rfl) fun c => ?_
  split
  · exact apart_pure _
  refine Apart.bind (fun _ _ => rfl) fun _ => ?_
  split
  · refine (apart_amendCurrent _ _).bind fun _ => ?_
    exact Apart.bind (fun _ _ => rfl) fun _ => apart_pure _
  · exact (apart_report _).bind fun _ => apart_pure _

theorem apart_readInterfaces (token : Token) : (readInterfaces token).Apart := by
  unfold readInterfaces
  refine apart_get_bind (fun _ _ => rfl) fun c => ?_
  split
  · exact apart_pure _
  split
  · split
    · exact Apart.bind (fun _ _ => rfl) fun _ => apart_pure _
    · refine Apart.bind (fun _ _ => rfl) fun _ => ?_
      exact (apart_implementCurrent _).bind fun _ => apart_pure _
  · split
    · exact (apart_report _).bind fun _ => apart_pure _
    · exact Apart.bind (fun _ _ => rfl) fun _ => apart_pure _
  · refine Apart.bind (fun _ _ => rfl) fun _ => ?_
    exact (apart_implementCurrent _).bind fun _ => apart_pure _
  · exact apart_pure _
  · split
    · refine Apart.bind (fun _ _ => rfl) fun _ => ?_
      exact (apart_implementCurrent _).bind fun _ => apart_pure _
    · exact (apart_report _).bind fun _ => apart_pure _

theorem apart_checkEnd (token : Token) : (checkEnd token).Apart := by
  rw [checkEnd]
  refine apart_get_bind (fun _ _ => rfl) fun c => ?_
  split
  · exact apart_pure ()
  split
  · exact apart_pure ()
  refine Apart.bind (fun _ _ => rfl) fun _ => ?_
  split
  · exact apart_report _
  · exact apart_pure ()

theorem apart_takeRetractable : takeRetractable.Apart :=
  apart_get_bind (fun _ _ => rfl) fun _ => Apart.bind (fun _ _ => rfl) fun _ => apart_pure _

theorem apart_awaited (token : Token) : (awaited token).Apart := by
  refine apart_takeRetractable.bind fun retract => (apart_checkEnd token).bind fun _ => ?_
  refine (apart_readBase token).bind fun isBase => ?_
  split
  · exact apart_pure none
  refine (apart_readInterfaces token).bind fun isInterface => ?_
  split
  · exact apart_pure none
  refine apart_get_bind (fun _ _ => rfl) fun c => ?_
  exact apart_if_bind apart_finishConsume (apart_pure _)

/-! ## Declarations -/

theorem apart_declareType (name : String) (kind : ClassKind) (visibility : Visibility) :
    (declareType name kind visibility).Apart := by
  rw [declareType]
  refine apart_get_bind (fun _ _ => rfl) fun c => (apart_onSession _).bind fun declared => ?_
  cases declared with
  | none => exact apart_pure ()
  | some id =>
    exact apart_get_bind (fun _ _ => rfl) fun _ => (apart_lift _).bind fun _ _ _ => rfl

theorem apart_resultType (name returnType : String) : (resultType name returnType).Apart := by
  rw [resultType]
  refine apart_get_bind (fun _ _ => rfl) fun c => ?_
  dsimp only
  split
  · exact apart_pure _
  split
  · exact apart_pure _
  · exact (apart_report _).bind fun _ => apart_pure _

theorem apart_openFunction (name returnType : String) (kind : FuncKind) (visibility : Visibility) :
    (openFunction name returnType kind visibility).Apart := by
  rw [openFunction]
  refine (apart_resultType name returnType).bind fun result => apart_get_bind
    (fun _ _ => rfl) fun c => ?_
  refine Apart.bind (fun _ _ => rfl) fun _ => ?_
  refine Apart.bind (apart_lift _) fun isDefault => (apart_onSession _).bind fun opened => ?_
  split
  · split
    · exact fun _ _ => rfl
    · exact apart_pure ()
  · exact apart_pure ()

theorem apart_variableType (name typeName : String) : (variableType name typeName).Apart := by
  rw [variableType]
  exact apart_get_bind (fun _ _ => rfl) fun c => apart_if_bind (apart_report _) (apart_pure _)

theorem apart_declareVar (name typeName : String) (isFinal : Bool) :
    (declareVar name typeName isFinal).Apart := by
  have asParam : (declareParam name typeName).Apart := by
    rw [declareParam]
    refine (apart_variableType name typeName).bind fun type => ?_
    cases type with
    | none => exact apart_pure ()
    | some type => exact (apart_onSession _).bind fun _ => apart_pure ()
  have asLocal : (declareLocal name typeName isFinal).Apart := by
    rw [declareLocal]
    refine apart_get_bind (fun _ _ => rfl) fun c => (apart_onSession _).bind fun declared => ?_
    cases declared with
    | none => exact apart_pure ()
    | some var => exact fun _ _ => rfl
  have asField : (declareField name typeName isFinal).Apart := by
    rw [declareField]
    refine (apart_variableType name typeName).bind fun type => ?_
    cases type with
    | none => exact apart_pure ()
    | some type =>
      refine (apart_onSession _).bind fun declared => ?_
      cases declared with
      | none => exact apart_pure ()
      | some ref => exact fun _ _ => rfl
  rw [declareVar]
  refine apart_flushReference.bind fun _ => apart_get_bind (fun _ _ => rfl) fun c => ?_
  refine (apart_lift _).bind fun method => ?_
  cases method with
  | some method =>
    dsimp only
    split
    · exact asParam
    · exact asLocal
  | none =>
    refine (apart_lift _).bind fun type => ?_
    split
    · exact asField
    · exact apart_report _

/-! ## Blocks and ends -/

theorem apart_openBlock : openBlock.Apart := by
  rw [openBlock]
  refine apart_endExpression.bind fun _ => Apart.bind (fun _ _ => rfl) fun _ => ?_
  refine apart_get_bind (fun _ _ => rfl) fun c => (apart_lift _).bind fun type => ?_
  exact (apart_lift _).bind fun _ _ _ => rfl

theorem apart_closeOwner (owner : Option BlockOwner) : (closeOwner owner).Apart := by
  unfold closeOwner
  refine apart_get_bind (fun _ _ => rfl) fun c => ?_
  split
  · exact apart_closing _
  · exact apart_closing _
  · exact apart_pure ()
  · exact apart_pure ()

theorem apart_closeBlock : closeBlock.Apart := by
  rw [closeBlock]
  refine apart_endExpression.bind fun _ => apart_get_bind (fun _ _ => rfl) fun c => ?_
  split
  · exact apart_report _
  · exact Apart.bind (fun _ _ => rfl) fun _ => apart_closeOwner _

theorem apart_expressionEnd : expressionEnd.Apart := by
  rw [expressionEnd]
  refine apart_endExpression.bind fun _ => apart_get_bind (fun _ _ => rfl) fun c =>
    (apart_lift _).bind fun type => ?_
  cases type with
  | none => exact apart_pure ()
  | some type =>
    dsimp only
    split
    · exact apart_closing _
    split
    · exact apart_closing _
    · exact apart_pure ()

/-! ## Tokens -/

theorem apart_checkClosed : checkClosed.Apart := apart_get_bind (fun _ _ => rfl) fun _ =>
      apart_reportAll _

theorem apart_memberSeparator : memberSeparator.Apart := by
  rw [memberSeparator]
  refine apart_get_bind (fun _ _ => rfl) fun c => ?_
  split
  · exact apart_report _
  · exact fun _ _ => rfl

theorem apart_segment (text : String) (c : Compiler) : (do
    if !c.literals.isEmpty && !c.expectLiteral then flushReference
    modify fun compiler => { compiler with literals := compiler.literals ++ [text], expectLiteral := false } :
    Compile Unit).Apart :=
  apart_if_bind apart_flushReference fun _ _ => rfl

theorem apart_declaration (straight : token.looksAside = false) : (declaration token).Apart := by
  intro aside c
  rw [declaration, get_bind_apply, get_bind_apply, c.declare?_beside aside straight]
  rcases c.declare? token with - | (problem | fault) | declared <;> rfl

theorem apart_dispatch (straight : token.looksAside = false) (retract : Option TypeId) :
    (dispatch token retract).Apart := by
  cases token with
  | newLine | literal | directive | importLibrary => cases straight
  | classOpen name kind visibility => exact apart_declareType name kind visibility
  | function name returnType kind visibility =>
    exact apart_openFunction name returnType kind visibility
  | var name typeName isFinal => exact apart_declareVar name typeName isFinal
  | block opens => cases opens with
    | true => exact apart_openBlock
    | false => exact apart_closeBlock
  | statement opens => cases opens with
    | true => exact apart_openStatement
    | false => exact apart_closeStatement
  | sequence opens => cases opens with
    | true => exact apart_openSequence
    | false => exact apart_closeSequence
  | separator kind => cases kind with
    | member => exact apart_memberSeparator
    | statement => exact apart_separate
  | expressionEnd => exact apart_expressionEnd
  | operator op => exact apart_operator op retract
  | value content => exact apart_value content
  | enterNamespace | usingNamespace | includeModule => exact apart_declaration straight
  | breakpoint => exact (apart_emit _).bind fun _ _ _ => rfl
  | extendsClause | implementsClause => exact apart_checkClosed.bind fun _ _ _ => rfl
  | new | returnValue => exact fun _ _ => rfl
  | label name => exact (apart_emitting _).bind fun _ => apart_pure ()
  | goto name => exact apart_emit _
  | actual | async | parameterType | reserved => exact apart_pure ()

theorem apart_step (straight : token.looksAside = false) : (step token).Apart := by
  rw [step_eq]
  refine (apart_awaited token).bind fun rest => ?_
  cases rest with
  | none => exact apart_pure ()
  | some retract => exact apart_dispatch straight retract

/-! ## The end of the tokens -/

/-- What waits for a token at the end is reported. -/
def waiting (compiler : Compiler) : Compile Unit := do
  reportAll compiler.nesting.unclosed
  reportWaiting compiler

theorem checkTermination_eq_waiting (c : Compiler) : checkTermination c = waiting c c :=
  get_bind_apply waiting

theorem stateless_waiting (c : Compiler) : (waiting c).Stateless := by
  have names : (reportUnended c.session).Stateless := by
    refine (stateless_lift _).bind fun type => ?_
    cases type with
    | none => exact stateless_pure ()
    | some type =>
      dsimp only
      split
      · exact (stateless_lift _).bind fun name => stateless_report _
      · exact stateless_pure ()
  -- The state is looked at before and handed over as `c`; from then on there are only reports.
  rw [waiting]
  refine (stateless_reportAll _).bind fun _ => ?_
  rw [reportWaiting]
  refine stateless_if_bind (stateless_report _) (stateless_if_bind (stateless_report _) ?_)
  cases c.consume with
  | normal =>
    exact stateless_if_bind (stateless_report _) (stateless_if_bind (stateless_report _) names)
  | assign target | ret =>
    refine (stateless_report _).bind fun _ => ?_
    exact stateless_if_bind (stateless_report _) (stateless_if_bind (stateless_report _) names)

theorem apart_checkTermination : checkTermination.Apart := by
  intro aside c
  rw [checkTermination_eq_waiting, checkTermination_eq_waiting]
  exact (stateless_waiting c).apart aside c

end Compile

/-! ## Builds -/

namespace Build

/-- The build with other tokens still to be read. -/
def reading (build : Build) (rest : List Token) : Build :=
  { build with compiler := { build.compiler with stream := rest } }

theorem run_succ {build : Build} {fuel : Nat} {rest : List Token}
    (next : build.compiler.stream = token :: rest) :
    build.run (fuel + 1) = (build.reading rest).process token >>= run fuel := by
  rw [run, next]
  rfl

end Build

end OnePass
