import OnePass.Proofs.Layers.Session
import OnePass.Proofs.Layout.Step

/-! # What a step does to what is open

A step on a token that is no brace declares a type, opens a function, drops a head that waits in
vain for a body, or leaves the layers alone (`Compiler.Shifts`). An opening brace begins the body
that the innermost head waits for (`Compiler.Opens`), and a closing brace closes the innermost type
or method, as the kind of its block says (`Compiler.Shuts`). -/

namespace OnePass

open Session

theorem Token.isEnd_open : (Token.block true).isEnd = true := rfl

/-! ## Layers -/

/-- What a token that is no brace can do to the layers. -/
inductive Layer.Shifts (layers : List Layer) : List Layer → Prop
  | stays : Shifts layers layers
  /-- a type is declared -/
  | declares (place : Nat) : Shifts layers (⟨place, false, true, []⟩ :: layers)
  /-- a function is opened in the innermost type -/
  | opens (slot : MethodSlot) : Shifts layers (layers.modifyHead (·.openMethod slot))
  /-- the innermost type gets no body -/
  | dropsType {layer : Layer} {outer : List Layer} (shape : layers = layer :: outer)
      (waiting : layer.waiting = true) : Shifts layers (closeLayer layers)
  /-- the innermost method gets no body -/
  | dropsMethod {layer : Layer} {outer : List Layer} {method : OpenMethod} {rest : List OpenMethod}
      (shape : layers = layer :: outer) (methods : layer.methods = method :: rest)
      (waiting : method.waiting = true) : Shifts layers (layers.modifyHead Layer.closeMethod)

/-- The kind of a block that opens now. -/
def ownerOf : List Layer → BlockOwner
  | [] => .plain
  | layer :: _ =>
    if layer.waiting then .type
    else if layer.methods.head?.any (·.waiting) then .method
    else .plain

theorem TypeDraft.blockOwner_eq (draft : TypeDraft) (place : Nat) (implicit : Bool)
    (outer : List Layer) : Compile.blockOwner (some draft) =
      ownerOf (draft.layer place implicit :: outer) := by
  have heads : draft.currentMethod?.any (·.paramsOpen) =
      (draft.layer place implicit).methods.head?.any (·.waiting) := by
    cases methods : draft.openMethods <;> simp [currentMethod?, methods, layer, MethodDraft.openMethod]
  rw [Compile.blockOwner, ownerOf, heads]
  rfl

/-- What a closing brace does to the layers, by the kind of its block. -/
def shutLayers : Option BlockOwner → List Layer → List Layer
  | some .type => closeLayer
  | some .method => List.modifyHead Layer.closeMethod
  | some .plain | none => id

/-- What a token can do to the layers. -/
inductive Layer.Steps (layers : List Layer) : List Layer → Prop
  | shifts {later : List Layer} (shifts : Layer.Shifts layers later) : Steps layers later
  | begins : Steps layers (layers.modifyHead Layer.beginBody)
  | shuts (owner : Option BlockOwner) : Steps layers (shutLayers owner layers)

namespace Session

variable {session later : Session}

/-- What a step does to the layers, and that the implicit class and its main function stay the
same. -/
structure Restacks (session later : Session) : Prop where
  layers : Layer.Steps session.layers later.layers
  defaultType : later.defaultType = session.defaultType
  defaultMethod : later.defaultMethod = session.defaultMethod

/-- What a closing brace does to the session, by the kind of its block. -/
def ShutBy (session later : Session) : Option BlockOwner → Prop
  | some .type => ∃ namespaces problems, session.closeType namespaces = .ok (later, problems)
  | some .method => ∃ problems, session.closeMethod = .ok (later, problems)
  | some .plain | none => later = session

theorem ShutBy.reshapes {owner : Option BlockOwner} (shut : session.ShutBy later owner) :
    session.Reshapes (shutLayers owner) later := by
  cases owner with
  | none =>
    cases shut
    exact .refl session
  | some kind =>
    cases kind with
    | type =>
      obtain ⟨namespaces, problems, closed⟩ := shut
      exact (reshapes_closeType namespaces).of_ok closed
    | method =>
      obtain ⟨problems, closed⟩ := shut
      exact reshapes_closeMethod.of_ok closed
    | plain =>
      cases shut
      exact .refl session

theorem Standing.layers_of_currentType (standing : session.Standing) {type : TypeDraft}
    (current : session.currentType? = .ok (some type)) :
    ∃ place implicit outer, session.layers = type.layer place implicit :: outer := by
  obtain ⟨place, found⟩ := currentType?_eq_some current
  obtain ⟨-, implicit, outer, shape, -⟩ := standing.replace found (current?_eq_some found).2.2
  exact ⟨place, implicit, outer, shape⟩

theorem Standing.layers_of_noType (standing : session.Standing)
    (current : session.currentType? = .ok none) : session.layers = [] := by
  refine standing.layers_of_none ?_
  rw [currentType?] at current
  cases found : session.current? with
  | error fault => simp [found, bind, Except.bind] at current
  | ok entry =>
    cases entry with
    | none => rfl
    | some entry => simp [found, bind, Except.bind, pure, Except.pure] at current

theorem Standing.blockOwner_eq (standing : session.Standing) {type : Option TypeDraft}
    (current : session.currentType? = .ok type) :
    Compile.blockOwner type = ownerOf session.layers := by
  cases type with
  | none =>
    rw [standing.layers_of_noType current]
    rfl
  | some draft =>
    obtain ⟨place, implicit, outer, shape⟩ := standing.layers_of_currentType current
    rw [shape, ← draft.blockOwner_eq place implicit outer]

end Session

/-! ## States -/

namespace Compiler

/-- What a step on a brace reads of the state, apart from the code of methods. -/
def scene (c : Compiler) : Session × List BlockOwner × Nesting × Option String :=
  (c.session.outline, c.blocks, c.nesting, c.interfaces)

/-- At most code was emitted. -/
def Emits (c later : Compiler) : Prop := later.scene = c.scene

/-- The layers are shifted into others, and the open blocks stay. -/
structure Reshapes (change : List Layer → List Layer) (c later : Compiler) : Prop where
  session : c.session.Reshapes change later.session
  blocks : later.blocks = c.blocks
  count : later.nesting.blocks = c.nesting.blocks

/-- What a step on a token that is no brace can do. -/
def Shifts (c later : Compiler) : Prop :=
  ∃ change, c.Reshapes change later ∧
    (c.session.Standing → Layer.Shifts c.session.layers (change c.session.layers))

/-- What a step on an opening brace does. -/
structure Opens (c later : Compiler) : Prop where
  session : c.session.Reshapes (List.modifyHead Layer.beginBody) later.session
  blocks : c.session.Standing → later.blocks = ownerOf c.session.layers :: c.blocks
  count : later.nesting.blocks = c.nesting.blocks + 1

/-- What a step on a closing brace does. -/
structure Shuts (c later : Compiler) : Prop where
  session : ∃ between : Session, between.outline = c.session.outline ∧
    between.ShutBy later.session c.blocks.head?
  blocks : later.blocks = c.blocks.tail
  count : later.nesting.blocks = c.nesting.blocks - 1

variable {c later last : Compiler}

instance : IsPreorder Compiler Emits where
  refl _ := rfl
  trans _ _ _ first second := second.trans first

theorem Alike.emits (alike : c.Alike later) : c.Emits later :=
  congrArg (fun outline : Outline => (outline.session, outline.blocks, outline.nesting,
    outline.interfaces)) alike

theorem Emits.session (emits : c.Emits later) : later.session.outline = c.session.outline :=
  congrArg (·.1) emits

theorem Emits.blocks (emits : c.Emits later) : later.blocks = c.blocks := congrArg (·.2.1) emits

theorem Emits.nesting (emits : c.Emits later) : later.nesting = c.nesting :=
  congrArg (·.2.2.1) emits

theorem Emits.interfaces (emits : c.Emits later) : later.interfaces = c.interfaces :=
  congrArg (·.2.2.2) emits

theorem Emits.stays (emits : c.Emits later) : c.Reshapes id later :=
  ⟨.of_outline emits.session, emits.blocks, by rw [emits.nesting]⟩

theorem Reshapes.of_changed {outline : Outline} (changed : later.outline = outline)
    (session : outline.session = c.session.outline) (blocks : outline.blocks = c.blocks)
    (count : outline.nesting.blocks = c.nesting.blocks) : c.Reshapes id later := by
  subst changed
  exact ⟨.of_outline session, blocks, count⟩

theorem Reshapes.trans {change more : List Layer → List Layer} (first : c.Reshapes change later)
    (second : later.Reshapes more last) : c.Reshapes (more ∘ change) last :=
  ⟨first.session.trans second.session, second.blocks.trans first.blocks,
    second.count.trans first.count⟩

instance : IsPreorder Compiler (Reshapes id) where
  refl c := ⟨.refl c.session, rfl, rfl⟩
  trans _ _ _ first second := first.trans second

theorem Reshapes.shifts (stays : c.Reshapes id later) : c.Shifts later :=
  ⟨id, stays, fun _ => .stays⟩

theorem Reshapes.trans_shifts (stays : c.Reshapes id later) (shifts : later.Shifts last) :
    c.Shifts last := by
  obtain ⟨change, reshapes, shifts⟩ := shifts
  refine ⟨change, stays.trans reshapes, fun standing => ?_⟩
  obtain ⟨standingLater, same⟩ := stays.session.layers standing
  rw [same] at shifts
  exact shifts standingLater

theorem Shifts.trans_stays (shifts : c.Shifts later) (stays : later.Reshapes id last) :
    c.Shifts last := by
  obtain ⟨change, reshapes, shifts⟩ := shifts
  exact ⟨change, reshapes.trans stays, shifts⟩

theorem Emits.trans_shuts (emits : c.Emits later) (shuts : later.Shuts last) : c.Shuts last where
  session := by
    obtain ⟨between, same, shut⟩ := shuts.session
    rw [emits.blocks] at shut
    exact ⟨between, same.trans emits.session, shut⟩
  blocks := by rw [shuts.blocks, emits.blocks]
  count := by rw [shuts.count, emits.nesting]

theorem Reshapes.trans_opens (stays : c.Reshapes id later) (opens : later.Opens last) :
    c.Opens last where
  session := stays.session.trans opens.session
  blocks standing := by
    obtain ⟨standingLater, same⟩ := stays.session.layers standing
    rw [opens.blocks standingLater, same, stays.blocks]
    rfl
  count := by rw [opens.count, stays.count]

end Compiler

/-! ## Actions that leave the layers alone -/

namespace Compile

variable {α : Type} {c : Compiler}

/-- The action leaves the layers and the open blocks alone. -/
def Stays (action : Compile α) : Prop := action.Within (Compiler.Reshapes id)

theorem Within.stays {action : Compile α} (alike : action.Alike) : action.Stays :=
  alike.imp fun _ _ alike => alike.emits.stays

/-- A change of the state outside of the session, the open blocks and their number. -/
theorem stays_modify {change : Compiler → Compiler}
    (same : ∀ c, ((change c).session, (change c).blocks, (change c).nesting) =
      (c.session, c.blocks, c.nesting)) :
    (modify change).Stays := by
  refine within_modify fun c => ?_
  obtain ⟨session, blocks, nesting⟩ := by simpa using same c
  exact ⟨session ▸ .refl _, blocks, by rw [nesting]⟩

theorem stays_withSession {session : Session} {change : List Layer → List Layer}
    (reshapes : c.session.Reshapes change session) :
    c.Reshapes change { c with session := session } :=
  ⟨reshapes, rfl, rfl⟩

theorem stays_onSession {work : Session → Except Failure (α × Session)}
    (works : ∀ session, Gives (work session) fun (_, later) => session.Reshapes id later) :
    (onSession work).Stays :=
  fun c => leads_onSession (refl_of _ c) ((works c.session).imp fun _ reshapes =>
    stays_withSession reshapes)

theorem Noting.stays {action : Compile α} (noting : action.Noting) : action.Stays := by
  refine (noting.always fun c later notes => ?_).within
  cases notes with
  | takes | setsOutput | setsConstant | lists | flags => exact ⟨.of_eq rfl rfl rfl rfl, rfl, rfl⟩
  | amends here named => exact stays_withSession (Session.reshapes_amend here named)

/-! ### Words and variables -/

theorem stays_literal (text : String) : (literal text).Stays := by
  have notes : (modify fun compiler =>
      { compiler with literals := compiler.literals ++ [text], expectLiteral := false }).Stays :=
    stays_modify fun _ => rfl
  rw [literal]
  refine within_get.bind fun c => ?_
  dsimp only
  split
  · exact Within.bind (stays_modify fun _ => rfl) fun _ => (noting_directive text).stays
  · split
    · exact Within.bind keeps_flushReference.alike.stays fun _ => notes
    · exact notes

theorem stays_declareParam (name typeName : String) : (declareParam name typeName).Stays := by
  rw [declareParam]
  refine Within.bind (alike_variableType name typeName).stays fun type => ?_
  cases type with
  | none => exact within_pure ()
  | some type =>
    exact Within.bind (stays_onSession fun session => reshapes_declareParam name type) fun _ =>
      within_pure ()

theorem stays_declareLocal (name typeName : String) (isFinal : Bool) :
    (declareLocal name typeName isFinal).Stays := by
  rw [declareLocal]
  refine within_get.bind fun c => ?_
  refine Within.bind (stays_onSession fun session => ?_) fun declared => ?_
  · refine gives_of_declareLocal fun method var changed current declared => ?_
    have same := (method.gives_declareLocal session.table name typeName _ isFinal).of_ok declared
    exact (gives_setMethod current same).imp fun later kept => .of_outline kept
  · cases declared with
    | none => exact within_pure ()
    | some var => exact stays_modify fun _ => rfl

theorem stays_declareField (name typeName : String) (isFinal : Bool) :
    (declareField name typeName isFinal).Stays := by
  rw [declareField]
  refine Within.bind (alike_variableType name typeName).stays fun type => ?_
  cases type with
  | none => exact within_pure ()
  | some type =>
    refine Within.bind (stays_onSession fun session => reshapes_declareField name type isFinal)
      fun declared => ?_
    cases declared with
    | none => exact within_pure ()
    | some ref => exact stays_modify fun _ => rfl

theorem stays_declareVar (name typeName : String) (isFinal : Bool) :
    (declareVar name typeName isFinal).Stays := by
  rw [declareVar]
  refine Within.bind keeps_flushReference.alike.stays fun _ => within_get.bind fun c => ?_
  refine (within_lift _).bind fun found => ?_
  cases found with
  | some method =>
    dsimp only
    split
    · exact stays_declareParam name typeName
    · exact stays_declareLocal name typeName isFinal
  | none =>
    refine (within_lift _).bind fun type => ?_
    split
    · exact stays_declareField name typeName isFinal
    · exact within_report _

theorem stays_declaration (token : Token) : (declaration token).Stays := by
  refine fun c => Gives.imp (does_declaration token) ?_
  rintro ⟨_, _, _⟩ ⟨⟨_, _, _, _, _, rfl⟩, -⟩
  exact ⟨.of_eq rfl rfl rfl rfl, rfl, rfl⟩

/-! ## Heads -/

theorem shifts_declareType (name : String) (kind : ClassKind) (visibility : Visibility)
    (c : Compiler) : (declareType name kind visibility).Leads c fun _ later => c.Shifts later := by
  rw [declareType, leads_get_bind, leads_bind]
  refine leads_onSession (leads_pure.mpr (Compiler.Reshapes.shifts (refl_of _ c))) ?_
  rw [gives_lift_problem]
  refine (reshapes_declareType name c.space kind visibility).imp ?_
  rintro ⟨id, declared⟩ announced
  dsimp only
  rw [leads_get_bind, leads_lift_bind]
  refine announced.imp fun session reshapes => leads_modify.mpr ?_
  exact ⟨_, ⟨reshapes, rfl, rfl⟩, fun _ => .declares _⟩

theorem shifts_openFunction (name returnType : String) (kind : FuncKind) (visibility : Visibility)
    (c : Compiler) : (openFunction name returnType kind visibility).Leads c fun _ later =>
      c.Shifts later := by
  have marks : (modify ({ · with methodAttrs := {} })).Stays := stays_modify fun _ => rfl
  rw [openFunction, leads_bind]
  refine ((alike_resultType name returnType).stays c).imp fun result first toFirst => ?_
  rw [leads_get_bind, leads_bind]
  refine (marks first).imp fun _ second toSecond => ?_
  refine leads_lift_ok fun isDefault _ => ?_
  dsimp only
  have before : c.Reshapes id second := trans_of _ toFirst toSecond
  rw [leads_bind]
  refine leads_onSession (leads_pure.mpr before.shifts) ?_
  refine (reshapes_openMethod name result kind visibility _).imp ?_
  rintro ⟨slot, session⟩ reshapes
  have opened : c.Shifts { second with session := session } :=
    before.trans_shifts ⟨_, stays_withSession reshapes, fun _ => .opens slot⟩
  cases slot with
  | ctor ref => exact leads_pure.mpr opened
  | method ref =>
    dsimp only
    split
    · exact leads_modify.mpr (opened.trans_stays (stays_withSession (.of_eq rfl rfl rfl rfl)))
    · exact leads_pure.mpr opened

theorem shifts_expressionEnd (c : Compiler) : expressionEnd.Leads c fun _ later => c.Shifts later := by
  rw [expressionEnd, leads_bind]
  refine (keeps_endExpression.alike.stays c).imp fun _ ended stays => ?_
  rw [leads_get_bind]
  refine leads_lift_ok fun found current => ?_
  cases found with
  | none => exact leads_pure.mpr stays.shifts
  | some type =>
    dsimp only
    split
    · rename_i waiting
      refine leads_closing ((Session.reshapes_closeType _).imp fun _ reshapes => ?_)
      refine stays.trans_shifts ⟨_, stays_withSession reshapes, fun standing => ?_⟩
      obtain ⟨place, implicit, outer, shape⟩ := standing.layers_of_currentType current
      exact .dropsType shape waiting
    · split
      · rename_i paramsOpen
        refine leads_closing (Session.reshapes_closeMethod.imp fun _ reshapes => ?_)
        refine stays.trans_shifts ⟨_, stays_withSession reshapes, fun standing => ?_⟩
        obtain ⟨place, implicit, outer, shape⟩ := standing.layers_of_currentType current
        cases methods : type.openMethods with
        | nil => simp [TypeDraft.currentMethod?, methods] at paramsOpen
        | cons method rest =>
          have waiting : method.paramsOpen = true := by simpa [TypeDraft.currentMethod?,
            methods] using paramsOpen
          have heads : (type.layer place implicit).methods = method.openMethod ::
              rest.map (·.openMethod) := by
            simp [TypeDraft.layer, methods]
          exact .dropsMethod shape heads waiting
      · exact leads_pure.mpr stays.shifts

/-! ## Braces -/

theorem opens_openBlock (c : Compiler) : openBlock.Leads c fun _ later => c.Opens later := by
  rw [openBlock, leads_bind]
  refine (keeps_endExpression.alike.stays c).imp fun _ ended stays => ?_
  rw [leads_modify_bind, leads_get_bind]
  refine leads_lift_ok fun type current => ?_
  dsimp only at current ⊢
  rw [leads_lift_bind]
  refine (reshapes_beginBody current).imp fun session reshapes => leads_modify.mpr ?_
  refine stays.trans_opens ⟨reshapes, fun standing => ?_, rfl⟩
  rw [standing.blockOwner_eq current]

theorem shuts_closeOwner (owner : Option BlockOwner) (c : Compiler) :
    (closeOwner owner).Leads c fun _ later =>
    c.session.ShutBy later.session owner ∧ later.blocks = c.blocks ∧ later.nesting = c.nesting := by
  unfold closeOwner
  rw [leads_get_bind]
  dsimp only
  split
  · exact leads_closing (gives_iff.mpr fun _ closed => ⟨⟨_, _, closed⟩, rfl, rfl⟩)
  · exact leads_closing (gives_iff.mpr fun _ closed => ⟨⟨_, closed⟩, rfl, rfl⟩)
  · exact leads_pure.mpr ⟨rfl, rfl, rfl⟩
  · exact leads_pure.mpr ⟨rfl, rfl, rfl⟩

theorem shuts_closeBlock (counted : c.nesting.blocks = c.blocks.length) :
    closeBlock.Leads c fun _ later => c.Shuts later := by
  rw [closeBlock, leads_bind]
  refine (keeps_endExpression.alike c).imp fun _ ended alike => ?_
  have emits := alike.emits
  rw [leads_get_bind]
  split
  · -- No block is open, so that there is nothing to be closed.
    rename_i isZero
    have none : c.blocks = [] := by
      have zero : c.nesting.blocks = 0 := by simpa [emits.nesting] using isZero
      exact List.length_eq_zero_iff.mp (counted.symm.trans zero)
    refine leads_report.mpr ⟨⟨ended.session, emits.session, ?_⟩, ?_, ?_⟩
    · rw [none]
      exact rfl
    · rw [emits.blocks, none, List.tail_nil]
    · have zero : c.nesting.blocks = 0 := by rw [counted, none, List.length_nil]
      rw [emits.nesting, zero]
  · rw [leads_modify_bind]
    refine (shuts_closeOwner _ _).imp ?_
    rintro _ later ⟨shut, blocks, nesting⟩
    rw [emits.blocks] at shut blocks
    refine ⟨⟨ended.session, emits.session, shut⟩, blocks, ?_⟩
    rw [nesting, ← emits.nesting]

/-! ## The step -/

theorem shifts_dispatch {token : Token} (isOther : ∀ isOpen, token ≠ .block isOpen)
    (retract : Option TypeId) (c : Compiler) : (dispatch token retract).Leads c fun _ later =>
      c.Shifts later := by
  have stays {action : Compile Unit} (stays : action.Stays) : action.Leads c fun _ later =>
      c.Shifts later :=
    (stays c).imp fun _ later => Compiler.Reshapes.shifts
  have closed : checkClosed.Stays := within_get.bind fun c => within_reportAll _
  cases token with
  | block isOpen => exact absurd rfl (isOther isOpen)
  | enterNamespace | usingNamespace | includeModule | importLibrary =>
    rw [dispatch]
    exact stays (stays_declaration _)
  | newLine | directive | new | returnValue => exact stays (stays_modify fun _ => rfl)
  | classOpen name kind visibility => exact shifts_declareType name kind visibility c
  | function name returnType kind visibility =>
    exact shifts_openFunction name returnType kind visibility c
  | var name typeName isFinal => exact stays (stays_declareVar name typeName isFinal)
  | statement isOpen =>
    cases isOpen with
    | true => exact (leads_openStatement c).imp fun _ _ changed =>
        (Compiler.Reshapes.of_changed changed rfl rfl rfl).shifts
    | false =>
      refine (leads_closeStatement c).imp fun _ _ changed =>
        (Compiler.Reshapes.of_changed changed ?_ ?_ ?_).shifts
      all_goals split <;> rfl
  | sequence isOpen =>
    cases isOpen with
    | true => exact (leads_openSequence c).imp fun _ _ changed =>
        (Compiler.Reshapes.of_changed changed rfl rfl rfl).shifts
    | false =>
      refine (leads_closeSequence c).imp fun _ _ changed =>
        (Compiler.Reshapes.of_changed changed ?_ ?_ ?_).shifts
      all_goals split <;> rfl
  | separator kind =>
    cases kind with
    | member =>
      refine stays (within_get.bind fun c => ?_)
      split
      · exact within_report _
      · exact stays_modify fun _ => rfl
    | statement => exact stays alike_separate.stays
  | literal text => exact stays (stays_literal text)
  | expressionEnd => exact shifts_expressionEnd c
  | operator op => exact stays (alike_operator op retract).stays
  | value content => exact stays (keeps_value content).alike.stays
  | breakpoint =>
    have emitted : (emit (·.emit .breakpoint)).Alike := alike_emit fun _ => rfl
    exact stays (Within.bind emitted.stays fun _ => stays_modify fun _ => rfl)
  | extendsClause | implementsClause =>
    exact stays (Within.bind closed fun _ => stays_modify fun _ => rfl)
  | label name =>
    have labels : (emitting fun _ method => do return ((), ← method.label name)).Alike := by
      refine alike_emitting fun _ method => ?_
      rw [gives_bind, gives_lift_problem]
      exact method.gives_label name
    exact stays (labels.stays.bind fun _ => within_pure ())
  | goto name =>
    have branches : (emit (·.branch name)).Alike := alike_emit fun _ => rfl
    exact stays branches.stays
  | actual | async | parameterType | reserved => exact stays (within_pure ())

theorem stays_awaited (token : Token) : (awaited token).Stays := by
  rw [awaited, takeRetractable]
  have taken : (modify ({ · with retractable := none })).Stays := stays_modify fun _ => rfl
  refine Within.bind (within_get.bind fun _ => taken.bind fun _ => within_pure _) fun retract => ?_
  refine (noting_checkEnd token).stays.bind fun _ => (noting_readBase token).stays.bind
    fun inBase => ?_
  split
  · exact within_pure _
  refine (noting_readInterfaces token).stays.bind fun inList => ?_
  split
  · exact within_pure _
  refine within_get.bind fun c => ?_
  split
  · exact keeps_finishConsume.alike.stays.bind fun _ => within_pure _
  · exact within_pure _

theorem shifts_step {token : Token} (isOther : ∀ isOpen, token ≠ .block isOpen) (c : Compiler) :
    (step token).Leads c fun _ later => c.Shifts later := by
  rw [step_eq, leads_bind]
  refine (stays_awaited token c).imp fun rest later stays => ?_
  cases rest with
  | none => exact leads_pure.mpr stays.shifts
  | some retract =>
    exact (shifts_dispatch isOther retract later).imp fun _ _ shifts => stays.trans_shifts shifts

/-- Nothing that waits uses an opening brace up. -/
theorem leads_awaited_open (c : Compiler) : (awaited (.block true)).Leads c fun rest _ =>
      rest.isSome = true := by
  have unusedBase (c : Compiler) : (readBase (.block true)).Leads c fun used _ => used = false := by
    unfold readBase
    rw [leads_get_bind]
    split <;> exact rfl
  have unused (c : Compiler) : (readInterfaces (.block true)).Leads c fun used _ => used = false := by
    unfold readInterfaces
    rw [leads_get_bind]
    split
    · exact leads_pure.mpr rfl
    · dsimp only
      rw [if_pos Token.isEnd_open, leads_modify_bind, leads_bind]
      exact ((noting_implementCurrent _).stays _).imp fun _ _ _ => leads_pure.mpr rfl
  rw [awaited, takeRetractable, leads_bind, leads_get_bind, leads_modify_bind,
    leads_pure, leads_bind]
  refine ((noting_checkEnd _).stays _).imp fun _ checked _ => ?_
  rw [leads_bind]
  refine (unusedBase checked).imp fun _ based isUnused => ?_
  rw [isUnused, if_neg Bool.false_ne_true, leads_bind]
  refine (unused based).imp fun _ listed isUnused => ?_
  rw [isUnused, if_neg Bool.false_ne_true, leads_get_bind]
  split
  · rw [leads_bind]
    exact (keeps_finishConsume.alike listed).imp fun _ _ _ => leads_pure.mpr rfl
  · exact leads_pure.mpr rfl

theorem opens_step (c : Compiler) : (step (.block true)).Leads c fun _ later => c.Opens later := by
  rw [step_eq, leads_bind]
  refine ((stays_awaited _ c).and (leads_awaited_open c)).imp ?_
  rintro rest later ⟨stays, isSome⟩
  obtain ⟨retract, rfl⟩ := Option.isSome_iff_exists.mp isSome
  exact (opens_openBlock later).imp fun _ _ opens => stays.trans_opens opens

/-- The step on a closing brace. Inside a list of interfaces the brace is only reported. -/
theorem shuts_step (counted : c.nesting.blocks = c.blocks.length) :
    (step (.block false)).Leads c fun _ later =>
    if c.interfaces.isSome then c.Emits later else c.Shuts later := by
  rw [step_eq, leads_bind]
  refine Gives.imp (does_awaited_foreign rfl) ?_
  rintro ⟨_, _, _⟩ ⟨⟨⟨needEnd, pending, rfl⟩, rfl⟩, -⟩
  by_cases listed : c.interfaces.isSome = true
  · simp only [if_pos listed]
    exact leads_pure.mpr rfl
  · simp only [if_neg listed]
    have same : c.Emits { c.taken with needEnd := needEnd, pendingExtends := pending } := rfl
    exact Leads.imp
      (shuts_closeBlock (c := { c.taken with needEnd := needEnd, pendingExtends := pending }) counted)
      fun _ _ shuts => same.trans_shuts shuts

end Compile

end OnePass
