import OnePass.Proofs.Finals.Brackets
import OnePass.Proofs.Layout.Step

/-! # One step and the ledger

The step on a token books at most what the token asks for (`Compiler.asked`). Everything that it
does to the current method happens before another method may become the current one:
`Compiler.Turns` splits the step there. The first part keeps the state grounded, the second opens or
closes methods and types and leaves all other methods as they are. -/

namespace OnePass

open List Compiler Session
open Compiler (steady_of_grounds_eq)

theorem MethodDraft.gives_declareParam_code (method : MethodDraft) (name : String) (type : TypeId) :
    Gives (method.declareParam name type) fun (_, changed) =>
      changed.slot = method.slot ∧ changed.locals = method.locals ∧ changed.code = method.code := by
  rw [declareParam]
  split
  · exact gives_error
  · exact ⟨rfl, rfl, rfl⟩

/-! ## The session -/

namespace Session

variable {session later : Session}

theorem stores_perm (session : Session) :
    session.stores.Perm (session.bodies.flatMap (·.stores) ++ session.openMethods.flatMap
      (·.stores)) := by
  rw [stores, bodies, openMethods, flatMap_assoc, flatMap_assoc]
  exact (flatMap_append_perm ..).symm

/-- A method that is opened has a slot of its own and no stores. -/
theorem Opens.switches (opens : session.Opens later) : session.Switches later := by
  obtain ⟨bodies, opened, openMethods, areNew⟩ := opens
  have slots := slots_perm_of_opened bodies openMethods
  have noStores : opened.flatMap (·.stores) = [] := flatMap_eq_nil_iff.mpr fun method here => by
    rw [MethodDraft.stores, (areNew method here).1.code]
    rfl
  refine ⟨(sublist_append_right _ _).subperm.trans slots.symm.subperm, ?_, fun method isOpen => ?_⟩
  · have same := later.stores_perm.trans ((openMethods.flatMap_right (·.stores)).append_left _)
    rw [bodies, flatMap_append, noStores, nil_append] at same
    exact (same.trans session.stores_perm.symm).subperm
  · rcases mem_append.mp (openMethods.mem_iff.mp isOpen) with inOpened | inSession
    · have fresh : [method.slot].Subperm (opened.map (·.slot)) :=
        singleton_subperm_iff.mpr (mem_map_of_mem inOpened)
      exact .inr ⟨(areNew method inOpened).1.locals,
        ((subperm_append_right session.slots).mpr fresh).trans slots.symm.subperm⟩
    · exact .inl inSession

theorem switches_closeMethod (session : Session) :
    Gives session.closeMethod fun (later, _) => session.Switches later := by
  refine gives_of_closeMethod (fun _ => refl_of Switches session) fun index draft current => ?_
  exact draft.gives_closeMethod_shrinks.imp fun _ shrinks =>
    switches_of_shrinks (current?_eq_some current).2.1 shrinks rfl

theorem switches_closeType (session : Session) (namespaces : List String) :
    Gives (session.closeType namespaces) fun (later, _) => session.Switches later := by
  rw [closeType]
  split
  · exact refl_of Switches session
  · rename_i index rest _
    have popped : session.Switches { session with openTypes := rest } := .of_drafts_eq rfl
    exact (switches_closeAt _ index namespaces).imp fun _ switches => trans_of Switches popped switches

end Session

namespace Compiler

variable {c later last : Compiler}

theorem Alters.follows (untouched : c.Untouched later) (grounded : c.Grounded) :
    c.Follows [] later where
  grounded method current := by
    have sits := grounded method (untouched.session.current ▸ current)
    exact ⟨sits.small, untouched.kinds ▸ sits.stacked, fun target here =>
      sits.fits target (untouched.targets here)⟩
  keeps := untouched.session.opens.switches.keeps
  slot := by simp only [Session.currentSlot?, untouched.session.current]
  suits target suits method current := suits method (untouched.session.current ▸ current)

theorem Alters.calm (untouched : c.Untouched later) (consume : later.consume = c.consume)
    (grounded : c.Grounded) : c.Calm later :=
  ⟨untouched.follows grounded, fun _ same => consume ▸ same⟩

/-- Methods and types are opened and closed, and the expression under way is left alone. -/
abbrev Switches (c later : Compiler) : Prop := c.Alters Session.Switches later

instance : IsPreorder Compiler Switches where
  refl _ := ⟨refl_of _ _, rfl, rfl, List.Subset.refl _, rfl⟩
  trans _ _ _ first second := first.trans second (trans_of _)

/-- The locals of the current method can be numbered. -/
def Small (c : Compiler) : Prop :=
  ∀ method, c.session.currentMethod? = .ok (some method) → method.locals.length ≤ 65536

/-- What a step does: it books some of what is asked for, without leaving the current method, and
then it may switch to another one. -/
def Turns (asked : List Stored) (c later : Compiler) : Prop :=
  ∃ (mid : Compiler) (booked : List Stored), booked.Sublist asked ∧
    c.session.Keeps booked mid.session ∧ mid.session.currentSlot? = c.session.currentSlot? ∧
      (mid.Small → mid.Grounded) ∧ mid.Switches later

variable {asked : List Stored}

theorem Books.turns (books : c.Books asked later) (switches : later.Switches last) :
    c.Turns asked last := by
  obtain ⟨booked, within, follows⟩ := books
  exact ⟨later, booked, within, follows.keeps, follows.slot, fun _ => follows.grounded, switches⟩

theorem Books.turns_self (books : c.Books asked later) : c.Turns asked later :=
  books.turns (refl_of _ _)

theorem Books.trans_turns (books : c.Books asked later) (turns : later.Turns [] last) :
    c.Turns asked last := by
  obtain ⟨booked, within, follows⟩ := books
  obtain ⟨mid, others, none, keeps, slot, grounded, switches⟩ := turns
  obtain rfl := sublist_nil.mp none
  have both := follows.keeps.trans keeps
  rw [append_nil] at both
  exact ⟨mid, booked, within, both, slot.trans follows.slot, grounded, switches⟩

theorem Turns.mono {more : List Stored} (turns : c.Turns asked later) (le : asked.Sublist more) :
    c.Turns more later := by
  obtain ⟨mid, booked, within, rest⟩ := turns
  exact ⟨mid, booked, within.trans le, rest⟩

theorem Calm.trans_turns (calm : c.Calm later) (turns : later.Turns asked last) :
    c.Turns asked last := by
  obtain ⟨mid, booked, within, keeps, slot, grounded, switches⟩ := turns
  exact ⟨mid, booked, within, calm.keeps.trans keeps, slot.trans calm.slot, grounded, switches⟩

end Compiler

/-! ## Declarations -/

namespace Compile

variable {α : Type} {c : Compiler} {action : Compile α} {asked : List Stored}

theorem Noting.steady (noting : action.Noting) : action.Steady := by
  refine (noting.always fun c later notes grounded => ?_).within
  exact (untouched_of_notes notes).calm (by cases notes <;> rfl) grounded

theorem switches_closing {work : Session → Except Fault (Session × List Problem)}
    (works : ∀ session, Gives (work session) fun (later, _) => session.Switches later) :
    (closing work).Within Compiler.Switches := by
  refine fun c => leads_closing ((works c.session).imp ?_)
  rintro ⟨session, problems⟩ switches
  exact ⟨switches, rfl, rfl, List.Subset.refl _, rfl⟩

/-! ### Variables -/

theorem leads_declareParam (grounded : c.Grounded) (name typeName : String) :
    (declareParam name typeName).Leads c fun _ later => c.Follows [] later := by
  rw [declareParam, leads_bind]
  refine ((always_variableType name typeName).within c).imp fun type typed toTyped => ?_
  have follows := toTyped.follows grounded
  cases type with
  | none => exact leads_pure.mpr follows
  | some type =>
    rw [leads_bind]
    refine leads_onSession (leads_pure.mpr follows) ?_
    refine gives_of_declareParam fun index draft method rest _ changed table isCurrent
      openMethods declared _ => ?_
    obtain ⟨slot, locals, code⟩ := (method.gives_declareParam_code name type).of_ok declared
    obtain ⟨current, sets⟩ := setMethod_of_current isCurrent openMethods
    have stacked : Stacked changed.position typed.kinds := by
      rw [MethodDraft.position, code]
      exact (follows.grounded method current).stacked
    have calm := (calm_setMethod follows.grounded current slot locals (by rw [code])
      stacked).of_ok (sets changed)
    rw [TypeDraft.setMethod, openMethods]
    refine leads_pure.mpr (follows.trans (calm.toFollows.trans ?_))
    exact Compiler.Alters.follows (untouched_withSession rfl rfl rfl) calm.grounded

theorem leads_declareField (grounded : c.Grounded) (name typeName : String) (isFinal : Bool) :
    (declareField name typeName isFinal).Leads c fun _ later => c.Follows [] later := by
  rw [declareField, leads_bind]
  refine ((always_variableType name typeName).within c).imp fun type typed toTyped => ?_
  cases type with
  | none => exact leads_pure.mpr (toTyped.follows grounded)
  | some type =>
    rw [leads_bind]
    refine ((always_addField name type isFinal).within typed).imp fun declared added toAdded => ?_
    have follows := (trans_of Compiler.Untouched toTyped toAdded).follows grounded
    cases declared with
    | none => exact leads_pure.mpr follows
    | some ref =>
      exact leads_modify.mpr (follows.trans
        (calm_noteDeclared follows.grounded (added.suits_field ref)).toFollows)

theorem leads_declareLocal (grounded : c.Grounded) (name typeName : String) (isFinal : Bool) :
    (declareLocal name typeName isFinal).Leads c fun _ later => c.Turns [] later := by
  rw [declareLocal, leads_get_bind, leads_bind]
  have stays : c.Turns [] c := (Compiler.Calm.refl grounded).books.turns_self
  refine leads_onSession (leads_pure.mpr stays) ?_
  refine gives_of_declareLocal fun method var changed current declared => ?_
  obtain ⟨evolves, position, fits, fitsNew⟩ :=
    (method.evolves_declareLocal _ name typeName _ isFinal).of_ok declared
  refine (gives_replaces current evolves.slot).imp fun session replaces => leads_modify.mpr ?_
  -- The state is grounded only if the new local can be numbered, which is not known yet.
  refine ⟨_, [], nil_sublist _, replaces.keeps evolves, ?_, fun small other isCurrent => ?_,
    refl_of _ _⟩
  · simp only [currentSlot?, current, replaces.current, evolves.slot]
  · have sits := grounded method current
    have isSmall := small other isCurrent
    obtain rfl : changed = other := by simpa using replaces.current.symm.trans isCurrent
    refine ⟨isSmall, position ▸ sits.stacked, fun target here => ?_⟩
    simp only [targets, mem_append, Option.mem_toList, Option.some.injEq] at here
    rcases here with isTarget | rfl
    · exact fits target (sits.fits target (by simp [targets, isTarget]))
    · exact fitsNew isSmall

theorem leads_declareVar (grounded : c.Grounded) (name typeName : String) (isFinal : Bool) :
    (declareVar name typeName isFinal).Leads c fun _ later => c.Turns [] later := by
  rw [declareVar, leads_bind]
  refine (steady_flushReference.calm grounded).imp fun _ flushed toFlushed => ?_
  rw [leads_get_bind]
  refine leads_lift_ok fun found _ => ?_
  cases found with
  | some method =>
    dsimp only
    split
    · exact (leads_declareParam toFlushed.grounded name typeName).imp fun _ _ follows =>
        (toFlushed.trans_books follows.books).turns_self
    · exact (leads_declareLocal toFlushed.grounded name typeName isFinal).imp fun _ _ =>
        toFlushed.trans_turns
  | none =>
    dsimp only
    refine leads_lift_ok fun type _ => ?_
    split
    · exact (leads_declareField toFlushed.grounded name typeName isFinal).imp fun _ _ follows =>
        (toFlushed.trans_books follows.books).turns_self
    · exact leads_report.mpr toFlushed.books.turns_self

/-! ### Blocks and ends -/

theorem calm_beginBody (grounded : c.Grounded) (owner : BlockOwner) :
    Gives (c.session.modifyType (beginBody owner)) fun session =>
      c.Calm { c with session := session } :=
  gives_beginBody
    (fun _ same => Compiler.Alters.calm ⟨same, rfl, rfl, List.Subset.refl _, rfl⟩ rfl grounded)
    fun method current => calm_setMethod grounded current rfl rfl (.refl _)
      (grounded method current).stacked

theorem steady_openBlock : openBlock.Steady := by
  rw [openBlock]
  refine steady_endExpression.bind fun _ => Within.bind (steady_modify fun _ => rfl) fun _ => ?_
  refine within_steady fun c grounded => ?_
  rw [leads_get_bind]
  refine leads_lift_ok fun type _ => ?_
  rw [leads_lift_bind]
  refine (calm_beginBody grounded _).imp fun session calm => leads_modify.mpr ?_
  exact calm.trans (steady_of_grounds_eq rfl calm.grounded)

theorem switches_closeOwner (owner : Option BlockOwner) :
    (closeOwner owner).Within Compiler.Switches := by
  unfold closeOwner
  refine within_get.bind fun c => ?_
  dsimp only
  split
  · exact switches_closing fun session => session.switches_closeType _
  · exact switches_closing fun session => session.switches_closeMethod
  · exact within_pure ()
  · exact within_pure ()

theorem leads_closeBlock (grounded : c.Grounded) : closeBlock.Leads c fun _ later =>
      c.Turns [] later := by
  rw [closeBlock, leads_bind]
  refine (steady_endExpression.calm grounded).imp fun _ ended toEnded => ?_
  rw [leads_get_bind]
  split
  · exact leads_report.mpr toEnded.books.turns_self
  · -- The block is counted off while the method is still open, and then its owner is closed.
    rw [leads_modify_bind]
    have counted := toEnded.trans (steady_of_grounds_eq rfl toEnded.grounded :
      ended.Calm { ended with
        nesting := { ended.nesting with blocks := ended.nesting.blocks - 1 }
        blocks := ended.blocks.tail })
    exact (switches_closeOwner _ _).imp fun _ _ switches => counted.books.turns switches

theorem leads_expressionEnd (grounded : c.Grounded) : expressionEnd.Leads c fun _ later =>
      c.Turns [] later := by
  rw [expressionEnd, leads_bind]
  refine (steady_endExpression.calm grounded).imp fun _ ended toEnded => ?_
  rw [leads_get_bind]
  refine leads_lift_ok fun found _ => ?_
  cases found with
  | none => exact leads_pure.mpr toEnded.books.turns_self
  | some type =>
    dsimp only
    split
    · exact (switches_closing (fun session => session.switches_closeType _) ended).imp
        fun _ _ switches => toEnded.books.turns switches
    · split
      · exact (switches_closing (fun session => session.switches_closeMethod) ended).imp
          fun _ _ switches => toEnded.books.turns switches
      · exact leads_pure.mpr toEnded.books.turns_self

/-! ## Dispatch -/

theorem Within.turns (steady : action.Steady)
    (grounded : c.Grounded) : action.Leads c fun _ later => c.Turns asked later :=
  (steady.books grounded).imp fun _ _ books => books.turns_self

theorem steady_literal (text : String) : (literal text).Steady := by
  have notes : (modify fun compiler =>
      { compiler with literals := compiler.literals ++ [text], expectLiteral := false }).Steady :=
    steady_modify fun _ => rfl
  rw [literal]
  refine within_get.bind fun c => ?_
  dsimp only
  split
  · exact Within.bind (steady_modify fun _ => rfl) fun _ => (noting_directive text).steady
  · split
    · exact steady_flushReference.bind fun _ => notes
    · exact notes

theorem steady_memberSeparator : memberSeparator.Steady := by
  rw [memberSeparator]
  refine within_get.bind fun c => ?_
  split
  · exact within_report _
  · exact steady_modify fun _ => rfl

theorem leads_dispatch (grounded : c.Grounded) (token : Token) (retract : Option TypeId)
    (operators : ∀ op, token = .operator op → asked = storedBy (c.asked token)) :
    (dispatch token retract).Leads c fun _ later => c.Turns asked later := by
  have marks {change : Compiler → Compiler} (same : ∀ c, (change c).grounds = c.grounds) :
      (modify change).Leads c fun _ later => c.Turns asked later :=
    Within.turns (steady_modify same) grounded
  have declares (token : Token) : (declaration token).Leads c fun _ later => c.Turns asked later :=
    ((always_declaration token).within c).imp fun _ _ untouched =>
      (untouched.follows grounded).books.turns_self
  have opens {action : Compile Unit} (does : action.Does c fun _ later =>
      c.Alters Session.Opens later) : action.Leads c fun _ later => c.Turns asked later :=
    Gives.imp does fun _ opens =>
      (Compiler.Calm.refl grounded).books.turns (opens.1.imp Session.Opens.switches)
  have closed : checkClosed.Steady := within_get.bind fun c => within_reportAll _
  cases token with
  | enterNamespace | usingNamespace | includeModule | importLibrary =>
    rw [dispatch]
    exact declares _
  | newLine | directive | new => exact marks fun _ => rfl
  | returnValue =>
    have calm : c.Calm { c with consume := .ret } :=
      steady_of_session_eq rfl rfl (fun _ same => by cases same) (fun _ same => same) grounded
    exact leads_modify.mpr calm.books.turns_self
  | classOpen name kind visibility => exact opens (does_declareType name kind visibility)
  | function name returnType kind visibility =>
    exact opens (does_openFunction name returnType kind visibility)
  | var name typeName isFinal =>
    exact (leads_declareVar grounded name typeName isFinal).imp fun _ _ turns =>
      turns.mono (nil_sublist _)
  | block isOpen =>
    cases isOpen with
    | true => exact steady_openBlock.turns grounded
    | false => exact (leads_closeBlock grounded).imp fun _ _ turns => turns.mono (nil_sublist _)
  | statement isOpen =>
    cases isOpen with
    | true => exact steady_openStatement.turns grounded
    | false => exact steady_closeStatement.turns grounded
  | sequence isOpen =>
    cases isOpen with
    | true => exact steady_openSequence.turns grounded
    | false => exact steady_closeSequence.turns grounded
  | separator kind =>
    cases kind with
    | member => exact steady_memberSeparator.turns grounded
    | statement => exact steady_separate.turns grounded
  | literal text => exact (steady_literal text).turns grounded
  | expressionEnd =>
    exact (leads_expressionEnd grounded).imp fun _ _ turns => turns.mono (nil_sublist _)
  | operator op =>
    rw [operators op rfl]
    exact (leads_operator grounded op retract).imp fun _ _ books => books.turns_self
  | value content => exact (steady_value content).turns grounded
  | breakpoint =>
    have breaks : (emit (·.emit .breakpoint)).Steady := steady_emit fun method => method.grows_emit rfl
    exact Within.turns (breaks.bind fun _ => steady_modify fun _ => rfl) grounded
  | extendsClause | implementsClause =>
    exact Within.turns (closed.bind fun _ => steady_modify fun _ => rfl) grounded
  | label name =>
    have labels : (emitting fun _ method => do return ((), ← method.label name)).Steady := by
      refine steady_emitting fun _ method => ?_
      rw [gives_bind, gives_lift_problem]
      exact method.grows_label name
    exact Within.turns (labels.bind fun _ => within_pure ()) grounded
  | goto name => exact Within.turns (steady_emit fun method => method.grows_branch name) grounded
  | actual | async | parameterType | reserved =>
    exact leads_pure.mpr (Compiler.Calm.refl grounded).books.turns_self

/-! ## The step -/

theorem steady_takeRetractable : takeRetractable.Steady :=
  within_get.bind fun _ => Within.bind (steady_modify fun _ => rfl) fun _ => within_pure _

theorem storedBy_sublist {target other : Option AssignTarget}
    (same : ∀ held, target = some held → other = some held) :
    (storedBy target).Sublist (storedBy other) := by
  cases target with
  | none => exact nil_sublist _
  | some held => rw [same held rfl]

theorem leads_awaited (grounded : c.Grounded) (token : Token) :
    (awaited token).Leads c fun _ later =>
    c.Calm later ∨ token.isEnd = true ∧ c.Books (storedBy c.consume.target?) later := by
  rw [awaited, leads_bind]
  refine (steady_takeRetractable.calm grounded).imp fun retract taken toTaken => ?_
  rw [leads_bind]
  refine ((noting_checkEnd token).steady.trans_calm toTaken).imp fun _ checked toChecked => ?_
  rw [leads_bind]
  refine ((noting_readBase token).steady.trans_calm toChecked).imp fun used based toBased => ?_
  split
  · exact leads_pure.mpr (.inl toBased)
  rw [leads_bind]
  refine ((noting_readInterfaces token).steady.trans_calm toBased).imp fun used listed toListed => ?_
  split
  · exact leads_pure.mpr (.inl toListed)
  rw [leads_get_bind]
  dsimp only
  split
  · rename_i ends
    rw [leads_bind]
    refine (leads_finishConsume toListed.grounded).imp fun _ finished books => leads_pure.mpr (.inr ?_)
    obtain ⟨booked, within, follows⟩ := toListed.trans_books books
    exact ⟨(Bool.and_eq_true _ _ ▸ ends).2, booked, within.trans
      (storedBy_sublist toListed.consume), follows⟩
  · exact leads_pure.mpr (.inl toListed)

/-- A step books at most the store that its token asks for. -/
theorem leads_step (grounded : c.Grounded) (token : Token) :
    (step token).Leads c fun _ later => c.Turns (storedBy (c.asked token)) later := by
  -- What waits for an operator does not change what the operator is about.
  have same : (awaited token).Leads c fun _ later => ∀ op, token = .operator op →
      later.stepped? = c.stepped? := by
    cases token with
    | operator op =>
      refine Gives.imp (does_awaited_foreign rfl) ?_
      rintro ⟨_, _, _⟩ ⟨⟨⟨_, _, rfl⟩, -⟩, -⟩ _ _
      rfl
    | _ => exact gives_iff.mpr fun _ _ _ isOp => by cases isOp
  rw [step_eq, leads_bind]
  refine ((leads_awaited grounded token).and same).imp ?_
  rintro rest later ⟨calm | ⟨isEnd, books⟩, same⟩
  · cases rest with
    | none => exact leads_pure.mpr calm.books.turns_self
    | some retract =>
      refine (leads_dispatch calm.grounded token retract fun op isOp => ?_).imp fun _ _ =>
        calm.trans_turns
      rw [isOp, asked_operator_congr (same op isOp)]
  · rw [c.asked_of_isEnd isEnd]
    cases rest with
    | none => exact leads_pure.mpr books.turns_self
    | some retract =>
      have notOperator (op : Operator) (same : token = .operator op) : [] =
          storedBy (later.asked token) := by
        simp [same, Token.isEnd] at isEnd
      exact (leads_dispatch books.grounded token retract notOperator).imp fun _ _ => books.trans_turns

end Compile

end OnePass
