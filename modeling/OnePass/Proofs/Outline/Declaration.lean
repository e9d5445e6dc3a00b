import OnePass.Proofs.Outline.Clause
import OnePass.Proofs.Outline.Expression

/-! # What declarations do

`Session.Acts` lists everything that an action can do to the session: emit code, or one of the
declarations, each given by the function of the session that carries it out. What holds of a new
session and is kept by each of these holds throughout a build.

`Compiler.Proceeds nest c later` says what an action can do to the state: the session acts, the open
brackets change by `nest`, only the arguments of a directive leave the stream, and no list of
interfaces begins. -/

namespace OnePass

variable {name : String}

theorem TypeDraft.methods_of_named {draft changed : TypeDraft} (named : draft.Names name changed) :
    draft.isOpen = true ∧ changed.isOpen = draft.isOpen ∧ changed.bodies = draft.bodies ∧
      changed.openMethods = draft.openMethods := by
  rcases named with extended | implemented
  · obtain ⟨isOpen, rfl⟩ : _ ∧ { draft with baseName := some name } = changed := by
      simpa [TypeDraft.extend] using extended
    exact ⟨isOpen, rfl, rfl, rfl⟩
  · obtain ⟨isOpen, rfl⟩ : _ ∧ { draft with interfaceNames := draft.interfaceNames ++ [name] } =
        changed := by
      simpa [TypeDraft.implement] using implemented
    exact ⟨isOpen, rfl, rfl, rfl⟩

/-! ## The session -/

/-- What one action can do to the session. Only some actions may include modules. -/
inductive Session.Acts (including : Bool) (session : Session) : Session → Prop
  /-- code was emitted, or a local declared -/
  | code {later : Session} (same : later.outline = session.outline) : session.Acts including later
  | setConstant (name : String) (value : Literal) :
      session.Acts including (session.setConstant name value)
  | setOutput (output : OutputKind) : session.Acts including (session.setOutput output)
  /-- a function was opened in the implicit class -/
  | addScriptFunction {before : Session} {name : String} {result : TypeId} {kind : FuncKind}
      {visibility : Visibility}
      {attrs : MethodAttrs} {ref : MemberRef} (isDefault : before.isDefaultCurrent = .ok true)
      (opened : before.openMethod name result kind visibility attrs = .ok (.method ref, session)) :
      session.Acts including (session.addScriptFunction ref)
  | includeModule {image : ModuleImage} {ids : List TypeId} {table : SymbolTable}
      (allowed : including = true)
      (registered : image.register session.table = .ok (ids, table)) :
      session.Acts including { session with table := table }
  /-- a base or an interface was named -/
  | amend {index : Nat} {draft changed : TypeDraft} {name : String} (here : session.drafts[index]? = some draft)
      (named : draft.Names name changed) :
      session.Acts including (session.setDraft index changed)
  | declareType {name space : String} {kind : ClassKind} {visibility : Visibility} {id : TypeId} {later : Session}
      (declared : session.declareType name space kind visibility = .ok (id, later)) : session.Acts
        including later
  /-- the current type waits for its body -/
  | announce {later : Session} (noted : session.modifyType ({ · with initializing := true }) = .ok later) :
      session.Acts including later
  /-- a body begins -/
  | beginBody {type : Option TypeDraft} {later : Session} (current : session.currentType? = .ok type)
      (begun : session.modifyType (Compile.beginBody (Compile.blockOwner type)) = .ok later) :
      session.Acts including later
  | openMethod {name : String} {result : TypeId} {kind : FuncKind} {visibility : Visibility} {attrs : MethodAttrs}
      {slot : MethodSlot} {later : Session}
      (opened : session.openMethod name result kind visibility attrs = .ok (slot, later)) :
      session.Acts including later
  | declareParam {name : String} {type : TypeId} {slot : VarSlot} {later : Session}
      (declared : session.declareParam name type = .ok (slot, later)) : session.Acts including later
  | declareField {name : String} {type : TypeId} {isFinal : Bool} {ref : MemberRef} {later : Session}
      (declared : session.declareField name type isFinal = .ok (ref, later)) : session.Acts
        including later
  | closeMethod {later : Session} {problems : List Problem} (closed : session.closeMethod = .ok (later, problems)) :
      session.Acts including later
  | closeType {namespaces : List String} {later : Session} {problems : List Problem}
      (closed : session.closeType namespaces = .ok (later, problems)) : session.Acts including later

/-- What a sequence of actions can do to the session. -/
def Session.Becomes (including : Bool) (session later : Session) : Prop :=
  Relation.ReflTransGen (Session.Acts including) session later

namespace Session

variable {including : Bool} {session later : Session}

theorem Becomes.refl (session : Session) : session.Becomes including session :=
  Relation.ReflTransGen.refl

theorem Becomes.trans {last : Session} (first : session.Becomes including later)
    (second : later.Becomes including last) : session.Becomes including last :=
  Relation.ReflTransGen.trans first second

theorem Acts.becomes (acts : session.Acts including later) : session.Becomes including later :=
  Relation.ReflTransGen.single acts

/-- What includes nothing may also be done where modules can be included. -/
theorem Acts.weaken (acts : session.Acts false later) : session.Acts including later := by
  cases acts with
  | code same => exact .code same
  | setConstant name value => exact .setConstant name value
  | setOutput output => exact .setOutput output
  | addScriptFunction isDefault opened => exact .addScriptFunction isDefault opened
  | includeModule allowed => cases allowed
  | amend here named => exact .amend here named
  | declareType declared => exact .declareType declared
  | announce noted => exact .announce noted
  | beginBody current begun => exact .beginBody current begun
  | openMethod opened => exact .openMethod opened
  | declareParam declared => exact .declareParam declared
  | declareField declared => exact .declareField declared
  | closeMethod closed => exact .closeMethod closed
  | closeType closed => exact .closeType closed

theorem Becomes.weaken (becomes : session.Becomes false later) : session.Becomes including later :=
  Relation.ReflTransGen.mono (fun _ _ => Acts.weaken) _ _ becomes

theorem Becomes.allowing (becomes : session.Becomes including later) :
    session.Becomes true later := by
  cases including with
  | false => exact becomes.weaken
  | true => exact becomes

theorem Becomes.keeps {holds : Session → Prop}
    (kept : ∀ session later, session.Acts including later → holds session → holds later)
    (becomes : session.Becomes including later) (here : holds session) : holds later := by
  induction becomes with
  | refl => exact here
  | tail _ acts ih => exact kept _ _ acts ih

/-! ### What declarations result in

Each declaration is unfolded once: it meets a condition if the session that it builds does. -/

theorem gives_of_openMethod {result : TypeId} {kind : FuncKind} {visibility : Visibility}
    {attrs : MethodAttrs} {post : MethodSlot × Session → Prop}
    (done : ∀ index draft owner isStatic slot table, session.current? = .ok (some (index, draft)) →
      session.table.get draft.id = .ok owner → isStatic = (kind == .static || owner.isStatic) →
        addFunction session.table draft.id name result kind isStatic visibility attrs =
          .ok (slot, table) → post (slot,
            { session.setDraft index
                (draft.addMember.openMethod { slot := slot, isStatic := isStatic && kind != .constructor }) with
              table := table
              entryPoint := session.entryAfter slot attrs })) :
    Gives (session.openMethod name result kind visibility attrs) post := by
  rw [openMethod]
  refine gives_fault_ok fun found current => ?_
  cases found with
  | none => exact gives_throw
  | some entry =>
    dsimp only
    refine gives_fault_ok fun owner known => ?_
    exact gives_fault_ok fun added result => done entry.1 entry.2 owner _ added.1 added.2 current
      known rfl result

theorem gives_of_declareParam {type : TypeId} {post : VarSlot × Session → Prop}
    (done : ∀ index draft method rest slot changed table,
      session.current? = .ok (some (index, draft)) → draft.openMethods = method :: rest →
        method.declareParam name type = .ok (slot, changed) →
          addParam session.table method.slot type = .ok table →
            post (slot, { session.setDraft index (draft.setMethod changed) with table := table })) :
    Gives (session.declareParam name type) post := by
  rw [declareParam]
  refine gives_fault_ok fun found isCurrent => ?_
  cases found with
  | none => exact gives_throw
  | some method =>
    obtain ⟨index, draft, rest, current, openMethods⟩ := currentMethod?_eq_some isCurrent
    dsimp only
    rw [gives_bind, gives_lift_problem]
    refine gives_iff.mpr fun declared longer => ?_
    refine gives_fault_ok fun table added => ?_
    rw [gives_fault_bind, setMethod, modifyType, current]
    exact done index draft method rest declared.1 declared.2 table current openMethods longer added

theorem gives_of_declareLocal {name typeName : String} {namespaces : List String} {isFinal : Bool}
    {post : LocalVar × Session → Prop}
    (done : ∀ method var changed, session.currentMethod? = .ok (some method) →
      method.declareLocal session.table name typeName namespaces isFinal = .ok (var, changed) →
        Gives (session.setMethod changed) fun later => post (var, later)) :
    Gives (session.declareLocal name typeName namespaces isFinal) post := by
  rw [declareLocal]
  refine gives_fault_ok fun found current => ?_
  cases found with
  | none => exact gives_throw
  | some method =>
    dsimp only
    rw [gives_bind, gives_lift_problem]
    refine gives_iff.mpr fun declared longer => ?_
    rw [gives_fault_bind]
    exact done method declared.1 declared.2 current longer

theorem gives_of_declareField {type : TypeId} {isFinal : Bool} {post : MemberRef × Session → Prop}
    (done : ∀ index draft field ref table, session.current? = .ok (some (index, draft)) →
      session.table.addField draft.id field = .ok (ref, table) →
        post (ref, { session.setDraft index draft.addMember with table := table })) :
    Gives (session.declareField name type isFinal) post := by
  rw [declareField]
  refine gives_fault_ok fun found current => ?_
  cases found with
  | none => exact gives_throw
  | some entry =>
    dsimp only
    refine gives_fault_ok fun owner _ => ?_
    split
    · exact gives_throw
    · exact gives_fault_ok fun added result => done entry.1 entry.2 _ added.1 added.2 current result

theorem gives_of_closeMethod {post : Session × List Problem → Prop}
    (none : session.current? = .ok none → post (session, []))
    (done : ∀ index draft, session.current? = .ok (some (index, draft)) →
      Gives draft.closeMethod fun (closed, problems) => post (session.setDraft index closed, problems)) :
    Gives session.closeMethod post := by
  rw [closeMethod]
  refine gives_bind_ok fun found current => ?_
  cases found with
  | none => exact none current
  | some entry => exact gives_bind.mpr (done entry.1 entry.2 current)

theorem acts_declareLocal {name typeName : String} {namespaces : List String} {isFinal : Bool} :
    Gives (session.declareLocal name typeName namespaces isFinal) fun (_, later) =>
      session.Acts false later := by
  refine gives_of_declareLocal fun method var changed current declared => ?_
  have same := (method.gives_declareLocal session.table name typeName namespaces isFinal).of_ok
    declared
  exact (gives_setMethod current same).imp fun later kept => .code kept

end Session

/-! ## The state -/

/-- The open brackets: their numbers, and those of the expression under way, innermost first. -/
structure Nested where
  nesting : Nesting
  brackets : List Bracket

/-- The open brackets of a state. -/
def Compiler.nested (c : Compiler) : Nested := ⟨c.nesting, c.outline.brackets⟩

/-- The parts of a state that actions are described by. -/
def Compiler.described (c : Compiler) : Session × Nested × List Token × Option String :=
  (c.session, c.nested, c.stream, c.interfaces)

/-- What an action can do to the state. -/
structure Compiler.Proceeds (nest : Nested → Nested) (c later : Compiler) : Prop where
  session : c.session.Becomes false later.session
  nested : later.nested = nest c.nested
  stream : ∃ taken, c.stream = taken ++ later.stream ∧ ∀ token ∈ taken, token.isArgument = true
  interfaces : c.interfaces = none → later.interfaces = none

theorem arguments_trans {first second third : List Token}
    (before : ∃ taken, first = taken ++ second ∧ ∀ token ∈ taken, token.isArgument = true)
    (after : ∃ taken, second = taken ++ third ∧ ∀ token ∈ taken, token.isArgument = true) :
    ∃ taken, first = taken ++ third ∧ ∀ token ∈ taken, token.isArgument = true := by
  obtain ⟨taken, rfl, arguments⟩ := before
  obtain ⟨others, rfl, more⟩ := after
  exact ⟨taken ++ others, (List.append_assoc ..).symm, List.forall_mem_append.mpr ⟨arguments, more⟩⟩

namespace Compiler

variable {nest : Nested → Nested} {c later : Compiler}

theorem Proceeds.trans {more : Nested → Nested} {last : Compiler} (first : c.Proceeds nest later)
    (second : later.Proceeds more last) : c.Proceeds (more ∘ nest) last where
  session := first.session.trans second.session
  nested := by rw [second.nested, first.nested, Function.comp_apply]
  stream := arguments_trans first.stream second.stream
  interfaces := fun none => second.interfaces (first.interfaces none)

theorem Proceeds.of_becomes (session : c.session.Becomes false later.session)
    (nested : later.nested = nest c.nested) (stream : later.stream = c.stream)
    (interfaces : later.interfaces = c.interfaces) : c.Proceeds nest later where
  session := session
  nested := nested
  stream := ⟨[], by simp [stream], by simp⟩
  interfaces := fun none => interfaces.trans none

theorem Proceeds.of_session_eq (session : later.session = c.session)
    (nested : later.nested = nest c.nested) (stream : later.stream = c.stream)
    (interfaces : later.interfaces = c.interfaces) : c.Proceeds nest later :=
  .of_becomes (by rw [session]; exact .refl _) nested stream interfaces

instance : IsPreorder Compiler (Proceeds id) where
  refl _ := .of_session_eq rfl rfl rfl rfl
  trans _ _ _ first second := first.trans second

theorem Proceeds.of_outline {outline : Outline} (changed : later.outline = outline)
    (session : outline.session = c.session.outline)
    (nested : (⟨outline.nesting, outline.brackets⟩ : Nested) = nest c.nested)
    (stream : outline.stream = c.stream) (interfaces : outline.interfaces = c.interfaces) :
    c.Proceeds nest later := by
  subst changed
  exact .of_becomes (Session.Acts.code session).becomes nested stream interfaces

theorem Alike.proceeds (alike : c.Alike later) : c.Proceeds id later :=
  .of_outline alike rfl rfl rfl rfl

theorem Proceeds.withSession {session : Session} (becomes : c.session.Becomes false session) :
    c.Proceeds id { c with session := session } :=
  .of_becomes becomes rfl rfl rfl

theorem Notes.proceeds (notes : c.Notes later) : c.Proceeds id later := by
  cases notes with
  | takes stream arguments => exact ⟨.refl _, rfl, ⟨_, stream, arguments⟩, id⟩
  | amends here named => exact .withSession (Session.Acts.amend here named).becomes
  | setsOutput output => exact .withSession (Session.Acts.setOutput output).becomes
  | setsConstant name value => exact .withSession (Session.Acts.setConstant name value).becomes
  | lists reading name =>
    exact ⟨.refl _, rfl, ⟨[], rfl, by simp⟩, fun none => by simp [reading] at none⟩
  | flags => exact .of_session_eq rfl rfl rfl rfl

end Compiler

/-! ## Actions -/

namespace Compile

variable {α : Type} {c : Compiler} {work : Session → Except Fault (Session × List Problem)}

/-- The action proceeds and leaves the open brackets as they are. -/
def Proceeds (action : Compile α) : Prop := action.Within (Compiler.Proceeds id)

theorem Within.proceeds {action : Compile α} (alike : action.Alike) : action.Proceeds :=
  alike.imp fun _ _ => Compiler.Alike.proceeds

theorem Noting.proceeds {action : Compile α} (noting : action.Noting) : action.Proceeds :=
  (noting.always fun _ _ => Compiler.Notes.proceeds).within

/-- A change of the state that leaves alone what actions are described by. -/
theorem proceeds_modify {change : Compiler → Compiler}
    (same : ∀ c, (change c).described = c.described) : (modify change).Proceeds := by
  refine within_modify fun c => ?_
  obtain ⟨session, nested, stream, interfaces⟩ : (change c).session = c.session ∧
      (change c).nested = c.nested ∧ (change c).stream = c.stream ∧
          (change c).interfaces = c.interfaces := by
    simpa [Compiler.described] using same c
  exact .of_session_eq session nested stream interfaces

theorem leads_onSession {work : Session → Except Failure (α × Session)}
    {post : Option α → Compiler → Prop} (refused : post none c)
    (done : Gives (work c.session) fun (a, session) => post (some a) { c with session := session }) :
    (onSession work).Leads c post := by
  rw [onSession, leads_get_bind, leads_bind]
  refine leads_attempt (done.imp ?_) (leads_pure.mpr refused)
  rintro ⟨a, session⟩ after
  rw [leads_modify_bind, leads_pure]
  exact after

theorem proceeds_onSession {work : Session → Except Failure (α × Session)}
    (works : ∀ session, Gives (work session) fun (_, later) => session.Acts false later) :
    (onSession work).Proceeds :=
  fun c => leads_onSession (refl_of _ c) ((works c.session).imp fun _ acts =>
    .withSession acts.becomes)

theorem leads_closing {post : Unit → Compiler → Prop}
    (works : Gives (work c.session) fun (session, _) => post () { c with session := session }) :
    (closing work).Leads c post := by
  rw [closing, leads_get_bind, leads_lift_bind]
  refine works.imp ?_
  rintro ⟨session, problems⟩ met
  rw [leads_modify_bind, leads_reportAll]
  exact met

theorem proceeds_closing
    (works : ∀ session, Gives (work session) fun (later, _) => session.Acts false later) :
    (closing work).Proceeds := by
  refine fun c => leads_closing ((works c.session).imp ?_)
  rintro ⟨session, problems⟩ acts
  exact .withSession acts.becomes

/-! ## Types, functions and variables -/

theorem proceeds_changeSession {work : Session → Except Fault Session}
    (works : ∀ session, Gives (work session) fun later => session.Acts false later) :
    (do
      let session ← work (← get).session
      modify ({ · with session := session }) : Compile Unit).Proceeds := by
  intro c
  rw [leads_get_bind, leads_lift_bind]
  exact (works c.session).imp fun session acts => leads_modify.mpr (.withSession acts.becomes)

theorem proceeds_declareType (name : String) (kind : ClassKind) (visibility : Visibility) :
    (declareType name kind visibility).Proceeds := by
  rw [declareType]
  refine within_get.bind fun c => ?_
  refine Within.bind (proceeds_onSession fun session => ?_) fun declared => ?_
  · rw [gives_lift_problem]
    exact gives_iff.mpr fun _ declared => .declareType declared
  · cases declared with
    | none => exact within_pure ()
    | some id =>
      exact proceeds_changeSession fun session => gives_iff.mpr fun _ noted => .announce noted

theorem alike_resultType (name returnType : String) : (resultType name returnType).Alike := by
  rw [resultType]
  refine within_get.bind fun c => ?_
  dsimp only
  split
  · exact within_pure _
  · split
    · exact within_pure _
    · exact (within_report _).bind fun _ => within_pure _

theorem proceeds_openFunction (name returnType : String) (kind : FuncKind)
    (visibility : Visibility) : (openFunction name returnType kind visibility).Proceeds := by
  rw [openFunction]
  refine Within.bind (alike_resultType name returnType).proceeds fun result c => ?_
  rw [leads_get_bind, leads_modify_bind]
  refine leads_lift_ok fun isDefault current => ?_
  dsimp only
  rw [leads_bind]
  -- The function is opened in the session that was asked whether the implicit class is current.
  refine leads_onSession (leads_pure.mpr (.of_session_eq rfl rfl rfl rfl)) (gives_iff.mpr ?_)
  rintro ⟨slot, session⟩ opened
  have toOpened : c.Proceeds id { c with methodAttrs := {}, session := session } :=
    .of_becomes (Session.Acts.openMethod opened).becomes rfl rfl rfl
  cases slot with
  | ctor _ => exact leads_pure.mpr toOpened
  | method ref =>
    dsimp only
    split
    · rename_i isFree
      obtain rfl : isDefault = true := (Bool.and_eq_true_iff.mp isFree).2
      exact leads_modify.mpr (trans_of _ toOpened
        (.withSession (Session.Acts.addScriptFunction current opened).becomes))
    · exact leads_pure.mpr toOpened

theorem alike_variableType (name typeName : String) : (variableType name typeName).Alike := by
  rw [variableType]
  refine within_get.bind fun c => ?_
  dsimp only
  split
  · exact (within_report _).bind fun _ => within_pure _
  · exact within_pure _

theorem proceeds_declareParam (name typeName : String) : (declareParam name typeName).Proceeds := by
  rw [declareParam]
  refine Within.bind (alike_variableType name typeName).proceeds fun type => ?_
  cases type with
  | none => exact within_pure ()
  | some type =>
    exact Within.bind
      (proceeds_onSession fun session => gives_iff.mpr fun _ declared => .declareParam declared)
      fun _ => within_pure ()

theorem proceeds_declareLocal (name typeName : String) (isFinal : Bool) :
    (declareLocal name typeName isFinal).Proceeds := by
  rw [declareLocal]
  refine within_get.bind fun c => ?_
  refine Within.bind (proceeds_onSession fun session => Session.acts_declareLocal) fun declared => ?_
  cases declared with
  | none => exact within_pure ()
  | some var => exact proceeds_modify fun _ => rfl

theorem proceeds_declareField (name typeName : String) (isFinal : Bool) :
    (declareField name typeName isFinal).Proceeds := by
  rw [declareField]
  refine Within.bind (alike_variableType name typeName).proceeds fun type => ?_
  cases type with
  | none => exact within_pure ()
  | some type =>
    refine Within.bind
      (proceeds_onSession fun session => gives_iff.mpr fun _ declared => .declareField declared)
      fun declared => ?_
    cases declared with
    | none => exact within_pure ()
    | some ref => exact proceeds_modify fun _ => rfl

theorem proceeds_declareVar (name typeName : String) (isFinal : Bool) :
    (declareVar name typeName isFinal).Proceeds := by
  rw [declareVar]
  refine Within.bind keeps_flushReference.alike.proceeds fun _ => within_get.bind fun c => ?_
  refine (within_lift _).bind fun found => ?_
  cases found with
  | some method =>
    dsimp only
    split
    · exact proceeds_declareParam name typeName
    · exact proceeds_declareLocal name typeName isFinal
  | none =>
    refine (within_lift _).bind fun type => ?_
    split
    · exact proceeds_declareField name typeName isFinal
    · exact within_report _

end Compile

end OnePass
