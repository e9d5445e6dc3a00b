import OnePass.Proofs.Layout.Brackets
import OnePass.Proofs.Layout.Closing
import OnePass.Proofs.Layout.Declaration
import OnePass.Proofs.Apart.Step

/-! # One step and the code that stands

What the step on a token does to the methods depends on the token. Most tokens edit the current
method behind the code that stands (`Compiler.Leaves`). A type or a function may open a method
without code (`Session.Opens`). A label or a branch is noted in the current method
(`Session.Notes`). An end closes methods, after it has ended the expression under way
(`Compiler.Closes`). -/

namespace OnePass

open List Compiler

/-! ## Receivers -/

namespace SymbolTable

/-- How many arguments a method or constructor takes before its parameters. -/
def receivers (table : SymbolTable) : MethodSlot → Except Fault Nat
  | .method ref => do return if (← table.method ref).isStatic then 0 else 1
  | .ctor _ => return 1

variable {table later : SymbolTable}

theorem gives_method {ref : MemberRef} :
    Gives (table.method ref) fun method => table.marks? ref = some method.marks := by
  rw [SymbolTable.method, gives_bind]
  refine gives_get.imp fun type found => ?_
  rw [member]
  split
  · rename_i method here
    exact marks?_eq_some.mpr ⟨type, found, method, here, rfl⟩
  · exact gives_error

theorem receivers_of_marks {ref : MemberRef} {isStatic : Bool} {attrs : MethodAttrs}
    (marked : table.marks? ref = some (isStatic, attrs)) :
    table.receivers (.method ref) = .ok (if isStatic then 0 else 1) := by
  obtain ⟨type, found, method, here, marks⟩ := marks?_eq_some.mp marked
  obtain ⟨rfl, rfl⟩ := Prod.mk.inj marks
  rw [receivers, method_eq_ok found here]
  rfl

theorem Retains.receivers (retains : table.Retains later) {slot : MethodSlot} {count : Nat}
    (before : table.receivers slot = .ok count) : later.receivers slot = .ok count := by
  cases slot with
  | ctor ref => exact before
  | method ref =>
    cases found : table.method ref with
    | error fault => simp [SymbolTable.receivers, found, bind, Except.bind] at before
    | ok method =>
      have marks := gives_method.of_ok found
      rw [receivers_of_marks (retains ref _ marks), ← before, receivers_of_marks marks]

end SymbolTable

/-! ## Sessions -/

/-- Whether a method is static, it is in the table as well. -/
def MethodDraft.Matches (table : SymbolTable) (method : MethodDraft) : Prop :=
  table.receivers method.slot = .ok (if method.isStatic then 0 else 1)

/-- A method in which nothing was declared or emitted. -/
structure MethodDraft.IsNew (method : MethodDraft) : Prop where
  params : method.params = []
  locals : method.locals = []
  code : method.code = []
  labels : method.labels = []
  fixups : method.fixups = []

namespace Session

variable {session later last : Session} {change : MethodDraft → MethodDraft}

theorem slots_perm_of_replaced {method changed : MethodDraft} {others : List MethodDraft}
    (bodies : later.bodies = session.bodies) (slot : changed.slot = method.slot)
    (before : session.openMethods.Perm (method :: others))
    (after : later.openMethods.Perm (changed :: others)) : later.slots.Perm session.slots := by
  have same : (changed :: others).map (·.slot) = (method :: others).map (·.slot) := by
    rw [map_cons, map_cons, slot]
  have openSlots : (later.openMethods.map (·.slot)).Perm (session.openMethods.map (·.slot)) :=
    ((after.map _).trans (.of_eq same)).trans (before.map _).symm
  refine later.slots_perm.trans (.trans ?_ session.slots_perm.symm)
  rw [bodies]
  exact openSlots.append_left _

theorem Untouched.slots_perm (untouched : session.Untouched later) :
    later.slots.Perm session.slots := by
  refine later.slots_perm.trans (.trans ?_ session.slots_perm.symm)
  rw [untouched.bodies, untouched.openMethods]

theorem Reworks.slots_perm {g : Guard} (reworks : session.Reworks g later) :
    later.slots.Perm session.slots := by
  rcases reworks.methods with untouched | ⟨method, changed, replaced⟩
  · exact untouched.slots_perm
  · obtain ⟨others, before, after⟩ := replaced.openMethods
    exact slots_perm_of_replaced reworks.bodies replaced.edits.slot before after

/-- New methods are opened, and all others stay as they are. -/
structure Opens (session later : Session) : Prop where
  bodies : later.bodies = session.bodies
  openMethods : ∃ opened, later.openMethods.Perm (opened ++ session.openMethods) ∧
    ∀ method ∈ opened, method.IsNew ∧ method.Matches later.table

theorem opens_of_eq (bodies : later.bodies = session.bodies)
    (openMethods : later.openMethods = session.openMethods) : session.Opens later :=
  ⟨bodies, [], by rw [openMethods]; exact .refl _, forall_mem_nil _⟩

theorem Untouched.opens (untouched : session.Untouched later) : session.Opens later :=
  opens_of_eq untouched.bodies untouched.openMethods

theorem Untouched.trans_opens (untouched : session.Untouched later) (opens : later.Opens last) :
    session.Opens last :=
  ⟨opens.bodies.trans untouched.bodies, untouched.openMethods ▸ opens.openMethods⟩

theorem Opens.trans_untouched (opens : session.Opens later) (untouched : later.Untouched last)
    (table : last.table = later.table) : session.Opens last := by
  refine ⟨untouched.bodies.trans opens.bodies, ?_⟩
  rw [untouched.openMethods, table]
  exact opens.openMethods

theorem slots_perm_of_opened {opened : List MethodDraft} (bodies : later.bodies = session.bodies)
    (openMethods : later.openMethods.Perm (opened ++ session.openMethods)) :
    later.slots.Perm (opened.map (·.slot) ++ session.slots) := by
  refine later.slots_perm.trans (.trans ?_ (session.slots_perm.symm.append_left _))
  rw [bodies]
  have openSlots := (openMethods.map (·.slot)).append_left (session.bodies.map (·.slot))
  rw [map_append] at openSlots
  exact openSlots.trans (perm_append_comm_assoc ..)

theorem opens_declareType (session : Session) (name space : String) (kind : ClassKind)
    (visibility : Visibility) : Yields (liftM (session.declareType name space kind visibility))
      fun (_, later) => session.Opens later := by
  have defines (type : TypeDef) : Yields (liftM (session.table.define type)) fun _ => True := by
    rw [SymbolTable.define]
    split
    · rfl
    · trivial
  rw [declareType, yields_lift_bind]
  exact (defines _).imp fun _ _ => opens_of_eq (by simp [bodies]) (by simp [openMethods])

theorem untouched_modifyType {change : TypeDraft → TypeDraft}
    (same : ∀ draft : TypeDraft, (change draft).isOpen = draft.isOpen ∧
      (change draft).openMethods = draft.openMethods ∧ (change draft).bodies = draft.bodies) :
    Gives (session.modifyType change) fun later => session.Untouched later ∧
      later.table = session.table := by
  refine gives_of_modifyType (fun _ => ⟨.refl session, rfl⟩) fun index draft current => ?_
  obtain ⟨isOpen, openMethods, bodies⟩ := same draft
  exact ⟨untouched_setDraft (current?_eq_some current).2.1 isOpen openMethods bodies, rfl⟩

theorem opens_openMethod {session : Session} (name : String) (result : TypeId) (kind : FuncKind)
    (visibility : Visibility) (attrs : MethodAttrs) :
    Yields (session.openMethod name result kind visibility attrs) fun (_, later) =>
      session.Opens later := by
  rw [openMethod]
  refine yields_fault_ok fun entry current => ?_
  cases entry with
  | none => rfl
  | some entry =>
    obtain ⟨index, draft⟩ := entry
    obtain ⟨-, here, -⟩ := current?_eq_some current
    dsimp only
    refine yields_fault_ok fun type _ => ?_
    rw [yields_fault_bind]
    refine (gives_addFunction _ _ _ _ _ _ _).imp ?_
    rintro ⟨slot, table⟩ ⟨-, marks⟩
    let method : MethodDraft :=
      { slot := slot, isStatic := (kind == .static || type.isStatic) && kind != .constructor }
    have finished : (session.setDraft index (draft.addMember.openMethod method)).bodies =
        session.bodies :=
      flatMap_setDraft here rfl
    have isNew : method.IsNew := ⟨rfl, rfl, rfl, rfl, rfl⟩
    have isStatic : method.Matches table := by
      cases slot with
      | method ref =>
        obtain ⟨isMethod, -, marked⟩ := marks
        simpa [MethodDraft.Matches, method, isMethod] using SymbolTable.receivers_of_marks marked
      | ctor ref =>
        simp [MethodDraft.Matches, method, marks, SymbolTable.receivers, pure, Except.pure]
    refine ⟨finished, [method], ?_, forall_mem_singleton.mpr ⟨isNew, isStatic⟩⟩
    obtain ⟨before, after, drafts, sets⟩ := exists_around here
    simp only [openMethods, setDraft, sets]
    rw [drafts]
    simp only [flatMap_append, flatMap_cons]
    exact perm_middle

/-- Something is noted in the current method, and all others stay as they are. -/
structure Notes (change : MethodDraft → MethodDraft) (session later : Session) : Prop where
  bodies : later.bodies = session.bodies
  methods : session.currentMethod? = .ok none ∧ session.Untouched later ∨
    ∃ method others, session.currentMethod? = .ok (some method) ∧
      later.currentMethod? = .ok (some (change method)) ∧
      session.openMethods.Perm (method :: others) ∧ later.openMethods.Perm (change method :: others)

theorem Notes.slots_perm (slot : ∀ method, (change method).slot = method.slot)
    (notes : session.Notes change later) : later.slots.Perm session.slots := by
  rcases notes.methods with ⟨-, untouched⟩ | ⟨method, others, -, -, before, after⟩
  · exact untouched.slots_perm
  · exact slots_perm_of_replaced notes.bodies (slot method) before after

theorem Untouched.trans_notes (untouched : session.Untouched later)
    (notes : later.Notes change last) : session.Notes change last := by
  refine ⟨notes.bodies.trans untouched.bodies, ?_⟩
  rw [← untouched.current, ← untouched.openMethods]
  exact notes.methods.imp_left fun ⟨nowhere, same⟩ => ⟨nowhere, untouched.trans same⟩

end Session

/-- What a label or a branch does to a method. The first definition of a label counts. -/
def Token.note : Token → MethodDraft → MethodDraft
  | .label name, method =>
    if (method.labels.lookup name).isSome then method
    else { method with labels := (name, UInt32.ofNat method.position) :: method.labels }
  | .goto name, method => method.branch name
  | _, method => method

theorem Token.slot_note (token : Token) (method : MethodDraft) :
    (token.note method).slot = method.slot := by
  unfold note
  split
  · split <;> rfl
  · rfl
  · rfl

/-! ## Opening -/

namespace Compile

variable {g : Guard} {c : Compiler}

theorem does_declareType (name : String) (kind : ClassKind) (visibility : Visibility) :
    (declareType name kind visibility).Does c fun _ later => c.Alters Session.Opens later := by
  rw [declareType]
  refine does_get_bind ?_
  have stays : c.Alters Session.Opens c := ⟨(Session.Untouched.refl _).opens, rfl, rfl,
    List.Subset.refl _, rfl⟩
  have declares :
      (onSession fun session => do session.declareType name c.space kind visibility).Does c
        fun _ later => c.Alters Session.Opens later := by
    refine does_onSession stays ((c.session.opens_declareType name c.space kind visibility).imp
      fun _ opens => ?_)
    exact ⟨opens, rfl, rfl, List.Subset.refl _, rfl⟩
  refine declares.bind fun declared later toLater => ?_
  cases declared with
  | none => exact does_pure toLater
  | some id =>
    have announces : Gives (later.session.modifyType ({ · with initializing := true })) fun session =>
        later.session.Untouched session ∧ session.table = later.session.table :=
      Session.untouched_modifyType fun _ => ⟨rfl, rfl, rfl⟩
    refine does_get_bind (does_lift_bind announces ?_)
    rintro session ⟨untouched, table⟩
    exact does_modify ⟨toLater.session.trans_untouched untouched table, toLater.frames,
      toLater.base, toLater.targets, toLater.retractable⟩

theorem always_resultType (name returnType : String) :
    (resultType name returnType).Always Compiler.Untouched := by
  rw [resultType]
  refine always_get.bind fun c => ?_
  dsimp only
  split
  · exact always_pure _
  · split
    · exact always_pure _
    · exact (always_report rfl).bind fun _ => always_pure _

theorem does_openFunction (name returnType : String) (kind : FuncKind) (visibility : Visibility) :
    (openFunction name returnType kind visibility).Does c fun _ later =>
      c.Alters Session.Opens later := by
  rw [openFunction]
  refine (always_resultType name returnType c).bind fun result typed toTyped =>
    does_get_bind (does_modify_bind ?_)
  refine does_lift_bind (gives_self _) fun isDefault _ => ?_
  have forgets : typed.Untouched { typed with methodAttrs := {} } := untouched_of_site_eq rfl
  have toHere : c.Untouched { typed with methodAttrs := {} } := toTyped.trans forgets .trans
  have opens (attrs : MethodAttrs) : (onSession
      (·.openMethod name result kind visibility attrs)).Does { typed with methodAttrs := {} }
          fun _ later => c.Alters Session.Opens later := by
    refine does_onSession (toHere.imp Session.Untouched.opens)
      ((Session.opens_openMethod name result kind visibility attrs).imp fun _ opened => ?_)
    exact ⟨toHere.session.trans_opens opened, toHere.frames, toHere.base, toHere.targets,
      toHere.retractable⟩
  refine (opens _).bind fun opened later toLater => ?_
  split
  · split
    · rename_i ref _
      have noted : later.session.Untouched (later.session.addScriptFunction ref) :=
        Session.untouched_of_drafts_eq rfl rfl rfl
      exact does_modify ⟨toLater.session.trans_untouched noted rfl, toLater.frames, toLater.base,
        toLater.targets, toLater.retractable⟩
    · exact does_pure toLater
  · exact does_pure toLater

/-! ## Labels and branches -/

/-- Work on the current method that changes it in a certain way, or is refused where that changes
nothing. -/
theorem does_note {work : MethodDraft → Except Failure (Unit × MethodDraft)}
    {change : MethodDraft → MethodDraft} (notes : ∀ method, work method = .ok ((), change method) ∨
      change method = method ∧ ∃ problem : Problem, problem.isUndefinedLabel = false ∧
        work method = .error (.problem problem)) :
    (emitting fun _ => work).Does c fun _ later => c.Alters (Session.Notes change) later := by
  rw [emitting]
  refine does_get_bind (does_lift_bind (gives_self _) fun found current => ?_)
  cases found with
  | none =>
    have same : c.session.Notes change c.session := ⟨rfl, .inl ⟨current, .refl _⟩⟩
    exact does_report_bind rfl (does_pure ⟨same, rfl, rfl, List.Subset.refl _, rfl⟩)
  | some method =>
    dsimp only
    rcases notes method with done | ⟨same, problem, quiet, refused⟩
    · rw [done]
      refine does_pure_bind (does_lift_bind ((Session.gives_swaps current (change method)).and
        (c.session.gives_setMethod_bodies (change method))) ?_)
      rintro session ⟨swaps, bodies⟩
      obtain ⟨others, before, after⟩ := swaps.openMethods
      have noted : c.session.Notes change session :=
        ⟨bodies, .inr ⟨method, others, current, swaps.current, before, after⟩⟩
      exact does_modify_bind (does_pure ⟨noted, rfl, rfl, List.Subset.refl _, rfl⟩)
    · have perm := perm_cons_erase (Session.mem_openMethods_of_current current)
      have unchanged : c.session.Notes change c.session :=
        ⟨rfl, .inr ⟨method, _, current, same.symm ▸ current, perm, same.symm ▸ perm⟩⟩
      rw [refused]
      exact does_attempt_bind (p := fun _ => False) quiet (fun _ => False.elim)
        (does_pure ⟨unchanged, rfl, rfl, List.Subset.refl _, rfl⟩)

end Compile

/-! ## What waits for a token -/

/-- The state without a result that could be taken back. -/
def Compiler.taken (c : Compiler) : Compiler := { c with retractable := none }

theorem Compiler.Guarded.taken {g : Guard} {c : Compiler} (guarded : c.Guarded g) :
    c.taken.Guarded g :=
  guarded.reframe rfl rfl (List.Subset.refl _) guarded.plain

/-- The number of instructions of the current method. -/
def Compiler.position (c : Compiler) : Nat :=
  match c.session.currentMethod? with
  | .ok (some method) => method.position
  | _ => 0

theorem Compiler.here_position (c : Compiler) : c.session.Here fun method =>
      c.position = method.position := by
  intro method current
  rw [position, current]

/-- Whether a token leaves the current method the current one, with the labels and branches that it
has. -/
def Token.stays : Token → Bool
  | .classOpen .. | .function .. | .block false | .expressionEnd | .label _ | .goto _ => false
  | _ => true

/-- Whether a token may open a method. -/
def Token.opens : Token → Bool
  | .classOpen .. | .function .. => true
  | _ => false

/-- Whether a token notes something in the current method. -/
def Token.isMark : Token → Bool
  | .label _ | .goto _ => true
  | _ => false

/-- Whether a token belongs between expressions. -/
def Token.isOuter : Token → Bool
  | .expressionEnd | .block _ | .classOpen .. | .function .. | .label _ | .goto _ => true
  | _ => false

/-- A token may close methods, or it marks something, or it may open a method, or else it stays in
its method. -/
theorem Token.role_cases (token : Token) :
    token.closes = true ∧ token.isMark = false ∧ token.isOuter = true ∨
      token.isMark = true ∧ token.closes = false ∧ token.isOuter = true ∨
      token.opens = true ∧ token.closes = false ∧ token.isMark = false ∧ token.isOuter = true ∨
      token.stays = true ∧ token.closes = false ∧ token.isMark = false := by
  cases token with
  | block isOpen => cases isOpen <;> simp [closes, isMark, opens, stays, isOuter]
  | _ => simp [closes, isMark, opens, stays, isOuter]

/-- Whether a token belongs neither to a list of interfaces nor behind one. -/
def Token.isForeign : Token → Bool
  | .literal _ | .separator _ | .newLine => false
  | token => !token.isEnd

theorem Token.isForeign_of_isMark {token : Token} (isMark : token.isMark = true) :
    token.isForeign = true := by
  cases token with
  | label | goto => rfl
  | _ => cases isMark

theorem Token.isEnd_of_isForeign {token : Token} (foreign : token.isForeign = true) :
    token.isEnd = false := by
  cases token with
  | expressionEnd => cases foreign
  | block isOpen =>
    cases isOpen with
    | true => cases foreign
    | false => rfl
  | _ => rfl

theorem Nesting.quiet_unclosed (nesting : Nesting) :
    ∀ problem ∈ nesting.unclosed, problem.isUndefinedLabel = false := by
  intro problem here
  obtain ⟨⟨count, bracket⟩, -, rfl⟩ := mem_map.mp here
  rfl

namespace Compile

variable {g : Guard} [g.Loose] {c : Compiler} {token : Token}

theorem does_takeRetractable : takeRetractable.Does c fun retract later =>
    retract = c.retractable ∧ later = c.taken :=
  does_get_bind (does_modify_bind (does_pure ⟨rfl, rfl⟩))

/-- What waits for a token is dealt with behind the code that stands. Only an end does anything to a
method. -/
theorem does_awaited (guarded : c.Guarded g) (token : Token) :
    (awaited token).Does c fun rest later => c.taken.Works g later ∧
      (token.isEnd = false → c.taken.Untouched later) ∧ ∀ retract ∈ rest, retract = c.retractable := by
  rw [awaited]
  refine does_takeRetractable.bind ?_
  rintro _ _ ⟨rfl, rfl⟩
  refine (does_checkEnd token).bind ?_
  rintro _ _ ⟨needEnd, rfl⟩
  have toNoted : c.taken.Untouched { c.taken with needEnd := needEnd } := untouched_of_site_eq rfl
  refine ((noting_readBase token).untouched _).bind fun isBase based toBased => ?_
  have untouched : c.taken.Untouched based := trans_of _ toNoted toBased
  split
  · exact does_pure ⟨untouched.works guarded.taken Guard.loose, fun _ => untouched,
      fun _ held => by cases held⟩
  refine ((noting_readInterfaces token).untouched based).bind fun isListed listed toListed => ?_
  have stillUntouched : c.taken.Untouched listed := trans_of _ untouched toListed
  have works : c.taken.Works g listed := stillUntouched.works guarded.taken Guard.loose
  split
  · exact does_pure ⟨works, fun _ => stillUntouched, fun _ held => by cases held⟩
  refine does_get_bind ?_
  dsimp only
  split
  · rename_i ends
    have isEnd : token.isEnd = true := (Bool.and_eq_true_iff.mp ends).2
    refine (keeps_finishConsume.does works).bind fun _ later toLater => ?_
    refine does_pure ⟨toLater, fun isOther => ?_, fun _ same => Option.some.inj same.symm⟩
    simp [isEnd] at isOther
  · exact does_pure ⟨works, fun _ => stillUntouched, fun _ same => Option.some.inj same.symm⟩

/-- The step on a token that closes no method does not come upon a branch. -/
theorem advances_step (sound : c.Sound) (keepsOpen : token.closes = false) :
    (step token).Advances token c := by
  rw [step_eq]
  refine (safe_awaited sound token).bind_advances fun rest later toLater known => ?_
  cases rest with
  | none => exact (safe_return toLater.sound).advances
  | some retract => exact advances_dispatch toLater.sound keepsOpen known

section Foreign

variable (isForeign : token.isForeign = true)

include isForeign

theorem does_readBase_foreign : (readBase token).Does c fun used later =>
    used = false ∧ ∃ pending, later = { c with pendingExtends := pending } := by
  unfold readBase
  refine does_get_bind ?_
  split
  · exact does_pure ⟨rfl, _, rfl⟩
  refine does_modify_bind ?_
  split
  · cases isForeign
  · exact does_report_bind rfl (does_pure ⟨rfl, _, rfl⟩)

theorem does_readInterfaces_foreign : (readInterfaces token).Does c fun used later =>
    used = c.interfaces.isSome ∧ later = c := by
  unfold readInterfaces
  refine does_get_bind ?_
  split
  · rename_i isNone
    exact does_pure ⟨by rw [isNone]; rfl, rfl⟩
  rename_i current isSome
  split
  · cases isForeign
  · cases isForeign
  · cases isForeign
  · cases isForeign
  rw [if_neg (by simp [Token.isEnd_of_isForeign isForeign])]
  exact does_report_bind rfl (does_pure ⟨by rw [isSome]; rfl, rfl⟩)

/-- Such a token is used up by a list of interfaces, and by nothing else that waits. -/
theorem does_awaited_foreign : (awaited token).Does c fun rest later =>
    (∃ needEnd pending, later = { c.taken with needEnd := needEnd, pendingExtends := pending }) ∧
      rest = if c.interfaces.isSome then none else some c.retractable := by
  rw [awaited]
  refine does_takeRetractable.bind ?_
  rintro _ _ ⟨rfl, rfl⟩
  refine (does_checkEnd token).bind ?_
  rintro _ _ ⟨needEnd, rfl⟩
  refine (does_readBase_foreign isForeign).bind ?_
  rintro _ _ ⟨rfl, pending, rfl⟩
  refine (does_readInterfaces_foreign isForeign).bind ?_
  rintro _ _ ⟨rfl, rfl⟩
  split
  · rename_i used
    exact does_pure ⟨⟨needEnd, pending, rfl⟩, (if_pos used).symm⟩
  · rename_i unused
    refine does_get_bind ?_
    dsimp only
    rw [if_neg (by simp [Token.isEnd_of_isForeign isForeign])]
    exact does_pure ⟨⟨needEnd, pending, rfl⟩, (if_neg unused).symm⟩

end Foreign

/-! ## The step -/

theorem keeps_literal (text : String) : (literal text).Keeps g := by
  have notes : (modify fun compiler =>
      { compiler with literals := compiler.literals ++ [text], expectLiteral := false }).Keeps g :=
    keeps_skip fun _ => rfl
  rw [literal]
  refine keeps_get_bind fun c => ?_
  dsimp only
  split
  · exact Keeps.bind (keeps_skip fun _ => rfl) fun _ => (noting_directive text).untouched.keeps
  · split
    · exact keeps_flushReference.bind fun _ => notes
    · exact notes

theorem keeps_memberSeparator : memberSeparator.Keeps g := by
  rw [memberSeparator]
  refine keeps_get_bind fun c => ?_
  split
  · exact keeps_report rfl
  · exact keeps_skip fun _ => rfl

omit [g.Loose] in
theorem keeps_checkClosed : checkClosed.Keeps g := by
  rw [checkClosed]
  exact keeps_get_bind fun c _ guarded => does_reportAll (.refl guarded) c.nesting.quiet_unclosed

theorem keeps_returnValue : (modify ({ · with consume := .ret })).Keeps g := by
  intro c guarded
  refine does_modify ⟨guarded.reframe rfl rfl ?_ guarded.plain,
    (Session.Untouched.refl _).reworks, rfl, Guard.loose⟩
  simp [targets, Consume.target?]

/-- Most tokens edit the current method behind the code that stands. -/
theorem does_dispatch (guarded : c.Guarded g) (stays : token.stays = true) {retract : Option TypeId}
    (inside : token.isEnd = false → c.frames ≠ [] → g.outer.length < c.frames.length)
    (beyond : ∀ op, token = .operator op → retract.isSome = true → Beyond g.keep c) :
    (dispatch token retract).Does c fun _ later => c.Leaves g later := by
  have keeps {action : Compile Unit} (keeps : action.Keeps g) :
      action.Does c fun _ later => c.Leaves g later :=
    (keeps c guarded).imp fun _ _ works => works.leaves
  have skips {change : Compiler → Compiler} (same : ∀ c, (change c).site = c.site) :
      (modify change).Does c fun _ later => c.Leaves g later :=
    keeps (keeps_skip same)
  have declares (token : Token) : (declaration token).Does c fun _ later => c.Leaves g later :=
    keeps (always_declaration token).keeps
  cases token with
  | newLine | directive | new => exact skips fun _ => rfl
  | enterNamespace | usingNamespace | includeModule | importLibrary =>
    rw [dispatch]
    exact declares _
  | var name typeName isFinal => exact keeps (keeps_declareVar name typeName isFinal)
  | block isOpen =>
    cases isOpen with
    | true => exact keeps keeps_openBlock
    | false => cases stays
  | statement isOpen =>
    cases isOpen with
    | true => exact keeps keeps_openStatement
    | false => exact does_closeStatement guarded (inside rfl)
  | sequence isOpen =>
    cases isOpen with
    | true => exact keeps keeps_openSequence
    | false => exact (does_closeSequence guarded (inside rfl)).imp fun _ _ works => works.leaves
  | separator kind =>
    cases kind with
    | member => exact keeps keeps_memberSeparator
    | statement => exact (does_separate guarded (inside rfl)).imp fun _ _ works => works.leaves
  | literal text => exact keeps (keeps_literal text)
  | operator op =>
    exact (does_operator guarded op (beyond op rfl)).imp fun _ _ works => works.leaves
  | value content => exact keeps (keeps_value content)
  | breakpoint =>
    have emits : (emit (·.emit .breakpoint)).Keeps g :=
      keeps_emit fun method le => MethodDraft.edits_emit_plain le rfl
    exact keeps (emits.bind fun _ => keeps_skip fun _ => rfl)
  | extendsClause => exact keeps (keeps_checkClosed.bind fun _ => keeps_skip fun _ => rfl)
  | implementsClause => exact keeps (keeps_checkClosed.bind fun _ => keeps_skip fun _ => rfl)
  | returnValue => exact keeps keeps_returnValue
  | actual | async | parameterType | reserved => exact keeps (keeps_pure ())
  | classOpen | function | expressionEnd | label | goto => cases stays

/-- The step on a token that leaves the current method the current one. -/
theorem does_step_stays (guarded : c.Guarded g)
    (beyond : c.retractable.isSome = true → Beyond g.keep c) (stays : token.stays = true)
    (inside : token.isEnd = false → c.frames ≠ [] → g.outer.length < c.frames.length) :
    (step token).Does c fun _ later => c.taken.Leaves g later := by
  rw [step_eq]
  refine (does_awaited guarded token).bind ?_
  rintro rest later ⟨works, untouched, same⟩
  cases rest with
  | none => exact does_pure works.leaves
  | some retract =>
    obtain rfl := same retract rfl
    refine (does_dispatch works.guarded stays (fun notEnd => ?_) ?_).imp fun _ _ => works.trans_leaves
    · rw [(untouched notEnd).frames]
      exact inside notEnd
    rintro op rfl isSome method current
    exact beyond isSome method ((untouched rfl).session.current ▸ current)

theorem does_step_opens (opens : token.opens = true) :
    (step token).Does c fun _ later => c.taken.Alters Session.Opens later := by
  have notEnd : token.isEnd = false := by
    cases token with
    | classOpen | function => rfl
    | _ => cases opens
  rw [step_eq]
  refine (does_awaited (g := { keep := 0 }) (guarded_zero c) token).bind ?_
  rintro rest later ⟨-, untouched, -⟩
  have toLater := untouched notEnd
  cases rest with
  | none => exact does_pure (toLater.imp Session.Untouched.opens)
  | some retract =>
    have joins {last : Compiler} (opens : later.Alters Session.Opens last) : c.taken.Alters
        Session.Opens last :=
      toLater.trans opens Session.Untouched.trans_opens
    cases token with
    | classOpen name kind visibility =>
      exact (does_declareType name kind visibility).imp fun _ _ => joins
    | function name returnType kind visibility =>
      exact (does_openFunction name returnType kind visibility).imp fun _ _ => joins
    | _ => cases opens

/-- A label or a branch is noted in the current method, unless a list of interfaces uses it up. -/
theorem does_step_mark (isMark : token.isMark = true) : (step token).Does c fun _ later =>
    if c.interfaces.isSome then c.taken.Untouched later else c.taken.Alters
    (Session.Notes token.note) later := by
  rw [step_eq]
  refine (does_awaited_foreign (Token.isForeign_of_isMark isMark)).bind ?_
  rintro _ later ⟨⟨needEnd, pending, same⟩, rfl⟩
  have untouched : c.taken.Untouched later := untouched_of_site_eq (by rw [same]; rfl)
  by_cases reading : c.interfaces.isSome = true
  · simp only [if_pos reading]
    exact does_pure untouched
  simp only [if_neg reading]
  have notes {work : MethodDraft → Except Failure (Unit × MethodDraft)}
      (notes : ∀ method, work method = .ok ((), token.note method) ∨
        token.note method = method ∧ ∃ problem : Problem, problem.isUndefinedLabel = false ∧
          work method = .error (.problem problem)) :
      (emitting (fun _ => work) >>= fun _ => pure ()).Does later fun _ last =>
        c.taken.Alters (Session.Notes token.note) last :=
    (does_note notes).bind fun _ last noted =>
      does_pure (untouched.trans noted fun first second => first.trans_notes second)
  cases token with
  | label name =>
    refine notes fun method => ?_
    cases label : method.labels.lookup name with
    | none =>
      rw [MethodDraft.label, label, Token.note, label]
      exact .inl rfl
    | some place =>
      rw [MethodDraft.label, label, Token.note, label]
      exact .inr ⟨rfl, .duplicateLabel name, rfl, rfl⟩
  | goto name => exact notes fun method => .inl rfl
  | _ => cases isMark

end Compile

/-! ## Closing -/

/-- The expression under way is ended behind the code that stands, and then methods are finished.
What is known of methods and bodies may depend on the state in between. -/
def Compiler.Closes (g : Guard) (ending : Compiler → Ending) (c later : Compiler)
    (problems : List Problem) : Prop :=
  ∃ mid finished, c.Works g mid ∧
    mid.Alters (fun session last => (ending mid).Ends session last finished problems) later

variable {ending : Ending}

theorem Ending.Ends.slots_perm {session later : Session} {finished : List MethodBody}
    {problems : List Problem} (ends : ending.Ends session later finished problems) :
    later.slots.Perm session.slots := by
  refine later.slots_perm.trans (.trans ?_ session.slots_perm.symm)
  have bodies := (ends.bodies.map (·.slot)).append_right (later.openMethods.map (·.slot))
  rw [map_append, append_assoc] at bodies
  exact bodies.trans (ends.slots.append_left _)

theorem Ending.Ends.after_quiet {session later : Session} {finished : List MethodBody}
    {problems quiet : List Problem} (ends : ending.Ends session later finished problems)
    (areQuiet : ∀ problem ∈ quiet, problem.isUndefinedLabel = false) :
    ending.Ends session later finished (quiet ++ problems) :=
  { ends with
    problems := by
      rw [undefinedIn_append, undefinedIn_eq_nil.mpr areQuiet, nil_append, ends.problems] }

/-- A safe action finds no branch missing. -/
theorem Ensures.resolves {α : Type} {outcome : Except Fault α} {p q : α → Prop}
    (ensures : Ensures outcome p) (gives : Gives outcome q) :
    Resolves outcome fun a => p a ∧ q a := by
  cases outcome with
  | ok a => exact ⟨ensures, gives⟩
  | error fault =>
    obtain rfl : fault = .noSuchFinal := ensures
    exact nofun

namespace Compile

variable {α : Type} {g : Guard} {ending : Compiler → Ending} {start c : Compiler}

theorem resolves_bind_run {β : Type} {action : Compile α} {next : α → Compile β}
    {post : β × Compiler × List Problem → Prop} :
    Resolves ((action >>= next) c) post ↔
      Resolves (action c) fun (a, later, problems) =>
        Resolves (next a later) fun (b, last, more) => post (b, last, problems ++ more) := by
  simp only [Bind.bind]
  rcases action c with fault | ⟨a, later, problems⟩
  · rfl
  · simp only [resolves_ok]
    rcases next a later with fault | ⟨b, last, more⟩ <;> rfl

section Rules

variable {post : Unit × Compiler × List Problem → Prop}

theorem resolves_get_bind {next : Compiler → Compile Unit} :
    Resolves ((get >>= next) c) post ↔ Resolves (next c c) post :=
  resolves_bind_run

theorem resolves_modify_bind {change : Compiler → Compiler} {next : Unit → Compile Unit} :
    Resolves ((modify change >>= next) c) post ↔ Resolves (next () (change c)) post :=
  resolves_bind_run

theorem resolves_lift_bind {outcome : Except Fault α} {p : α → Prop} {next : α → Compile Unit}
    (resolves : Resolves outcome p) (rest : ∀ a, p a → Resolves (next a c) post) :
    Resolves ((liftM outcome >>= next : Compile Unit) c) post := by
  cases outcome with
  | ok a => exact resolves_bind_run.mpr (rest a resolves)
  | error fault => exact resolves

end Rules

theorem Does.resolves_bind {held : α → List Symbol} {action : Compile α} {next : α → Compile Unit}
    {mid : α → Compiler → Prop} (does : action.Does c mid) (safe : action.Safe c held)
    (rest : ∀ a later, mid a later → later.Sound → Resolves (next a later) fun (_, last, problems) =>
      start.Closes g ending last problems) :
    Resolves ((action >>= next) c) fun (_, last, problems) => start.Closes g ending last problems := by
  refine resolves_bind_run.mpr ((Ensures.resolves safe does).imp ?_)
  rintro ⟨a, later, problems⟩ ⟨⟨evolves, -⟩, here, quiet⟩
  refine (rest a later here evolves.sound).imp ?_
  rintro ⟨-, last, more⟩ ⟨between, finished, works, alters⟩
  exact ⟨between, finished, works, alters.imp fun ends => ends.after_quiet quiet⟩

section Ends

variable (all : ∀ mid, start.Works g mid → ∀ method ∈ mid.session.openMethods,
  (ending mid).method method)

include all

theorem closes_self (works : start.Works g c) {problems : List Problem}
    (quiet : ∀ problem ∈ problems, problem.isUndefinedLabel = false) :
    start.Closes g ending c problems := by
  have ends := (Ending.Ends.refl (all c works)).after_quiet quiet
  rw [append_nil] at ends
  exact ⟨c, [], works, ends, rfl, rfl, List.Subset.refl _, rfl⟩

theorem resolves_closing (works : start.Works g c)
    {work : Session → Except Fault (Session × List Problem)}
    (closes : (∀ method ∈ c.session.openMethods, (ending c).method method) →
      Resolves (work c.session) fun (later, problems) =>
        ∃ finished, (ending c).Ends c.session later finished problems) :
    Resolves (closing work c) fun (_, later, problems) => start.Closes g ending later problems := by
  rw [closing, resolves_get_bind]
  refine resolves_lift_bind (closes (all c works)) ?_
  rintro ⟨session, problems⟩ ⟨finished, ends⟩
  rw [resolves_modify_bind]
  exact ⟨c, finished, works, ends, rfl, rfl, List.Subset.refl _, rfl⟩

theorem resolves_closeOwner (works : start.Works g c) (owner : Option BlockOwner) :
    Resolves (closeOwner owner c) fun (_, later, problems) =>
      start.Closes g ending later problems := by
  unfold closeOwner
  rw [resolves_get_bind]
  dsimp only
  split
  · exact resolves_closing all works fun methods => Ending.resolves_closeType methods c.usings
  · exact resolves_closing all works fun methods => Ending.resolves_closeCurrent methods
  · exact closes_self all works (forall_mem_nil _)
  · exact closes_self all works (forall_mem_nil _)

theorem resolves_closeBlock [g.Loose] (sound : c.Sound) (works : start.Works g c) :
    Resolves (closeBlock c) fun (_, later, problems) => start.Closes g ending later problems := by
  rw [closeBlock]
  refine (keeps_endExpression.does works).resolves_bind (safe_endExpression sound)
    fun _ ended toEnded isSound => ?_
  rw [resolves_get_bind]
  split
  · exact closes_self all toEnded (forall_mem_singleton.mpr rfl)
  · rw [resolves_modify_bind]
    have counted : start.Works g
        { ended with
          nesting := { ended.nesting with blocks := ended.nesting.blocks - 1 }
          blocks := ended.blocks.tail } :=
      toEnded.trans (works_of_site_eq toEnded.guarded rfl Guard.loose)
    exact resolves_closeOwner all counted ended.blocks.head?

theorem resolves_expressionEnd (sound : c.Sound) (works : start.Works g c) :
    Resolves (expressionEnd c) fun (_, later, problems) => start.Closes g ending later problems := by
  rw [expressionEnd]
  refine (keeps_endExpression.does works).resolves_bind (safe_endExpression sound)
    fun _ ended toEnded isSound => ?_
  rw [resolves_get_bind]
  refine resolves_lift_bind (p := fun _ => True) ?_ fun found _ => ?_
  · rw [Session.currentType?, resolves_bind]
    exact ended.session.resolves_current.imp fun _ _ => trivial
  cases found with
  | none => exact closes_self all toEnded (forall_mem_nil _)
  | some type =>
    dsimp only
    split
    · exact resolves_closing all toEnded fun methods => Ending.resolves_closeType methods ended.usings
    · split
      · exact resolves_closing all toEnded fun methods => Ending.resolves_closeCurrent methods
      · exact closes_self all toEnded (forall_mem_nil _)

end Ends

theorem resolves_step [g.Loose] {token : Token} (sound : c.Sound) (guarded : c.Guarded g)
    (all : ∀ mid, c.taken.Works g mid → ∀ method ∈ mid.session.openMethods, (ending mid).method method)
    (closes : token.closes = true) :
    Resolves (step token c) fun (_, later, problems) => c.taken.Closes g ending later problems := by
  rw [step_eq]
  refine (does_awaited guarded token).resolves_bind (safe_awaited sound token) ?_
  rintro rest later ⟨works, -, -⟩ isSound
  cases rest with
  | none => exact closes_self all works (forall_mem_nil _)
  | some retract =>
    cases token with
    | block isOpen =>
      cases isOpen with
      | true => cases closes
      | false => exact resolves_closeBlock all isSound works
    | expressionEnd => exact resolves_expressionEnd all isSound works
    | _ => cases closes

/-! ## The end of the tokens -/

theorem does_report_if {b : Prop} [Decidable b] {problem : Problem} {next : Compile α}
    {post : α → Compiler → Prop} (quiet : problem.isUndefinedLabel = false)
    (rest : next.Does c post) : (if b then report problem >>= fun _ => next else next).Does
      c post := by
  split
  · exact does_report_bind quiet rest
  · exact rest

theorem does_reportUnended : (reportUnended c.session).Does c fun _ later => later = c := by
  refine does_lift_bind (gives_self _) fun found _ => ?_
  cases found with
  | none => exact does_pure rfl
  | some type =>
    dsimp only
    split
    · exact does_lift_bind (gives_self _) fun _ _ => does_report rfl rfl
    · exact does_pure rfl

/-- What is unfinished after the last token is no matter of labels. -/
theorem does_checkTermination : checkTermination.Does c fun _ later => later = c := by
  have unclosed : (reportAll c.nesting.unclosed).Does c fun _ later => later = c :=
    does_reportAll rfl c.nesting.quiet_unclosed
  rw [checkTermination]
  refine does_get_bind (unclosed.bind ?_)
  rintro _ c rfl
  rw [reportWaiting]
  refine does_report_if rfl (does_report_if rfl ?_)
  cases c.consume with
  | normal => exact does_report_if rfl (does_report_if rfl does_reportUnended)
  | assign target =>
    exact does_report_bind rfl (does_report_if rfl (does_report_if rfl does_reportUnended))
  | ret => exact does_report_bind rfl (does_report_if rfl (does_report_if rfl does_reportUnended))

end Compile

theorem Build.resolves_finish {build : Build} (sound : build.compiler.Sound)
    (accounted : build.compiler.session.Accounted)
    (returns : ∀ method, ending.method method → ending.method (method.emit .ret))
    (all : ∀ method ∈ build.compiler.session.openMethods, ending.method method) :
    Resolves build.finish fun result => ∃ problems finished,
      result.diagnostics = build.diagnostics ++ problems.map (·.at build.line) ∧
        result.compiled.bodies.Perm (build.compiler.session.bodies ++ finished) ∧
        (finished.map (·.slot)).Perm (build.compiler.session.openMethods.map (·.slot)) ∧
        (∀ body ∈ finished, ending.body body) ∧
        undefinedIn problems = finished.flatMap fun body => ending.lost body.slot := by
  rw [finish, resolves_bind]
  refine (Ensures.resolves (Compile.safe_checkTermination sound)
    Compile.does_checkTermination).imp ?_
  rintro ⟨_, _, waiting⟩ ⟨-, rfl, quiet⟩
  rw [resolves_bind]
  refine (Ending.resolves_finishSession accounted returns all _).imp ?_
  rintro ⟨compiled, problems⟩ ⟨finished, bodies, slots, areBodies, lost⟩
  refine ⟨waiting ++ problems, finished, rfl, bodies, slots, areBodies, ?_⟩
  rw [undefinedIn_append, undefinedIn_eq_nil.mpr quiet, nil_append, lost]

end OnePass
