import OnePass.Proofs.Finals.Target

/-! # Expressions store what they are asked to

While an expression is read, the state remembers positions in the code of the current method and
targets in it. `Compiler.Grounded` says that these belong to the current method. An action that
emits code without stores is calm (`Compiler.Calm`): it keeps the ledger, the current method and
what it is grounded in. The two actions that store are `store` and `stepName`. -/

namespace OnePass

open MethodDraft List

/-! ## States -/

/-- The current method. -/
def Session.currentSlot? (session : Session) : Option MethodSlot :=
  match session.currentMethod? with
  | .ok (some method) => some method.slot
  | _ => none

namespace Compiler

variable {c later last : Compiler} {extra more : List Stored}

/-- What the state remembers about the expression under way belongs to a method, whose locals can be
numbered. -/
structure SitsIn (c : Compiler) (method : MethodDraft) : Prop where
  small : method.locals.length ≤ 65536
  stacked : Stacked method.position c.kinds
  fits : ∀ target ∈ c.targets, target.Fits method

/-- What the state remembers about the expression under way belongs to the current method. -/
def Grounded (c : Compiler) : Prop := ∀ method, c.session.currentMethod? = .ok (some method) →
      c.SitsIn method

theorem SitsIn.stacked_cons {method : MethodDraft} (sits : c.SitsIn method) {frame : Frame}
    {rest : List Frame} (frames : c.frames = frame :: rest) :
    Stacked method.position (frame.kind :: rest.map (·.kind)) := by
  have stacked := sits.stacked
  rwa [kinds, frames] at stacked

/-- A target belongs to the current method. -/
def Suits (c : Compiler) (target : AssignTarget) : Prop :=
  ∀ method, c.session.currentMethod? = .ok (some method) → target.Fits method

/-- The current method is the same and what is remembered belongs to it. Some stores are booked. -/
structure Follows (extra : List Stored) (c later : Compiler) : Prop where
  grounded : later.Grounded
  keeps : c.session.Keeps extra later.session
  slot : later.session.currentSlot? = c.session.currentSlot?
  suits : ∀ target, c.Suits target → later.Suits target

theorem Follows.trans (first : c.Follows extra later) (second : later.Follows more last) :
    c.Follows (extra ++ more) last where
  grounded := second.grounded
  keeps := first.keeps.trans second.keeps
  slot := second.slot.trans first.slot
  suits target suits := second.suits target (first.suits target suits)

/-- No store is booked, and no assignment begins. -/
structure Calm (c later : Compiler) : Prop extends c.Follows [] later where
  consume : ∀ target, later.consume.target? = some target → c.consume.target? = some target

theorem Calm.refl (grounded : c.Grounded) : c.Calm c :=
  ⟨⟨grounded, refl_of _ _, rfl, fun _ suits => suits⟩, fun _ same => same⟩

theorem Calm.trans (first : c.Calm later) (second : later.Calm last) : c.Calm last :=
  ⟨first.toFollows.trans second.toFollows, fun target same =>
    first.consume target (second.consume target same)⟩

/-- What is grounded stays so, calmly. -/
def Steady (c later : Compiler) : Prop := c.Grounded → c.Calm later

instance : IsPreorder Compiler Steady where
  refl _ := Calm.refl
  trans _ _ _ first second grounded := (first grounded).trans (second (first grounded).grounded)

theorem steady_of_session_eq (session : later.session = c.session) (kinds : later.kinds = c.kinds)
    (consume : ∀ target, later.consume.target? = some target → c.consume.target? = some target)
    (lastDeclared : ∀ target, later.lastDeclared = some target → c.lastDeclared = some target) :
    c.Steady later := by
  refine fun grounded => ⟨⟨fun method current => ?_, session ▸ refl_of _ _, session ▸ rfl, ?_⟩,
    consume⟩
  · rw [session] at current
    have sits := grounded method current
    refine ⟨sits.small, kinds ▸ sits.stacked, fun target here => sits.fits target ?_⟩
    simp only [targets, mem_append, Option.mem_toList] at here ⊢
    exact here.imp (consume target) (lastDeclared target)
  · intro target suits
    rwa [Suits, session]

/-- The part of a state that these facts are about. -/
def grounds (c : Compiler) : Session × List FrameKind × Consume × Option AssignTarget :=
  (c.session, c.kinds, c.consume, c.lastDeclared)

theorem steady_of_grounds_eq (same : later.grounds = c.grounds) : c.Steady later := by
  obtain ⟨session, kinds, consume, lastDeclared⟩ : later.session = c.session ∧
      later.kinds = c.kinds ∧ later.consume = c.consume ∧
        later.lastDeclared = c.lastDeclared := by simpa [grounds] using same
  exact steady_of_session_eq session kinds (fun _ => consume ▸ id) fun _ => lastDeclared ▸ id

theorem grounds_modifyFrame {change : Frame → Frame}
    (same : ∀ frame, (change frame).kind = frame.kind) (c : Compiler) :
    (c.modifyFrame change).grounds = c.grounds := by
  unfold modifyFrame
  split
  · rfl
  · rename_i frame rest frames
    simp [grounds, kinds, frames, same]

theorem follows_setMethod (grounded : c.Grounded) {method changed : MethodDraft}
    (current : c.session.currentMethod? = .ok (some method))
    (evolves : method.Evolves extra changed) (small : changed.locals.length ≤ 65536)
    (stacked : Stacked changed.position c.kinds)
    (fits : ∀ target : AssignTarget, target.Fits method → target.Fits changed) :
    Gives (c.session.setMethod changed) fun session =>
      c.Follows extra { c with session := session } := by
  refine (Session.gives_replaces current evolves.slot).imp fun session replaces => ?_
  -- The changed method is the current one, so it is the one that the later state must be grounded
  -- in.
  have same {other : MethodDraft} (isCurrent : session.currentMethod? = .ok (some other)) :
      changed = other := by
    simpa using replaces.current.symm.trans isCurrent
  refine ⟨fun other isCurrent => ?_, replaces.keeps evolves, ?_,
    fun target suits other isCurrent => ?_⟩
  · obtain rfl := same isCurrent
    exact ⟨small, stacked, fun target here => fits target ((grounded method current).fits target here)⟩
  · simp only [Session.currentSlot?, current, replaces.current, evolves.slot]
  · obtain rfl := same isCurrent
    exact fits target (suits method current)

theorem calm_setMethod (grounded : c.Grounded) {method changed : MethodDraft}
    (current : c.session.currentMethod? = .ok (some method)) (slot : changed.slot = method.slot)
    (locals : changed.locals = method.locals)
    (stores : (storesIn changed.code).Subperm (storesIn method.code))
    (stacked : Stacked changed.position c.kinds) :
    Gives (c.session.setMethod changed) fun session => c.Calm { c with session := session } := by
  have small : changed.locals.length ≤ 65536 := locals ▸ (grounded method current).small
  refine (follows_setMethod grounded current (.of_locals_eq slot locals stores) small stacked
    fun target fits => ?_).imp fun session follows => ⟨follows, fun _ same => same⟩
  cases target with
  | field ref => trivial
  | var var => simpa only [AssignTarget.Fits, MethodDraft.Limits, locals] using fits

end Compiler

/-! ## Actions -/

namespace Compile

variable {α β : Type} {c : Compiler} {extra : List Stored} {action : Compile α}
variable {work : SymbolTable → MethodDraft → Except Failure (α × MethodDraft)}

abbrev Steady (action : Compile α) : Prop := action.Within Compiler.Steady

theorem within_steady (each : ∀ c, c.Grounded → action.Leads c fun _ later => c.Calm later) :
    action.Steady :=
  fun c => gives_iff.mpr fun _ ran grounded => (each c grounded).of_ok ran

theorem Within.calm (steady : action.Steady) (grounded : c.Grounded) :
    action.Leads c fun _ later => c.Calm later :=
  (steady c).imp fun _ _ calm => calm grounded

theorem Within.trans_calm {next : Compiler} (steady : action.Steady)
    (toNext : c.Calm next) : action.Leads next fun _ later => c.Calm later :=
  (steady.calm toNext.grounded).imp fun _ _ toLater => toNext.trans toLater

theorem steady_modify {change : Compiler → Compiler} (same : ∀ c, (change c).grounds = c.grounds) :
    (modify change).Steady :=
  within_modify fun c => Compiler.steady_of_grounds_eq (same c)

theorem steady_modifyFrame {change : Frame → Frame}
    (same : ∀ frame, (change frame).kind = frame.kind) : (modify (·.modifyFrame change)).Steady :=
  steady_modify (Compiler.grounds_modifyFrame same)

theorem leads_emitting {post : Emitted α → Compiler → Prop} (outside : post .outside c)
    (refused : post .refused c) (done : ∀ method, c.session.currentMethod? = .ok (some method) →
      Gives (work c.session.table method) fun (a, changed) =>
        Gives (c.session.setMethod changed) fun session => post (.done a) { c with session := session }) :
    (emitting work).Leads c post := by
  rw [emitting, leads_get_bind]
  refine leads_lift_ok fun found current => ?_
  cases found with
  | none =>
    rw [leads_bind, leads_report, leads_pure]
    exact outside
  | some method =>
    rw [leads_bind]
    refine leads_attempt ((done method current).imp ?_) (leads_pure.mpr refused)
    rintro ⟨a, changed⟩ sets
    rw [leads_lift_bind]
    refine sets.imp fun session after => ?_
    rw [leads_modify_bind, leads_pure]
    exact after

theorem follows_emitting (grounded : c.Grounded)
    (works : ∀ method, c.session.currentMethod? = .ok (some method) →
      Gives (work c.session.table method) fun (_, changed) => method.Grows extra changed) :
    (emitting work).Leads c fun emitted later =>
      (∃ a, emitted = .done a ∧ c.Follows extra later ∧ later.consume = c.consume) ∨
        (emitted = .outside ∨ emitted = .refused) ∧ later = c := by
  refine leads_emitting (.inr ⟨.inl rfl, rfl⟩) (.inr ⟨.inr rfl, rfl⟩) fun method current => ?_
  have sits := grounded method current
  refine (works method current).imp fun (a, changed) grows => ?_
  -- There are as many locals as before, and the same ones are final.
  have length : changed.locals.length = method.locals.length := by
    simpa using congrArg List.length grows.finality
  have fits (target : AssignTarget) (fits : target.Fits method) : target.Fits changed := by
    cases target with
    | field ref => trivial
    | var var =>
      exact fun index isMutable limits =>
        fits index isMutable ((limits_iff_of_finality grows.finality index).mp limits)
  have follows := Compiler.follows_setMethod grounded current grows.toEvolves (length ▸ sits.small)
    (sits.stacked.mono grows.longer) fits
  exact follows.imp fun session after => .inl ⟨a, rfl, after, rfl⟩

theorem steady_emitting
    (works : ∀ table method, Gives (work table method) fun (_, changed) => method.Grows [] changed) :
    (emitting work).Steady := by
  intro c
  refine gives_iff.mpr fun (emitted, later, _) ran grounded => ?_
  rcases (follows_emitting grounded fun method _ => works _ method).of_ok ran with
    ⟨a, -, follows, consume⟩ | ⟨-, rfl⟩
  · exact ⟨follows, fun target => consume ▸ id⟩
  · exact .refl grounded

theorem steady_emit {work : MethodDraft → MethodDraft}
    (works : ∀ method : MethodDraft, method.Grows [] (work method)) : (emit work).Steady :=
  Within.bind (steady_emitting fun _ method => gives_ok.mpr (works method)) fun _ => within_pure ()

/-! ### Operands -/

theorem steady_takePending : takePending.Steady :=
  within_get.bind fun _ => Within.bind (steady_modifyFrame fun _ => rfl) fun _ => within_pure _

theorem steady_pushOperand (type : Option TypeId) : (pushOperand type).Steady := by
  rw [pushOperand]
  refine steady_takePending.bind fun pending => ?_
  obtain ⟨neg, not, plan⟩ := pending
  have noted (result : Option TypeId) : (do
      let result ← pure result
      modify (·.modifyFrame fun frame =>
        { frame with
          depth := if plan.isNone || frame.depth == 0 then frame.depth + 1 else frame.depth
          operand := result }) : Compile Unit).Steady :=
    (within_pure result).bind fun _ => steady_modifyFrame fun _ => rfl
  dsimp only
  split
  · have applies : (emitting fun table method =>
        .ok (applyPending neg not plan type table method)).Steady :=
      steady_emitting fun table method => grows_applyPending neg not plan type table method
    refine applies.bind fun emitted => ?_
    cases emitted with
    | done result => exact noted result
    | refused | outside => exact noted none
  · exact noted type

theorem steady_failOperand : failOperand.Steady := steady_modifyFrame fun _ => rfl

theorem steady_takeName : takeName.Steady :=
  within_get.bind fun _ => Within.bind (steady_modify fun _ => rfl) fun _ => within_pure _

theorem steady_resolveHere (segments : List String) : (resolveHere segments).Steady :=
  within_get.bind fun _ => within_lift _

theorem steady_flushReference : flushReference.Steady := by
  rw [flushReference]
  refine within_get.bind fun c => ?_
  split
  · exact within_pure ()
  refine steady_takeName.bind fun segments => within_get.bind fun named => ?_
  split
  · exact within_pure ()
  refine (steady_resolveHere segments).bind fun reference => ?_
  refine (steady_emitting fun table method => method.grows_loadReference table reference).bind
    fun emitted => ?_
  cases emitted with
  | done type => exact steady_pushOperand (some type)
  | refused | outside => exact steady_failOperand

theorem steady_value (literal : Literal) : (value literal).Steady := by
  rw [value]
  refine steady_flushReference.bind fun _ => within_get.bind fun flushed => ?_
  split
  · exact within_pure ()
  have loads : (emitting fun table method => .ok (method.loadConstant table literal)).Steady :=
    steady_emitting fun table method => method.grows_loadConstant table literal
  refine loads.bind fun emitted => ?_
  cases emitted with
  | done type => exact steady_pushOperand (some type)
  | refused | outside => exact within_pure ()

theorem steady_binary (op : Operator) : (binary op).Steady := by
  rw [binary]
  refine steady_flushReference.bind fun _ => within_get.bind fun flushed => ?_
  dsimp only
  split
  · exact within_report _
  split
  · exact within_report _
  refine (within_attempt _).bind fun plan => ?_
  cases plan with
  | none => exact within_pure ()
  | some plan => exact steady_modifyFrame fun _ => rfl

theorem leads_calm_bind {changed : MethodDraft} {next : Compile Unit}
    (sets : Gives (c.session.setMethod changed) fun session => c.Calm { c with session := session })
    (follows : next.Steady) :
    (do
      let session ← (c.session.setMethod changed : Except Fault Session)
      modify ({ · with session := session })
      next : Compile Unit).Leads c fun _ later => c.Calm later := by
  rw [leads_lift_bind]
  refine sets.imp fun session calm => ?_
  rw [leads_modify_bind]
  exact follows.trans_calm calm

/-- The instruction that drops a result is removed. Outside of brackets no position is
remembered. -/
theorem steady_retractDiscard (type : TypeId) : (retractDiscard type).Steady := by
  refine within_steady fun c grounded => ?_
  rw [retractDiscard, leads_get_bind]
  split
  · exact leads_pure.mpr (.refl grounded)
  rename_i hasFrames
  have noKinds : c.kinds = [] := by simpa [Compiler.kinds] using hasFrames
  refine leads_lift_ok fun found current => ?_
  cases found with
  | none => exact leads_pure.mpr (.refl grounded)
  | some method =>
    dsimp only
    split
    · refine leads_calm_bind (Compiler.calm_setMethod grounded current rfl rfl ?_ ?_)
        (steady_modify fun _ => rfl)
      · exact (storesIn_sublist (dropLast_sublist _)).subperm
      · rw [noKinds]
        trivial
    · exact leads_pure.mpr (.refl grounded)

/-! ### Assignments -/

theorem leads_resolveHere (segments : List String) :
    (resolveHere segments).Leads c fun reference later =>
    later = c ∧ c.session.resolveReference segments c.usings = .ok reference := by
  rw [resolveHere, leads_get_bind, leads_lift]
  exact gives_iff.mpr fun reference resolved => ⟨rfl, resolved⟩

end Compile

namespace Compiler

variable {c : Compiler} {target : AssignTarget}

theorem suits_field (c : Compiler) (ref : MemberRef) : c.Suits (.field ref) := fun _ _ => trivial

theorem Grounded.suits (grounded : c.Grounded) {segments : List String} {reference : Reference}
    (resolved : c.session.resolveReference segments c.usings = .ok reference)
    (isTarget : reference.target? = some target) : c.Suits target := by
  cases reference with
  | constant value => cases isTarget
  | missing name => cases isTarget
  | field receiver ref =>
    cases isTarget
    exact c.suits_field ref
  | var var =>
    cases isTarget
    intro method current
    obtain ⟨name, found⟩ := (c.session.means_resolveReference _ _).of_ok resolved method current
    exact fits_of_get? (grounded method current).small found

theorem Grounded.suits_lastDeclared (grounded : c.Grounded)
    (declared : c.lastDeclared = some target) : c.Suits target := by
  intro method current
  refine (grounded method current).fits target ?_
  simp [targets, declared]

theorem steady_forgetDeclared (c : Compiler) : c.Steady { c with lastDeclared := none } :=
  steady_of_session_eq rfl rfl (fun _ same => same) fun _ same => nomatch same

theorem calm_noteDeclared (grounded : c.Grounded) (suits : c.Suits target) :
    c.Calm { c with lastDeclared := some target } := by
  refine ⟨⟨fun method current => ?_, refl_of _ _, rfl, fun _ suits => suits⟩, fun _ same => same⟩
  have sits := grounded method current
  refine ⟨sits.small, sits.stacked, fun held here => ?_⟩
  simp only [targets, mem_append, Option.mem_toList, Option.some.injEq] at here
  rcases here with isTarget | rfl
  · exact sits.fits held (by simp [targets, isTarget])
  · exact suits method current

theorem follows_assign (grounded : c.Grounded) {target : Option AssignTarget}
    (suits : ∀ held, target = some held → c.Suits held) :
    c.Follows [] { c with consume := .assign target } := by
  refine ⟨fun method current => ?_, refl_of _ _, rfl, fun _ suits => suits⟩
  have sits := grounded method current
  refine ⟨sits.small, sits.stacked, fun held here => ?_⟩
  simp only [targets, Consume.target?, mem_append, Option.mem_toList] at here
  rcases here with isTarget | isDeclared
  · exact suits held isTarget method current
  · exact sits.fits held (by simp [targets, isDeclared])

end Compiler

namespace Compile

variable {c : Compiler}

theorem steady_loadReceiver (receiver : Receiver) :
    (emitting fun table method => method.loadReceiver table receiver).Steady := by
  refine steady_emitting fun table method => ?_
  rw [gives_lift_fault]
  exact method.grows_loadReceiver table receiver

theorem leads_takeTarget (grounded : c.Grounded) : takeTarget.Leads c fun target later =>
    c.Calm later ∧ ∀ held, target = some held → later.Suits held := by
  rw [takeTarget, leads_get_bind]
  split
  · rw [leads_modify_bind]
    have outcome : c.Calm { c with lastDeclared := none } ∧
        ∀ held, c.lastDeclared = some held → { c with lastDeclared := none }.Suits held :=
      ⟨c.steady_forgetDeclared grounded, fun held declared => grounded.suits_lastDeclared declared⟩
    dsimp only
    split
    · rw [leads_bind, leads_report, leads_pure]
      exact outcome
    · exact leads_pure.mpr outcome
  rw [leads_bind]
  refine (steady_takeName.calm grounded).imp fun segments named toNamed => ?_
  rw [leads_bind]
  refine (leads_resolveHere segments).imp ?_
  rintro reference here ⟨same, resolved⟩
  subst same
  cases reference with
  | var var =>
    refine leads_pure.mpr ⟨toNamed, fun held same => ?_⟩
    cases same
    exact toNamed.grounded.suits resolved rfl
  | field receiver ref =>
    have isField (later : Compiler) (held : AssignTarget) (same : some (AssignTarget.field ref) =
        some held) : later.Suits held := by
      cases same
      exact later.suits_field ref
    cases receiver with
    | none => exact leads_pure.mpr ⟨toNamed, isField here⟩
    | some receiver =>
      dsimp only
      rw [leads_bind]
      refine ((steady_loadReceiver receiver).calm toNamed.grounded).imp fun _ later toLater => ?_
      exact leads_pure.mpr ⟨toNamed.trans toLater, isField later⟩
  | constant value =>
    rw [leads_bind, leads_report, leads_pure]
    exact ⟨toNamed, by simp⟩
  | missing name =>
    rw [leads_bind, leads_report, leads_pure]
    exact ⟨toNamed, by simp⟩

theorem leads_compoundAssign (grounded : c.Grounded) (op : Operator) :
    (compoundAssign op).Leads c fun _ later => c.Follows [] later := by
  rw [compoundAssign, leads_bind]
  refine (leads_takeTarget grounded).imp ?_
  rintro target taken ⟨toTaken, suits⟩
  have assigns {next : Compiler} (toNext : taken.Calm next) :
      (modify ({ · with consume := .assign target })).Leads next fun _ later => c.Follows [] later := by
    have suitsNext (held : AssignTarget) (same : target = some held) : next.Suits held :=
      toNext.suits held (suits held same)
    exact leads_modify.mpr ((toTaken.trans toNext).toFollows.trans
      (Compiler.follows_assign toNext.grounded suitsNext))
  cases target with
  | none => exact assigns (.refl toTaken.grounded)
  | some target =>
    dsimp only
    rw [leads_bind]
    refine ((steady_emitting (grows_loadTarget target)).calm toTaken.grounded).imp
      fun emitted next toNext => ?_
    cases emitted with
    | refused | outside => exact assigns toNext
    | done type =>
      dsimp only
      rw [leads_modify_bind, leads_get_bind, leads_bind]
      have noted : taken.Calm
          (next.modifyBase fun base => { base with depth := base.depth + 1, operand := some type }) :=
        toNext.trans (Compiler.steady_of_grounds_eq rfl toNext.grounded)
      refine leads_attempt (gives_iff.mpr fun plan _ => ?_) (assigns noted)
      rw [leads_modify_bind]
      exact assigns (noted.trans (Compiler.steady_of_grounds_eq rfl noted.grounded))

end Compile

/-! ### Stores -/

/-- What a store to a target, if there is one, changes. -/
def storedBy (target : Option AssignTarget) : List Stored := (target.bind (·.stored?)).toList

/-- No more stores are booked than are asked for. -/
def Compiler.Books (asked : List Stored) (c later : Compiler) : Prop :=
  ∃ booked, booked.Sublist asked ∧ c.Follows booked later

namespace Compiler

variable {c later last : Compiler} {asked : List Stored}

theorem Follows.books (follows : c.Follows [] later) : c.Books asked later :=
  ⟨[], nil_sublist _, follows⟩

theorem Calm.trans_books (calm : c.Calm later) (books : later.Books asked last) :
    c.Books asked last := by
  obtain ⟨booked, within, follows⟩ := books
  exact ⟨booked, within, calm.toFollows.trans follows⟩

theorem Books.trans_calm (books : c.Books asked later) (calm : later.Calm last) :
    c.Books asked last := by
  obtain ⟨booked, within, follows⟩ := books
  refine ⟨booked, within, ?_⟩
  have both := follows.trans calm.toFollows
  rwa [append_nil] at both

theorem Books.grounded (books : c.Books asked later) : later.Grounded := by
  obtain ⟨_, _, follows⟩ := books
  exact follows.grounded

end Compiler

namespace Compile

variable {c : Compiler}

theorem Within.books {α : Type} {action : Compile α} {asked : List Stored} (steady : action.Steady)
    (grounded : c.Grounded) : action.Leads c fun _ later => c.Books asked later :=
  (steady.calm grounded).imp fun _ _ calm => calm.books

theorem books_emitting {work : SymbolTable → MethodDraft → Except Failure (Unit × MethodDraft)}
    {extra : List Stored} (grounded : c.Grounded)
    (works : ∀ method, c.session.currentMethod? = .ok (some method) →
      Gives (work c.session.table method) fun (_, changed) => method.Grows extra changed) :
    (emitting work).Leads c fun _ later => c.Books extra later := by
  refine (follows_emitting grounded works).imp fun _ later outcome => ?_
  rcases outcome with ⟨-, -, follows, -⟩ | ⟨-, rfl⟩
  · exact ⟨extra, List.Sublist.refl _, follows⟩
  · exact (Compiler.Calm.refl grounded).books

theorem grows_stepLoaded (op : Operator) (ref : MemberRef) (table : SymbolTable)
    {method loaded : MethodDraft} (toLoaded : method.Grows [] loaded) :
    Gives (do
      let (_, method) ← loaded.loadField table ref
      let method ← (method.step op).storeField table ref
      return ((), method) : Except Failure (Unit × MethodDraft)) fun (_, later) =>
        method.Grows [.field ref] later := by
  rw [gives_fault_bind]
  refine (loaded.grows_loadField table ref).imp fun (_, field) toField => ?_
  rw [gives_fault_bind]
  refine ((field.step op).grows_storeField table ref).imp fun _ toLater => ?_
  exact ((toLoaded.trans toField).trans (field.grows_step op)).trans toLater

theorem grows_stepField (op : Operator) (receiver : Option Receiver) (ref : MemberRef)
    (table : SymbolTable) (method : MethodDraft) : Gives (stepField op receiver ref table method)
      fun (_, later) =>
      method.Grows [.field ref] later := by
  unfold stepField
  cases receiver with
  | none => exact grows_stepLoaded op ref table (.refl method)
  | some receiver =>
    dsimp only
    rw [gives_fault_bind]
    refine (method.grows_loadReceiver table receiver).imp ?_
    rintro ⟨_, loaded⟩ toLoaded
    exact grows_stepLoaded op ref table (toLoaded.trans (loaded.grows_emit rfl))

theorem leads_stepName (grounded : c.Grounded) (op : Operator) {segments : List String}
    {target : Option AssignTarget} (means : ∀ reference,
      c.session.resolveReference segments c.usings = .ok reference → reference.target? = target) :
    (stepName op segments).Leads c fun _ later => c.Books (storedBy target) later := by
  rw [stepName, leads_bind]
  refine (leads_resolveHere segments).imp ?_
  rintro reference here ⟨same, resolved⟩
  subst same
  obtain rfl := means reference resolved
  have stays : here.Books (storedBy reference.target?) here := (Compiler.Calm.refl grounded).books
  cases reference with
  | var var =>
    dsimp only
    rw [leads_bind]
    have steps : (emitting fun _ method => .ok ((), (method.loadVar var).step op)).Steady :=
      steady_emitting fun _ method => (method.grows_loadVar var).trans (grows_step _ op)
    refine (steps.calm grounded).imp fun emitted next toNext => ?_
    cases emitted with
    | refused | outside => exact leads_pure.mpr toNext.books
    | done _ =>
      -- The value is loaded and changed first; the variable still belongs to the current method
      -- then.
      have suits : next.Suits (.var var) := toNext.suits _ (grounded.suits resolved rfl)
      dsimp only
      rw [leads_bind]
      refine (books_emitting toNext.grounded fun method current => ?_).imp fun _ later books =>
        leads_pure.mpr (toNext.trans_books books)
      rw [gives_bind]
      exact grows_storeVar (suits method current)
  | field receiver ref =>
    dsimp only
    rw [leads_bind]
    exact (books_emitting grounded fun method _ => grows_stepField op receiver ref _ method).imp
      fun _ _ books => leads_pure.mpr books
  | constant value => exact leads_report.mpr stays
  | missing name => exact leads_report.mpr stays

theorem leads_stored {asked : List Stored} {next : Compiler} (toNext : c.Books asked next)
    (emitted : Emitted Unit) : (match emitted with
      | .done () => modify (·.modifyBase fun base => { base with depth := base.depth - 1 })
      | .refused | .outside =>
        return : Compile Unit).Leads next fun _ later => c.Books asked later := by
  cases emitted with
  | done _ =>
    exact leads_modify.mpr (toNext.trans_calm (Compiler.steady_of_grounds_eq rfl toNext.grounded))
  | refused | outside => exact leads_pure.mpr toNext

theorem leads_store (grounded : c.Grounded) {target : Option AssignTarget}
    (suits : ∀ held, target = some held → c.Suits held) :
    (store target).Leads c fun _ later => c.Books (storedBy target) later := by
  have stays : c.Books (storedBy target) c := (Compiler.Calm.refl grounded).books
  rw [store, leads_get_bind]
  dsimp only
  split
  · exact leads_pure.mpr stays
  split
  · split
    · rw [leads_bind, leads_report]
      exact leads_pure.mpr stays
    · exact leads_pure.mpr stays
  split
  · exact leads_pure.mpr stays
  cases target with
  | none => exact leads_stored stays .refused
  | some target =>
    cases target with
    | var var =>
      dsimp only
      rw [leads_bind]
      refine (books_emitting grounded fun method current => ?_).imp fun emitted _ books =>
        leads_stored books emitted
      rw [gives_bind]
      exact grows_storeVar (suits _ rfl method current)
    | field ref =>
      dsimp only
      rw [leads_bind]
      refine (books_emitting grounded fun method _ => ?_).imp fun emitted _ books =>
        leads_stored books emitted
      rw [gives_fault_bind]
      exact method.grows_storeField _ ref

theorem leads_finishConsume (grounded : c.Grounded) :
    finishConsume.Leads c fun _ later => c.Books (storedBy c.consume.target?) later := by
  rw [finishConsume, leads_bind]
  refine (steady_flushReference.calm grounded).imp fun _ flushed toFlushed => ?_
  rw [leads_get_bind, leads_modify_bind]
  have clears : flushed.Calm { flushed with consume := .normal } :=
    Compiler.steady_of_session_eq rfl rfl (by simp [Consume.target?])
      (fun _ same => same) toFlushed.grounded
  have toCleared := toFlushed.trans clears
  split
  · exact leads_pure.mpr toCleared.books
  · rename_i target consume
    have isTarget (held : AssignTarget) (same : target = some held) : flushed.consume.target? =
        some held := by
      rw [consume, same, Consume.target?]
    have suits (held : AssignTarget) (same : target = some held) :
        { flushed with consume := .normal }.Suits held := by
      intro method current
      exact (toFlushed.grounded method current).fits held (by simp [Compiler.targets, isTarget held same])
    refine (leads_store toCleared.grounded suits).imp fun _ later books => toCleared.trans_books ?_
    cases target with
    | none => exact ⟨[], nil_sublist _, by simpa [Compiler.Books, storedBy] using books⟩
    | some held =>
      rw [toFlushed.consume held (isTarget held rfl)]
      exact books
  · have returns : (do
        emit (·.emit .ret)
        modify (·.modifyBase Frame.resetOperand) : Compile Unit).Steady :=
      Within.bind (steady_emit fun method => method.grows_emit rfl) fun _ => steady_modify fun _ => rfl
    exact (returns.calm toCleared.grounded).imp fun _ _ toLater => (toCleared.trans toLater).books

/-! ### Operators -/

end Compile

/-- What an increment or decrement changes: the dotted name under way, if there is one. -/
def Compiler.stepped? (c : Compiler) : Option AssignTarget :=
  if c.literals.isEmpty then none
  else
    match c.session.resolveReference c.literals c.usings with
    | .ok reference => reference.target?
    | .error _ => none

/-- What a token asks to be stored to: an increment or decrement its operand, and the end of an
assignment its target. -/
def Compiler.asked (c : Compiler) : Token → Option AssignTarget
  | .operator .inc | .operator .dec => c.stepped?
  | token => if token.isEnd then c.consume.target? else none

theorem Compiler.asked_of_isEnd (c : Compiler) {token : Token} (isEnd : token.isEnd = true) :
    c.asked token = c.consume.target? := by
  unfold asked
  split
  · cases isEnd
  · cases isEnd
  · rw [if_pos isEnd]

theorem Compiler.asked_operator_congr {c later : Compiler} (same : later.stepped? = c.stepped?)
    (op : Operator) : later.asked (.operator op) = c.asked (.operator op) := by
  cases op <;> first | exact same | rfl

namespace Compile

variable {c : Compiler}

theorem leads_stepValue (grounded : c.Grounded) (op : Operator) :
    (stepValue op).Leads c fun _ later => c.Books (storedBy c.stepped?) later := by
  rw [stepValue, leads_get_bind]
  split
  · split
    · exact Within.books (steady_emit fun method => method.grows_step op) grounded
    · exact leads_report.mpr (Compiler.Calm.refl grounded).books
  · rename_i hasName
    rw [leads_bind, takeName, leads_get_bind, leads_modify_bind, leads_pure]
    have clears : c.Calm c.clearName := Compiler.steady_of_grounds_eq rfl grounded
    refine (leads_stepName clears.grounded op fun reference resolved => ?_).imp fun _ _ books =>
      clears.trans_books books
    have here : c.session.resolveReference c.literals c.usings = .ok reference := resolved
    rw [Compiler.stepped?, if_neg hasName, here]

/-- What a name means is the same after a result was taken back. -/
theorem leads_retractDiscard_stepped (type : TypeId) :
    (retractDiscard type).Leads c fun _ later => later.stepped? = c.stepped? := by
  rw [retractDiscard, leads_get_bind]
  split
  · exact leads_pure.mpr rfl
  refine leads_lift_ok fun found current => ?_
  cases found with
  | none => exact leads_pure.mpr rfl
  | some method =>
    dsimp only
    split
    · rw [leads_lift_bind]
      refine (Session.resolveReference_setMethod current method.dropLast rfl rfl).imp
        fun session same => ?_
      rw [leads_modify_bind, leads_modify]
      simp only [Compiler.stepped?, Compiler.modifyBase, same]
    · exact leads_pure.mpr rfl

theorem leads_operator_none (grounded : c.Grounded) (op : Operator) :
    (operator op none).Leads c fun _ later => c.Books (storedBy (c.asked (.operator op))) later := by
  unfold operator
  dsimp only
  split
  · rw [leads_bind]
    refine (leads_takeTarget grounded).imp fun target taken ⟨toTaken, suits⟩ => leads_modify.mpr ?_
    exact toTaken.trans_books (Compiler.follows_assign toTaken.grounded suits).books
  · exact leads_stepValue grounded .inc
  · exact leads_stepValue grounded .dec
  · have inverts : (do
        flushReference
        modify (·.modifyFrame fun frame => { frame with pendingNot := !frame.pendingNot }) :
            Compile Unit).Steady :=
      steady_flushReference.bind fun _ => steady_modifyFrame fun _ => rfl
    exact inverts.books grounded
  · rw [leads_get_bind]
    split
    · exact Within.books (steady_modifyFrame fun _ => rfl) grounded
    · split
      · exact (leads_compoundAssign grounded _).imp fun _ _ follows => follows.books
      · exact (steady_binary op).books grounded

theorem leads_operator (grounded : c.Grounded) (op : Operator) (retract : Option TypeId) :
    (operator op retract).Leads c fun _ later =>
      c.Books (storedBy (c.asked (.operator op))) later := by
  cases retract with
  | none => exact leads_operator_none grounded op
  | some type =>
    have first : operator op (some type) = retractDiscard type >>= fun _ => operator op none := rfl
    rw [first, leads_bind]
    refine (((steady_retractDiscard type).calm grounded).and
      (leads_retractDiscard_stepped type)).imp fun _ next ⟨toNext, same⟩ => ?_
    rw [← Compiler.asked_operator_congr same op]
    exact (leads_operator_none toNext.grounded op).imp fun _ _ books => toNext.trans_books books

/-! ### Ends -/

theorem steady_endExpression : endExpression.Steady := by
  have forgets : (modify fun c : Compiler => { c with lastDeclared := none }).Steady :=
    within_modify Compiler.steady_forgetDeclared
  have ends : forgetWaiting.Steady := by
    refine within_get.bind fun c => ?_
    dsimp only
    split
    · exact Within.bind (steady_modify fun _ => rfl) fun _ => (within_report _).bind fun _ => forgets
    · exact forgets
  have drops (count : Nat) : (dropValues count >>= fun _ => forgetWaiting).Steady := by
    refine Within.bind ?_ fun _ => ends
    rw [dropValues]
    split
    · refine steady_emit fun method => method.grows_append ?_
      simp [storesIn, Instruction.stored?]
    · exact within_pure ()
  rw [endExpression]
  refine steady_flushReference.bind fun _ => within_get.bind fun flushed => ?_
  refine Within.bind (steady_modify fun _ => rfl) fun _ => ?_
  dsimp only
  split
  · exact (within_report _).bind fun _ => drops _
  · exact drops _

end Compile

end OnePass
