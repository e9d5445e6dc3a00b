import OnePass.Proofs.Layout.Names

/-! # Actions that keep the code that stands

While an expression is read, its open brackets remember where their code begins. `Compiler.Guarded`
says that all of this lies behind the instructions of the current method that stand, for all
brackets but some outer ones. Then these instructions stand: whatever is cut off, moved or wrapped
comes after them. An action of this kind is `Compiler.Works`. It changes the current method by an
edit and leaves all other methods alone.

The rules follow the constructs with which actions are put together. Besides, none of these actions
reports a label that is never defined, which is left to the end of a method. -/

namespace OnePass

open List

/-! ## Sessions -/

namespace Session

variable {g : Guard} {session later last : Session}

theorem gives_of_modifyType {change : TypeDraft → TypeDraft} {post : Session → Prop}
    (none : session.current? = .ok none → post session)
    (done : ∀ index draft, session.current? = .ok (some (index, draft)) →
      post (session.setDraft index (change draft))) : Gives (session.modifyType change) post := by
  rw [modifyType]
  refine gives_bind_ok fun found current => ?_
  cases found with
  | none => exact none current
  | some entry => exact done entry.1 entry.2 current

theorem currentMethod?_congr (drafts : later.drafts = session.drafts)
    (openTypes : later.openTypes = session.openTypes)
    (defaultType : later.defaultType = session.defaultType) :
    later.currentMethod? = session.currentMethod? := by
  simp only [currentMethod?, currentType?, current?, Session.draft, drafts, openTypes, defaultType]

variable {index : Nat} {draft changed : TypeDraft}

theorem currentMethod?_setDraft (here : session.drafts[index]? = some draft)
    (isOpen : changed.isOpen = draft.isOpen) (openMethods : changed.openMethods = draft.openMethods) :
    (session.setDraft index changed).currentMethod? = session.currentMethod? := by
  have inRange := (List.getElem?_eq_some_iff.mp here).1
  have place : (session.setDraft index changed).openTypes.head?.or
      (session.setDraft index changed).defaultType = session.openTypes.head?.or session.defaultType := rfl
  rw [currentMethod?, currentType?, current?, place, currentMethod?, currentType?, current?]
  -- Which draft is current does not change. If it is the one that is replaced, its methods are the
  -- same.
  cases isCurrent : session.openTypes.head?.or session.defaultType with
  | none => rfl
  | some place =>
    by_cases same : index = place
    · subst same
      have before : session.draft index = .ok draft := by rw [Session.draft, here]
      have after : (session.setDraft index changed).draft index = .ok changed := by
        simp [Session.draft, Session.setDraft, inRange]
      by_cases stillOpen : draft.isOpen = true <;>
        simp [before, after, isOpen, stillOpen, TypeDraft.currentMethod?, openMethods, bind,
          Except.bind, pure, Except.pure]
    · simp [Session.draft, Session.setDraft, same]

/-- The methods that are open, of all types. -/
def openMethods (session : Session) : List MethodDraft := session.drafts.flatMap (·.openMethods)

/-- A draft has others before and after it, which stay when it is replaced. -/
theorem exists_around {draft : TypeDraft} (here : session.drafts[index]? = some draft) :
    ∃ before after, session.drafts = before ++ draft :: after ∧
      ∀ changed, session.drafts.set index changed = before ++ changed :: after := by
  obtain ⟨inRange, rfl⟩ := List.getElem?_eq_some_iff.mp here
  refine ⟨session.drafts.take index, session.drafts.drop (index + 1), ?_, fun changed => ?_⟩
  · rw [getElem_cons_drop, take_append_drop]
  · exact set_eq_take_append_cons_drop ▸ by rw [if_pos inRange]

theorem current?_setDraft {draft : TypeDraft} (found : session.current? = .ok (some (index, draft)))
    (changed : TypeDraft) (isOpen : changed.isOpen = true) :
    (session.setDraft index changed).current? = .ok (some (index, changed)) := by
  obtain ⟨isCurrent, here, -⟩ := current?_eq_some found
  have inRange := (List.getElem?_eq_some_iff.mp here).1
  have stays : (session.setDraft index changed).openTypes.head?.or
    (session.setDraft index changed).defaultType =
      some index := isCurrent
  rw [current?, stays]
  simp [Session.draft, Session.setDraft, inRange, isOpen, bind, Except.bind, pure, Except.pure]

theorem mem_openMethods_of_current {method : MethodDraft}
    (current : session.currentMethod? = .ok (some method)) : method ∈ session.openMethods := by
  obtain ⟨index, draft, rest, found, openMethods⟩ := currentMethod?_eq_some current
  obtain ⟨-, here, -⟩ := current?_eq_some found
  refine mem_flatMap.mpr ⟨draft, mem_of_getElem? here, ?_⟩
  rw [openMethods]
  exact mem_cons_self

/-- The current method is replaced, and all others stay. -/
structure Swaps (method changed : MethodDraft) (session later : Session) : Prop where
  current : later.currentMethod? = .ok (some changed)
  openMethods : ∃ others, session.openMethods.Perm (method :: others) ∧
    later.openMethods.Perm (changed :: others)

theorem gives_swaps {method : MethodDraft} (current : session.currentMethod? = .ok (some method))
    (changed : MethodDraft) :
    Gives (session.setMethod changed) fun later => session.Swaps method changed later := by
  obtain ⟨index, draft, rest, found, openMethods⟩ := currentMethod?_eq_some current
  obtain ⟨-, here, isOpen⟩ := current?_eq_some found
  obtain ⟨before, after, drafts, sets⟩ := exists_around here
  have replaced : (session.setDraft index (draft.setMethod changed)).drafts =
      before ++ draft.setMethod changed :: after := sets _
  rw [setMethod, modifyType, found]
  refine gives_ok.mpr ⟨?_, before.flatMap (·.openMethods) ++ rest ++
    after.flatMap (·.openMethods), ?_, ?_⟩
  · rw [currentMethod?, currentType?, current?_setDraft found (draft.setMethod changed) isOpen]
    rfl
  all_goals
    simp only [Session.openMethods, replaced, drafts]
    simp only [TypeDraft.setMethod, openMethods, tail_cons, flatMap_append, flatMap_cons,
      append_assoc, cons_append]
    exact perm_middle

/-- The finished methods of all types. -/
def bodies (session : Session) : List MethodBody := session.drafts.flatMap (·.bodies)

/-- No method is touched. -/
structure Untouched (session later : Session) : Prop where
  current : later.currentMethod? = session.currentMethod?
  openMethods : later.openMethods = session.openMethods
  bodies : later.bodies = session.bodies

theorem Untouched.refl (session : Session) : session.Untouched session := ⟨rfl, rfl, rfl⟩

theorem Untouched.trans (first : session.Untouched later) (second : later.Untouched last) :
    session.Untouched last :=
  ⟨second.current.trans first.current, second.openMethods.trans first.openMethods,
    second.bodies.trans first.bodies⟩

theorem untouched_of_drafts_eq (drafts : later.drafts = session.drafts)
    (openTypes : later.openTypes = session.openTypes)
    (defaultType : later.defaultType = session.defaultType) : session.Untouched later where
  current := currentMethod?_congr drafts openTypes defaultType
  openMethods := by rw [openMethods, openMethods, drafts]
  bodies := by rw [bodies, bodies, drafts]

/-- What is listed of the drafts stays if the replaced one lists the same. -/
theorem flatMap_setDraft {α : Type}
    (here : session.drafts[index]? = some draft) {list : TypeDraft → List α}
    (same : list changed = list draft) : (session.setDraft index changed).drafts.flatMap list =
      session.drafts.flatMap list := by
  obtain ⟨before, after, drafts, sets⟩ := exists_around here
  rw [setDraft, sets, drafts]
  simp only [flatMap_append, flatMap_cons, same]

theorem untouched_setDraft (here : session.drafts[index]? = some draft)
    (isOpen : changed.isOpen = draft.isOpen) (methods : changed.openMethods = draft.openMethods)
    (finished : changed.bodies = draft.bodies) :
    session.Untouched (session.setDraft index changed) where
  current := currentMethod?_setDraft here isOpen methods
  openMethods := flatMap_setDraft here methods
  bodies := flatMap_setDraft here finished

/-- The current method is edited, and all others stay as they are. -/
structure Replaced (g : Guard) (method changed : MethodDraft) (session later : Session) : Prop where
  before : session.currentMethod? = .ok (some method)
  current : later.currentMethod? = .ok (some changed)
  edits : method.Edits g changed
  openMethods : ∃ others, session.openMethods.Perm (method :: others) ∧
    later.openMethods.Perm (changed :: others)

/-- At most the current method is touched, behind the code that stands. -/
structure Reworks (g : Guard) (session later : Session) : Prop where
  bodies : later.bodies = session.bodies
  methods : session.Untouched later ∨ ∃ method changed, session.Replaced g method changed later

theorem Untouched.reworks (untouched : session.Untouched later) : session.Reworks g later :=
  ⟨untouched.bodies, .inl untouched⟩

theorem Reworks.trans (first : session.Reworks g later) (second : later.Reworks g last) :
    session.Reworks g last := by
  refine ⟨second.bodies.trans first.bodies, ?_⟩
  rcases first.methods with untouched | ⟨method, changed, replaced⟩
  · rcases second.methods with stillUntouched | ⟨method, changed, replaced⟩
    · exact .inl (untouched.trans stillUntouched)
    · exact .inr ⟨method, changed, untouched.current ▸ replaced.before, replaced.current,
        replaced.edits, untouched.openMethods ▸ replaced.openMethods⟩
  · rcases second.methods with untouched | ⟨other, last, again⟩
    · exact .inr ⟨method, changed, replaced.before, untouched.current.trans replaced.current,
        replaced.edits, untouched.openMethods ▸ replaced.openMethods⟩
    · -- What is edited the second time is what the first edit has left.
      obtain rfl : changed = other := by simpa using replaced.current.symm.trans again.before
      obtain ⟨others, start, middle⟩ := replaced.openMethods
      obtain ⟨rest, same, stop⟩ := again.openMethods
      have perm : others.Perm rest := (perm_cons changed).mp (middle.symm.trans same)
      exact .inr ⟨method, last, replaced.before, again.current, replaced.edits.trans again.edits,
        others, start, stop.trans (perm.symm.cons last)⟩

theorem Reworks.here {p : MethodDraft → Prop} (reworks : session.Reworks g later)
    (stable : ∀ method changed, method.Edits g changed → p method → p changed)
    (here : session.Here p) : later.Here p := by
  intro method current
  rcases reworks.methods with untouched | ⟨before, changed, replaced⟩
  · exact here method (untouched.current ▸ current)
  · obtain rfl : changed = method := by simpa using replaced.current.symm.trans current
    exact stable before changed replaced.edits (here before replaced.before)

theorem gives_setMethod_bodies (session : Session) (changed : MethodDraft) :
    Gives (session.setMethod changed) fun later => later.bodies = session.bodies :=
  gives_of_modifyType (fun _ => rfl) fun _ _ current =>
    flatMap_setDraft (current?_eq_some current).2.1 rfl

theorem gives_setMethod_reworks {method changed : MethodDraft}
    (current : session.currentMethod? = .ok (some method)) (edits : method.Edits g changed) :
    Gives (session.setMethod changed) fun later =>
      session.Reworks g later ∧ later.currentMethod? = .ok (some changed) := by
  refine ((gives_swaps current changed).and (session.gives_setMethod_bodies changed)).imp ?_
  rintro later ⟨replaces, bodies⟩
  exact ⟨⟨bodies, .inr ⟨method, changed, current, replaces.current, edits, replaces.openMethods⟩⟩,
    replaces.current⟩

end Session

/-! ## States -/

/-- The target of an assignment that waits for its value. -/
def Consume.target? : Consume → Option AssignTarget
  | assign target => target
  | normal | ret => none

/-- Where the code inside a bracket begins, if the bracket remembers it. -/
def FrameKind.start? : FrameKind → Option Nat
  | base | group => none
  | call _ start => start
  | construct _ _ start => start
  | sequence start _ _ => start

/-- The code inside a bracket begins behind the code that stands, and the receiver of a call is
there. A call that began outside of methods would put its receiver in front of everything. -/
def FrameKind.SitsAt (g : Guard) (method : MethodDraft) : FrameKind → Prop
  | .call site start => g.keep ≤ start.getD 0 ∧
      (g.checked → ∀ receiver ∈ site.receiver?, method.HasReceiver receiver)
  | kind => ∀ start ∈ kind.start?, g.keep ≤ start

theorem FrameKind.SitsAt.mono {g : Guard} {method later : MethodDraft} {kind : FrameKind}
    (sits : kind.SitsAt g method) (locals : method.locals.length ≤ later.locals.length)
    (arity : method.arity ≤ later.arity) : kind.SitsAt g later := by
  cases kind with
  | call site start =>
    exact ⟨sits.1, fun isChecked receiver isReceiver => (sits.2 isChecked receiver isReceiver).mono
      locals arity⟩
  | base | group | construct | sequence => exact sits

namespace Compiler

variable {g : Guard} {c later last : Compiler} {change : Frame → Frame}

/-- The kinds of the open brackets, innermost first. -/
def kinds (c : Compiler) : List FrameKind := c.frames.map (·.kind)

/-- The targets that the state remembers. -/
def targets (c : Compiler) : List AssignTarget := c.consume.target?.toList ++ c.lastDeclared.toList

/-- What the state remembers about the expression under way fits a method whose first instructions
stand. -/
structure SitsAt (g : Guard) (c : Compiler) (method : MethodDraft) : Prop where
  le : g.keep ≤ method.position
  kinds : ∃ inner, c.kinds = inner ++ g.outer ∧ ∀ kind ∈ inner, kind.SitsAt g method
  targets : g.checked → ∀ target ∈ c.targets, method.HasTarget target

theorem SitsAt.mono {method changed : MethodDraft} (sits : c.SitsAt g method)
    (locals : method.locals.length ≤ changed.locals.length) (arity : method.arity ≤ changed.arity)
    (le : g.keep ≤ changed.position) (kinds : later.kinds = c.kinds)
    (targets : later.targets ⊆ c.targets) : later.SitsAt g changed where
  le := le
  kinds := by
    obtain ⟨inner, all, each⟩ := sits.kinds
    exact ⟨inner, kinds.trans all, fun kind here => (each kind here).mono locals arity⟩
  targets isChecked target held := (sits.targets isChecked target (targets held)).mono locals arity

/-- The operators that wait for an operand work on the stack alone. -/
def Plain (c : Compiler) : Prop := ∀ frame ∈ c.base :: c.frames, ∀ plan ∈ frame.pendingOp, plan.Plain

/-- What the state remembers about the expression under way fits the current method, whose first
instructions stand. -/
structure Guarded (g : Guard) (c : Compiler) : Prop where
  sits : c.session.Here (c.SitsAt g)
  plain : g.checked → c.Plain

/-- The current method is edited behind the code that stands. -/
structure Works (g : Guard) (c later : Compiler) : Prop where
  guarded : later.Guarded g
  session : c.session.Reworks g later.session
  retractable : later.retractable = c.retractable
  alike : g.alike → c.Alike later

theorem Works.refl (guarded : c.Guarded g) : c.Works g c :=
  ⟨guarded, (Session.Untouched.refl _).reworks, rfl, fun _ => rfl⟩

theorem Works.trans (first : c.Works g later) (second : later.Works g last) :
    c.Works g last :=
  ⟨second.guarded, first.session.trans second.session, second.retractable.trans first.retractable,
    fun isAlike => (second.alike isAlike).trans (first.alike isAlike)⟩

/-- The session is changed in some way, and of the expression under way at most a target is
forgotten. -/
structure Alters (R : Session → Session → Prop) (c later : Compiler) : Prop where
  session : R c.session later.session
  frames : later.frames = c.frames
  base : later.base = c.base
  targets : later.targets ⊆ c.targets
  retractable : later.retractable = c.retractable

theorem Alters.trans {R S T : Session → Session → Prop} (first : c.Alters R later)
    (second : later.Alters S last) (joins : R c.session later.session →
      S later.session last.session → T c.session last.session) :
    c.Alters T last where
  session := joins first.session second.session
  frames := second.frames.trans first.frames
  base := second.base.trans first.base
  targets := List.Subset.trans second.targets first.targets
  retractable := second.retractable.trans first.retractable

theorem Alters.imp {R S : Session → Session → Prop} (alters : c.Alters R later)
    (implies : R c.session later.session → S c.session later.session) : c.Alters S later :=
  { alters with session := implies alters.session }

/-- No method is touched. -/
abbrev Untouched (c later : Compiler) : Prop := c.Alters Session.Untouched later

instance : IsPreorder Compiler Untouched where
  refl _ := ⟨.refl _, rfl, rfl, List.Subset.refl _, rfl⟩
  trans _ _ _ first second := first.trans second .trans

theorem Alters.kinds {R : Session → Session → Prop} (alters : c.Alters R later) :
    later.kinds = c.kinds := by
  rw [Compiler.kinds, alters.frames]
  rfl

/-- What the operators that wait work on does not depend on the session. -/
theorem Alters.plain {R : Session → Session → Prop} (alters : c.Alters R later) (plain : c.Plain) :
    later.Plain := by
  rw [Plain, alters.base, alters.frames]
  exact plain

theorem Alters.guarded (untouched : c.Untouched later) (guarded : c.Guarded g) :
    later.Guarded g where
  sits method current := by
    have sits := guarded.sits method (untouched.session.current ▸ current)
    exact sits.mono le_rfl le_rfl sits.le untouched.kinds untouched.targets
  plain isChecked := untouched.plain (guarded.plain isChecked)

theorem Alters.works (untouched : c.Untouched later) (guarded : c.Guarded g)
    (alike : g.alike → c.Alike later) : c.Works g later :=
  ⟨untouched.guarded guarded, untouched.session.reworks, untouched.retractable, alike⟩

/-- The part of a state that these facts are about. -/
def site (c : Compiler) : Session × List Frame × Frame × Consume × Option AssignTarget ×
      Option TypeId :=
  (c.session, c.frames, c.base, c.consume, c.lastDeclared, c.retractable)

theorem untouched_of_site_eq (same : later.site = c.site) : c.Untouched later := by
  obtain ⟨session, frames, base, consume, lastDeclared, retractable⟩ : later.session = c.session ∧
      later.frames = c.frames ∧ later.base = c.base ∧ later.consume = c.consume ∧
        later.lastDeclared = c.lastDeclared ∧
      later.retractable = c.retractable := by simpa [site] using same
  refine ⟨session ▸ .refl _, frames, base, ?_, retractable⟩
  rw [targets, targets, consume, lastDeclared]
  exact List.Subset.refl _

theorem works_of_site_eq (guarded : c.Guarded g) (same : later.site = c.site)
    (alike : g.alike → c.Alike later) : c.Works g later :=
  (untouched_of_site_eq same).works guarded alike

/-- The expression under way is changed, and what it remembers still fits. -/
theorem Guarded.reframe (guarded : c.Guarded g) (session : later.session = c.session)
    (kinds : later.kinds = c.kinds) (targets : later.targets ⊆ c.targets)
    (plain : g.checked → later.Plain) : later.Guarded g where
  sits method current := by
    have sits := guarded.sits method (session ▸ current)
    exact sits.mono le_rfl le_rfl sits.le kinds targets
  plain := plain

theorem kinds_modifyFrame (kind : ∀ frame, (change frame).kind = frame.kind) (c : Compiler) :
    (c.modifyFrame change).kinds = c.kinds := by
  unfold modifyFrame
  split
  · rfl
  · rename_i frame rest frames
    simp [kinds, frames, kind]

theorem Plain.modifyFrame (plain : c.Plain)
    (plans : ∀ frame, ∀ plan ∈ (change frame).pendingOp, plan ∈ frame.pendingOp ∨ plan.Plain) :
    (c.modifyFrame change).Plain := by
  have eased (frame : Frame) (here : frame ∈ c.base :: c.frames) : ∀ plan ∈
      (change frame).pendingOp, plan.Plain :=
    fun plan held => (plans frame plan held).elim (plain frame here plan) id
  unfold Plain Compiler.modifyFrame
  split
  · rename_i frames
    rw [frames]
    exact forall_mem_cons.mpr ⟨eased c.base mem_cons_self, forall_mem_nil _⟩
  · rename_i frame rest frames
    refine forall_mem_cons.mpr ⟨plain c.base mem_cons_self, forall_mem_cons.mpr ⟨?_, ?_⟩⟩
    · exact eased frame (by simp [frames])
    · exact fun other here => plain other (by simp [frames, here])

theorem works_modifyFrame (guarded : c.Guarded g)
    (kind : ∀ frame, (change frame).kind = frame.kind)
    (plans : g.checked → ∀ frame, ∀ plan ∈ (change frame).pendingOp, plan ∈ frame.pendingOp ∨
      plan.Plain) :
    c.Works g (c.modifyFrame change) := by
  have same : (c.modifyFrame change).session = c.session ∧
      (c.modifyFrame change).targets = c.targets ∧
          (c.modifyFrame change).retractable = c.retractable := by
    unfold modifyFrame
    split <;> exact ⟨rfl, rfl, rfl⟩
  obtain ⟨session, targets, retractable⟩ := same
  have bracket (frame : Frame) : (change frame).bracket = frame.bracket := by
    rw [Frame.bracket, Frame.isSequence, kind, Frame.bracket, Frame.isSequence]
  refine ⟨guarded.reframe session (kinds_modifyFrame kind c) (fun _ held => targets ▸ held)
    fun isChecked => ?_, session ▸ (Session.Untouched.refl _).reworks, retractable,
    fun _ => Compile.alike_modifyFrame bracket c⟩
  exact (guarded.plain isChecked).modifyFrame (plans isChecked)

theorem works_modifyBase (guarded : c.Guarded g)
    (plans : g.checked → ∀ plan ∈ (change c.base).pendingOp, plan ∈ c.base.pendingOp ∨ plan.Plain) :
    c.Works g (c.modifyBase change) := by
  refine ⟨guarded.reframe rfl rfl (List.Subset.refl _) fun isChecked => ?_,
    (Session.Untouched.refl _).reworks, rfl, fun _ => rfl⟩
  have plain := guarded.plain isChecked
  refine forall_mem_cons.mpr ⟨fun plan held => ?_, fun frame here =>
    plain frame (mem_cons_of_mem _ here)⟩
  exact (plans isChecked plan held).elim (plain c.base mem_cons_self plan) id

theorem works_setMethod (guarded : c.Guarded g) {method changed : MethodDraft}
    (current : c.session.currentMethod? = .ok (some method)) (edits : method.Edits g changed) :
    Gives (c.session.setMethod changed) fun session => c.Works g { c with session := session } := by
  refine gives_iff.mpr fun session set => ?_
  obtain ⟨reworks, isCurrent⟩ := (Session.gives_setMethod_reworks current edits).of_ok set
  refine ⟨⟨fun other here => ?_, guarded.plain⟩, reworks, rfl, fun isAlike => ?_⟩
  · obtain rfl : changed = other := by simpa using isCurrent.symm.trans here
    exact (guarded.sits method current).mono edits.locals edits.arity edits.le rfl (List.Subset.refl _)
  · have same := (Session.gives_setMethod current (edits.outline isAlike)).of_ok set
    simp [Alike, outline, same]

end Compiler

/-! ## Actions -/

namespace Compile

variable {α β : Type} {g : Guard} {c : Compiler} {action : Compile α}
variable {work : SymbolTable → MethodDraft → Except Failure (α × MethodDraft)}

/-- In a state that is guarded, the action edits the current method behind the code that stands. -/
def Keeps (g : Guard) (action : Compile α) : Prop :=
  ∀ c : Compiler, c.Guarded g → action.Does c fun _ later => c.Works g later

theorem Keeps.bind {next : α → Compile β} (first : action.Keeps g)
    (second : ∀ a, (next a).Keeps g) : (action >>= next).Keeps g :=
  fun c guarded => (first c guarded).bind fun a later toLater =>
    (second a later toLater.guarded).imp fun _ _ toLast => toLater.trans toLast

theorem Keeps.does (keeps : action.Keeps g) {later : Compiler}
    (toLater : c.Works g later) : action.Does later fun _ last => c.Works g last :=
  (keeps later toLater.guarded).imp fun _ _ toLast => toLater.trans toLast

theorem keeps_pure (a : α) : (pure a : Compile α).Keeps g :=
  fun _ guarded => does_pure (.refl guarded)

theorem keeps_get_bind {next : Compiler → Compile β} (rest : ∀ c, (next c).Keeps g) :
    (get >>= next).Keeps g :=
  fun c guarded => does_get_bind (rest c c guarded)

theorem keeps_report {problem : Problem} (quiet : problem.isUndefinedLabel = false) :
    (report problem).Keeps g :=
  fun _ guarded => does_report (.refl guarded) quiet

theorem keeps_lift (outcome : Except Fault α) : (liftM outcome : Compile α).Keeps g :=
  fun _ guarded => does_lift ((gives_self outcome).imp fun _ _ => .refl guarded)

theorem keeps_modify {change : Compiler → Compiler}
    (same : ∀ c, (change c).site = c.site ∧ c.Alike (change c)) : (modify change).Keeps g :=
  fun c guarded => does_modify (Compiler.works_of_site_eq guarded (same c).1 fun _ => (same c).2)

theorem keeps_skip [g.Loose] {change : Compiler → Compiler} (same : ∀ c, (change c).site = c.site) :
    (modify change).Keeps g :=
  fun c guarded => does_modify (Compiler.works_of_site_eq guarded (same c) Guard.loose)

/-- The innermost frame is changed, but neither its bracket nor, other than by forgetting it, its
operator. -/
theorem keeps_modifyFrame {change : Frame → Frame}
    (kind : ∀ frame, (change frame).kind = frame.kind)
    (plans : ∀ frame, ∀ plan ∈ (change frame).pendingOp, plan ∈ frame.pendingOp) :
    (modify (·.modifyFrame change)).Keeps g :=
  fun _ guarded => does_modify (Compiler.works_modifyFrame guarded kind fun _ frame plan held =>
    .inl (plans frame plan held))

theorem Always.keeps [g.Loose] (always : action.Always Compiler.Untouched) : action.Keeps g :=
  fun c guarded => (always c).imp fun _ _ untouched => untouched.works guarded Guard.loose

/-- No code is said to stand. -/
theorem guarded_zero (c : Compiler) {alike : Prop} : c.Guarded { keep := 0, alike := alike } := by
  refine ⟨fun method _ => ⟨Nat.zero_le _, ⟨_, (append_nil _).symm, fun kind _ => ?_⟩, nofun⟩, nofun⟩
  cases kind with
  | call site start => exact ⟨Nat.zero_le _, nofun⟩
  | base | group | construct | sequence => exact fun _ _ => Nat.zero_le _

theorem Keeps.alike (keeps : action.Keeps { keep := 0, alike := True }) : action.Alike :=
  fun c => Gives.imp (keeps c (guarded_zero c)) fun _ here => here.1.alike trivial

/-! ### Emission -/

/-- What stands stands without the last instruction of the current method. -/
def Beyond (keep : Nat) (c : Compiler) : Prop := c.session.Here fun method =>
      keep ≤ method.position - 1

theorem does_emitting {post : Emitted α → Compiler → Prop} (outside : post .outside c)
    (refused : post .refused c) (done : ∀ method, c.session.currentMethod? = .ok (some method) →
      Yields (work c.session.table method) fun (a, changed) =>
        Gives (c.session.setMethod changed) fun session => post (.done a) { c with session := session }) :
    (emitting work).Does c post := by
  rw [emitting]
  refine does_get_bind (does_lift_bind (gives_self _) fun found current => ?_)
  cases found with
  | none => exact does_report_bind rfl (does_pure outside)
  | some method =>
    refine does_attempt_bind (done method current) ?_ (does_pure refused)
    rintro ⟨a, changed⟩ sets
    exact does_lift_bind sets fun session after => does_modify_bind (does_pure after)

theorem works_emitting (guarded : c.Guarded g)
    (works : ∀ method, c.session.currentMethod? = .ok (some method) → c.SitsAt g method →
      Yields (work c.session.table method) fun (_, changed) => method.Edits g changed) :
    (emitting work).Does c fun _ later => c.Works g later := by
  refine does_emitting (.refl guarded) (.refl guarded) fun method current => ?_
  exact (works method current (guarded.sits method current)).imp fun _ edits =>
    Compiler.works_setMethod guarded current edits

theorem keeps_emitting (works : ∀ table method, g.keep ≤ method.position →
      Yields (work table method) fun (_, changed) => method.Edits g changed) :
    (emitting work).Keeps g :=
  fun _ guarded => works_emitting guarded fun method _ sits => works _ method sits.le

theorem keeps_emit {work : MethodDraft → MethodDraft}
    (works : ∀ method : MethodDraft, g.keep ≤ method.position → method.Edits g (work method)) :
    (emit work).Keeps g := by
  have emits : (emitting fun _ method => .ok ((), work method)).Keeps g :=
    keeps_emitting fun _ method le => yields_ok.mpr (works method le)
  exact emits.bind fun _ => keeps_pure ()

end Compile

end OnePass
