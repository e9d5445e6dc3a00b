import OnePass.Proofs.Integrity.Outcome
import Mathlib.Order.Defs.Unbundled

/-! # What an action leaves alone

Most actions of the compiler work on the expression under way and on the code of the current method.
The *outline* of a state is the state without these: the declarations of the session, the tokens
still to be read, and the brackets that are open. An action that emits code keeps the outline.

What an action can do is said as a relation between the state before and the state after:
`Compile.Within R` says that the action, if it does not end in a fault, leads from every state to
one that is related to it. Within a preorder, actions can be put together. `Compile.Always R` says
besides that no label is reported as undefined, which is left to the end of a method. -/

namespace OnePass

open List

/-! ## Results -/

/-- The result, if there is one, meets the condition. -/
def Gives {ε α : Type} (outcome : Except ε α) (post : α → Prop) : Prop :=
  match outcome with
  | .ok a => post a
  | .error _ => True

section Results

variable {ε α β : Type} {post : β → Prop} {outcome : Except ε β}

theorem gives_iff : Gives outcome post ↔ ∀ b, outcome = .ok b → post b := by
  cases outcome <;> simp [Gives]

@[simp]
theorem gives_ok {b : β} : Gives (.ok b : Except ε β) post ↔ post b := Iff.rfl

@[simp]
theorem gives_pure {b : β} : Gives (pure b : Except ε β) post ↔ post b := Iff.rfl

@[simp]
theorem gives_error {error : ε} : Gives (.error error : Except ε β) post := trivial

@[simp]
theorem gives_throw {error : ε} : Gives (throw error : Except ε β) post := trivial

@[simp]
theorem gives_bind {outcome : Except ε α} {next : α → Except ε β} :
    Gives (outcome >>= next) post ↔ Gives outcome fun a => Gives (next a) post := by
  cases outcome <;> rfl

@[simp]
theorem gives_lift_fault {outcome : Except Fault β} :
    Gives (liftM outcome : Except Failure β) post ↔ Gives outcome post := by
  cases outcome <;> rfl

@[simp]
theorem gives_lift_problem {outcome : Except Problem β} :
    Gives (liftM outcome : Except Failure β) post ↔ Gives outcome post := by
  cases outcome <;> rfl

theorem gives_fault_bind {outcome : Except Fault α} {next : α → Except Failure β} :
    Gives (liftM outcome >>= next) post ↔ Gives outcome fun a => Gives (next a) post := by
  rw [gives_bind, gives_lift_fault]

theorem gives_bind_ok {outcome : Except ε α} {next : α → Except ε β}
    (each : ∀ a, outcome = .ok a → Gives (next a) post) : Gives (outcome >>= next) post :=
  gives_bind.mpr (gives_iff.mpr each)

theorem gives_fault_ok {outcome : Except Fault α} {next : α → Except Failure β}
    (each : ∀ a, outcome = .ok a → Gives (next a) post) : Gives (liftM outcome >>= next) post :=
  gives_fault_bind.mpr (gives_iff.mpr each)

theorem Gives.imp {weaker : β → Prop} (gives : Gives outcome post)
    (implies : ∀ b, post b → weaker b) : Gives outcome weaker :=
  gives_iff.mpr fun b result => implies b (gives_iff.mp gives b result)

theorem Gives.of_ok {b : β} (gives : Gives outcome post) (result : outcome = .ok b) : post b :=
  gives_iff.mp gives b result

theorem Gives.and {other : β → Prop} (first : Gives outcome post)
    (second : Gives outcome other) : Gives outcome fun b => post b ∧ other b :=
  gives_iff.mpr fun _ result => ⟨first.of_ok result, second.of_ok result⟩

theorem gives_self (outcome : Except ε β) : Gives outcome fun b => outcome = .ok b :=
  gives_iff.mpr fun _ result => result

theorem gives_findSomeM? {f : α → Except ε (Option β)} {list : List α}
    (each : ∀ a ∈ list, Gives (f a) fun found => ∀ b ∈ found, post b) :
    Gives (list.findSomeM? f) fun found => ∀ b ∈ found, post b :=
  @ensures_findSomeM? ε α β ⟨fun _ => True⟩ list f post each

theorem gives_findM? {p : α → Except ε Bool} {list : List α} :
    Gives (list.findM? p) fun found => ∀ a ∈ found, a ∈ list :=
  @ensures_findM? ε α ⟨fun _ => True⟩ list p fun _ _ => (gives_self _).imp fun _ _ => trivial

theorem gives_mapM {f : α → Except ε β} {list : List α} (each : ∀ a, Gives (f a) post) :
    Gives (list.mapM f) fun results => ∀ b ∈ results, post b :=
  @ensures_mapM ε α β ⟨fun _ => True⟩ list f post fun a _ => each a

end Results

/-! ## Refusals -/

/-- Whether a problem is that of a branch to a label that is never defined. -/
def Problem.isUndefinedLabel : Problem → Bool
  | undefinedLabel _ => true
  | _ => false

/-- A result meets the condition, and what is refused is not refused for want of a label. -/
def Yields {α : Type} (outcome : Except Failure α) (post : α → Prop) : Prop :=
  match outcome with
  | .ok a => post a
  | .error (.problem problem) => problem.isUndefinedLabel = false
  | .error (.fault _) => True

section Refusals

variable {α β : Type} {post : β → Prop} {next : α → Except Failure β}

@[simp]
theorem yields_ok {b : β} : Yields (.ok b) post ↔ post b := Iff.rfl

@[simp]
theorem yields_pure {b : β} : Yields (pure b) post ↔ post b := Iff.rfl

@[simp]
theorem yields_bind {outcome : Except Failure α} :
    Yields (outcome >>= next) post ↔ Yields outcome fun a => Yields (next a) post := by
  rcases outcome with (problem | fault) | a <;> rfl

/-- A lookup refuses nothing. -/
@[simp]
theorem yields_lift_fault {outcome : Except Fault β} : Yields (liftM outcome) post ↔
      Gives outcome post := by
  cases outcome <;> rfl

theorem yields_fault_bind {outcome : Except Fault α} :
    Yields (liftM outcome >>= next) post ↔ Gives outcome fun a => Yields (next a) post := by
  rw [yields_bind, yields_lift_fault]

theorem yields_fault_ok {outcome : Except Fault α}
    (each : ∀ a, outcome = .ok a → Yields (next a) post) : Yields (liftM outcome >>= next) post :=
  yields_fault_bind.mpr (gives_iff.mpr each)

theorem Yields.imp {outcome : Except Failure β} {weaker : β → Prop} (yields : Yields outcome post)
    (implies : ∀ b, post b → weaker b) : Yields outcome weaker := by
  rcases outcome with (problem | fault) | b
  · exact yields
  · trivial
  · exact implies b yields

end Refusals

/-! ## Actions -/

variable {change : Compiler → Compiler}

namespace Compile

variable {α β : Type} {c : Compiler} {action : Compile α} {next : α → Compile β}

/-- The action, if it does not end in a fault, ends with a result and a state that meet the
condition. -/
def Leads (action : Compile α) (c : Compiler) (post : α → Compiler → Prop) : Prop :=
  Gives (action c) fun (a, later, _) => post a later

theorem bind_ok {a : α} {b : β} {later last : Compiler}
    {problems more : List Problem} (first : action c = .ok (a, later, problems))
    (second : next a later = .ok (b, last, more)) :
    (action >>= next) c = .ok (b, last, problems ++ more) := by
  simp only [Bind.bind, first, second]

theorem bind_eq_error {fault : Fault}
    (fails : (action >>= next) c = .error fault) :
    action c = .error fault ∨
      ∃ a later problems, action c = .ok (a, later, problems) ∧ next a later = .error fault := by
  simp only [Bind.bind] at fails
  cases ran : action c with
  | error earlier => simpa [ran] using fails
  | ok outcome =>
    obtain ⟨a, later, problems⟩ := outcome
    cases ranOn : next a later with
    | error last => exact .inr ⟨a, later, problems, rfl, by simpa [ran, ranOn] using fails⟩
    | ok outcome => simp [ran, ranOn] at fails

theorem gives_bind_run {post : β × Compiler × List Problem → Prop} :
    Gives ((action >>= next) c) post ↔
      Gives (action c) fun (a, later, problems) =>
        Gives (next a later) fun (b, last, more) => post (b, last, problems ++ more) := by
  simp only [Bind.bind]
  cases action c with
  | error fault => rfl
  | ok outcome =>
    obtain ⟨a, later, problems⟩ := outcome
    simp only [gives_ok]
    cases next a later <;> rfl

section Leads

variable {post : β → Compiler → Prop}

theorem leads_bind :
    (action >>= next).Leads c post ↔ action.Leads c fun a later => (next a).Leads later post :=
  gives_bind_run

theorem leads_pure {b : β} : (pure b : Compile β).Leads c post ↔ post b c := Iff.rfl

theorem leads_get {post : Compiler → Compiler → Prop} : get.Leads c post ↔ post c c := Iff.rfl

theorem leads_get_bind {next : Compiler → Compile β} : (get >>= next).Leads c post ↔
      (next c).Leads c post :=
  leads_bind

theorem leads_modify {post : Unit → Compiler → Prop} : (modify change).Leads c post ↔
      post () (change c) :=
  Iff.rfl

theorem leads_modify_bind {next : Unit → Compile β} :
    (modify change >>= next).Leads c post ↔ (next ()).Leads (change c) post :=
  leads_bind

theorem leads_reportAll {problems : List Problem} {post : Unit → Compiler → Prop} :
    (reportAll problems).Leads c post ↔ post () c :=
  Iff.rfl

theorem leads_report {problem : Problem} {post : Unit → Compiler → Prop} :
    (report problem).Leads c post ↔ post () c :=
  Iff.rfl

theorem leads_lift {outcome : Except Fault β} :
    (liftM outcome : Compile β).Leads c post ↔ Gives outcome fun b => post b c := by
  cases outcome <;> rfl

theorem leads_lift_bind {outcome : Except Fault α} :
    (liftM outcome >>= next).Leads c post ↔ Gives outcome fun a => (next a).Leads c post :=
  leads_bind.trans leads_lift

theorem leads_lift_ok {outcome : Except Fault α}
    (each : ∀ a, outcome = .ok a → (next a).Leads c post) : (liftM outcome >>= next).Leads c post :=
  leads_lift_bind.mpr (gives_iff.mpr each)

theorem leads_attempt {outcome : Except Failure α} {post : Option α → Compiler → Prop}
    (done : Gives outcome fun a => post (some a) c) (refused : post none c) :
    (attempt outcome).Leads c post := by
  cases outcome with
  | ok a => exact done
  | error failure =>
    cases failure with
    | problem problem => exact refused
    | fault fault => trivial

theorem Leads.and {action : Compile β} {other : β → Compiler → Prop} (first : action.Leads c post)
    (second : action.Leads c other) : action.Leads c fun b later => post b later ∧ other b later :=
  gives_iff.mpr fun _ result => ⟨first.of_ok result, second.of_ok result⟩

theorem Leads.imp {action : Compile β} {weaker : β → Compiler → Prop} (leads : action.Leads c post)
    (implies : ∀ b later, post b later → weaker b later) : action.Leads c weaker :=
  Gives.imp leads fun _ => implies _ _

end Leads

/-- The action leads from every state to one that is related to it. -/
def Within (R : Compiler → Compiler → Prop) (action : Compile α) : Prop :=
  ∀ c, action.Leads c fun _ later => R c later

section Within

variable {R : Compiler → Compiler → Prop}

theorem Within.imp {S : Compiler → Compiler → Prop} (within : action.Within R)
    (implies : ∀ c later, R c later → S c later) : action.Within S :=
  fun c => (within c).imp fun _ later => implies c later

theorem within_modify (related : ∀ c, R c (change c)) : (modify change).Within R :=
  fun c => leads_modify.mpr (related c)

variable [IsPreorder Compiler R]

theorem within_pure (a : α) : (pure a : Compile α).Within R := fun c => leads_pure.mpr (refl_of R c)

theorem within_get : get.Within R := fun c => leads_get.mpr (refl_of R c)

theorem within_report (problem : Problem) : (report problem).Within R :=
  fun c => leads_report.mpr (refl_of R c)

theorem within_reportAll (problems : List Problem) : (reportAll problems).Within R :=
  fun c => leads_reportAll.mpr (refl_of R c)

theorem within_lift (outcome : Except Fault α) : (liftM outcome : Compile α).Within R :=
  fun c => leads_lift.mpr ((gives_self outcome).imp fun _ _ => refl_of R c)

theorem within_attempt (outcome : Except Failure α) : (attempt outcome).Within R :=
  fun c => leads_attempt ((gives_self outcome).imp fun _ _ => refl_of R c) (refl_of R c)

theorem Within.bind (first : action.Within R)
    (second : ∀ a, (next a).Within R) : (action >>= next).Within R := by
  intro c
  rw [leads_bind]
  refine (first c).imp fun a later toLater => ?_
  exact (second a later).imp fun _ last toLast => trans_of R toLater toLast

end Within

/-! ### Reports -/

/-- The action, if it does not end in a fault, ends with a result and a state that meet the
condition, and it reports no undefined label. -/
def Does (action : Compile α) (c : Compiler) (post : α → Compiler → Prop) : Prop :=
  Gives (action c) fun (a, later, problems) => post a later ∧ ∀ problem ∈ problems,
    problem.isUndefinedLabel = false

section Does

variable {post : β → Compiler → Prop}

theorem Does.imp {action : Compile β} {weaker : β → Compiler → Prop} (does : action.Does c post)
    (implies : ∀ b later, post b later → weaker b later) : action.Does c weaker :=
  Gives.imp does fun _ ⟨here, quiet⟩ => ⟨implies _ _ here, quiet⟩

theorem Does.bind {mid : α → Compiler → Prop} (first : action.Does c mid)
    (second : ∀ a later, mid a later → (next a).Does later post) :
    (action >>= next).Does c post := by
  refine gives_bind_run.mpr (Gives.imp first ?_)
  rintro ⟨a, later, problems⟩ ⟨here, quiet⟩
  refine Gives.imp (second a later here) ?_
  rintro ⟨b, last, more⟩ ⟨there, stillQuiet⟩
  exact ⟨there, forall_mem_append.mpr ⟨quiet, stillQuiet⟩⟩

theorem does_pure {b : β} (here : post b c) : (pure b : Compile β).Does c post :=
  ⟨here, forall_mem_nil _⟩

theorem does_get_bind {next : Compiler → Compile β} (rest : (next c).Does c post) :
    (get >>= next).Does c post := by
  have gets : get.Does c fun a later => a = c ∧ later = c := ⟨⟨rfl, rfl⟩, forall_mem_nil _⟩
  refine gets.bind ?_
  rintro _ _ ⟨rfl, rfl⟩
  exact rest

theorem does_modify {post : Unit → Compiler → Prop} (here : post () (change c)) :
    (modify change).Does c post :=
  ⟨here, forall_mem_nil _⟩

theorem does_modify_bind {next : Unit → Compile β}
    (rest : (next ()).Does (change c) post) : (modify change >>= next).Does c post := by
  have changes : (modify change).Does c fun _ later => later = change c := does_modify rfl
  refine changes.bind ?_
  rintro _ _ rfl
  exact rest

theorem does_reportAll {problems : List Problem} {post : Unit → Compiler → Prop} (here : post () c)
    (quiet : ∀ problem ∈ problems, problem.isUndefinedLabel = false) :
    (reportAll problems).Does c post :=
  ⟨here, quiet⟩

theorem does_report {problem : Problem} {post : Unit → Compiler → Prop} (here : post () c)
    (quiet : problem.isUndefinedLabel = false) : (report problem).Does c post :=
  ⟨here, forall_mem_singleton.mpr quiet⟩

theorem does_report_bind {problem : Problem} {next : Unit → Compile β}
    (quiet : problem.isUndefinedLabel = false) (rest : (next ()).Does c post) :
    (report problem >>= next).Does c post := by
  have reports : (report problem).Does c fun _ later => later = c := does_report rfl quiet
  refine reports.bind ?_
  rintro _ _ rfl
  exact rest

theorem does_pure_bind {a : α} (rest : (next a).Does c post) :
    (pure a >>= next : Compile β).Does c post := by
  have same : (pure a : Compile α).Does c fun b later => b = a ∧ later = c := does_pure ⟨rfl, rfl⟩
  refine same.bind ?_
  rintro _ _ ⟨rfl, rfl⟩
  exact rest

theorem does_lift {outcome : Except Fault β} (gives : Gives outcome fun b => post b c) :
    (liftM outcome : Compile β).Does c post := by
  cases outcome with
  | error fault => trivial
  | ok b => exact does_pure gives

theorem does_lift_bind {outcome : Except Fault α} {p : α → Prop} (gives : Gives outcome p)
    (rest : ∀ a, p a → (next a).Does c post) : (liftM outcome >>= next : Compile β).Does c post := by
  cases outcome with
  | error fault => trivial
  | ok a => exact does_pure_bind (rest a gives)

theorem does_attempt_bind {outcome : Except Failure α} {p : α → Prop} {next : Option α → Compile β}
    (yields : Yields outcome p) (done : ∀ a, p a → (next (some a)).Does c post)
    (refused : (next none).Does c post) : (attempt outcome >>= next).Does c post := by
  rcases outcome with (problem | fault) | a
  · have declines : (attempt (.error (.problem problem)) : Compile (Option α)).Does c fun found later =>
        found = none ∧ later = c :=
      does_report_bind yields (does_pure ⟨rfl, rfl⟩)
    refine declines.bind ?_
    rintro _ _ ⟨rfl, rfl⟩
    exact refused
  · trivial
  · exact does_pure_bind (done a yields)

end Does

/-- The action leads from every state to one that is related to it, and reports no undefined
label. -/
def Always (R : Compiler → Compiler → Prop) (action : Compile α) : Prop :=
  ∀ c, action.Does c fun _ later => R c later

section Always

variable {R : Compiler → Compiler → Prop}

theorem Always.within (always : action.Always R) : action.Within R :=
  fun c => Gives.imp (always c) fun _ here => here.1

variable [IsPreorder Compiler R]

theorem always_pure (a : α) : (pure a : Compile α).Always R := fun c => does_pure (refl_of R c)

theorem always_get : get.Always R := fun c => ⟨refl_of R c, forall_mem_nil _⟩

theorem always_report {problem : Problem} (quiet : problem.isUndefinedLabel = false) :
    (report problem).Always R :=
  fun c => does_report (refl_of R c) quiet

theorem Always.bind (first : action.Always R)
    (second : ∀ a, (next a).Always R) : (action >>= next).Always R :=
  fun c => (first c).bind fun a later toLater => (second a later).imp fun _ _ toLast =>
    trans_of R toLater toLast

end Always

end Compile

/-! ## Outlines -/

/-- A method without its code: what its head declares. -/
def MethodDraft.outline (method : MethodDraft) : MethodDraft where
  slot := method.slot
  isStatic := method.isStatic
  params := method.params
  paramsOpen := method.paramsOpen

/-- A type without the code of its open methods. -/
def TypeDraft.outline (draft : TypeDraft) : TypeDraft :=
  { draft with openMethods := draft.openMethods.map (·.outline) }

/-- A session without the code of its open methods. -/
def Session.outline (session : Session) : Session :=
  { session with drafts := session.drafts.map (·.outline) }

/-- The bracket that a frame belongs to. -/
def Frame.bracket (frame : Frame) : Bracket := if frame.isSequence then .sequence else .statement

/-- What the compiler remembers between two tokens, apart from the expression under way and the code
of methods. -/
structure Outline where
  session : Session
  files : FileTree
  stream : List Token
  space : String
  usings : List String
  nesting : Nesting
  /-- the open brackets of the expression, innermost first -/
  brackets : List Bracket
  blocks : List BlockOwner
  pendingExtends : Bool
  interfaces : Option String
  needEnd : Option EndReason
  inDirective : Bool
  tryRegion : Bool
  methodAttrs : MethodAttrs
  imported : List String

/-- The numbers of open brackets change. -/
def Outline.count (nesting : Nesting) (outline : Outline) : Outline :=
  { outline with nesting := nesting }

/-- A bracket opens. -/
def Outline.push (bracket : Bracket) (outline : Outline) : Outline :=
  { outline with brackets := bracket :: outline.brackets }

/-- The innermost open bracket closes. -/
def Outline.pop (outline : Outline) : Outline := { outline with brackets := outline.brackets.tail }

/-- The outline of a state. -/
def Compiler.outline (c : Compiler) : Outline where
  session := c.session.outline
  files := c.files
  stream := c.stream
  space := c.space
  usings := c.usings
  nesting := c.nesting
  brackets := c.frames.map (·.bracket)
  blocks := c.blocks
  pendingExtends := c.pendingExtends
  interfaces := c.interfaces
  needEnd := c.needEnd
  inDirective := c.inDirective
  tryRegion := c.tryRegion
  methodAttrs := c.methodAttrs
  imported := c.imported

/-- The two states have the same outline. -/
def Compiler.Alike (c later : Compiler) : Prop := later.outline = c.outline

instance : IsPreorder Compiler Compiler.Alike where
  refl _ := rfl
  trans _ _ _ first second := second.trans first

abbrev Compile.Alike {α : Type} (action : Compile α) : Prop := action.Within Compiler.Alike

theorem Compile.alike_modify (same : ∀ c, (change c).outline = c.outline) : (modify change).Alike :=
  within_modify same

theorem Compile.alike_modifyFrame {change : Frame → Frame}
    (same : ∀ frame, (change frame).bracket = frame.bracket) :
    (modify (·.modifyFrame change)).Alike := by
  refine alike_modify fun c => ?_
  rw [Compiler.modifyFrame]
  split
  · rfl
  · rename_i frame rest frames
    simp [Compiler.outline, frames, same]

/-! ## Emission -/

namespace Session

variable {session : Session} {draft : TypeDraft}

/-- The current type is the open draft at the position of the innermost open type, or else of the
default type. -/
theorem currentType?_eq_some (found : session.currentType? = .ok (some draft)) :
    ∃ index, session.current? = .ok (some (index, draft)) := by
  rw [currentType?] at found
  rcases current : session.current? with fault | - | ⟨index, other⟩ <;>
    simp [current, bind, Except.bind, pure, Except.pure] at found
  exact ⟨index, by rw [found]⟩

theorem current?_eq_some {index : Nat} (found : session.current? = .ok (some (index, draft))) :
    session.openTypes.head?.or session.defaultType = some index ∧
      session.drafts[index]? = some draft ∧ draft.isOpen = true := by
  rw [current?] at found
  split at found
  · cases found
  · rename_i place isCurrent
    cases stored : session.drafts[place]? with
    | none => simp [Session.draft, stored, bind, Except.bind] at found
    | some held =>
      by_cases isOpen : held.isOpen = true
      · simp [Session.draft, stored, isOpen, bind, Except.bind, pure, Except.pure] at found
        obtain ⟨rfl, rfl⟩ := found
        exact ⟨isCurrent, stored, isOpen⟩
      · simp [Session.draft, stored, isOpen, bind, Except.bind, pure, Except.pure] at found

theorem currentMethod?_eq_some {method : MethodDraft}
    (found : session.currentMethod? = .ok (some method)) :
    ∃ index draft rest, session.current? = .ok (some (index, draft)) ∧
      draft.openMethods = method :: rest := by
  rw [currentMethod?, currentType?] at found
  cases current : session.current? with
  | error fault => simp [current, bind, Except.bind] at found
  | ok entry =>
    cases entry with
    | none => simp [current, bind, Except.bind, pure, Except.pure] at found
    | some entry =>
      obtain ⟨index, draft⟩ := entry
      simp only [current, bind, Except.bind, pure, Except.pure, Option.map_some, Option.bind_some,
        Except.ok.injEq, TypeDraft.currentMethod?, head?_eq_some_iff] at found
      obtain ⟨rest, openMethods⟩ := found
      exact ⟨index, draft, rest, rfl, openMethods⟩

theorem setMethod_of_current {index : Nat} {method : MethodDraft} {rest : List MethodDraft}
    (current : session.current? = .ok (some (index, draft)))
    (openMethods : draft.openMethods = method :: rest) :
    session.currentMethod? = .ok (some method) ∧ ∀ changed, session.setMethod changed =
      .ok (session.setDraft index { draft with openMethods := changed :: rest }) := by
  simp [currentMethod?, currentType?, setMethod, modifyType, current, TypeDraft.currentMethod?,
    TypeDraft.setMethod, openMethods, bind, Except.bind, pure, Except.pure]

theorem outline_setDraft {index : Nat} {draft changed : TypeDraft}
    (here : session.drafts[index]? = some draft) (same : changed.outline = draft.outline) :
    (session.setDraft index changed).outline = session.outline := by
  have kept : (session.drafts.set index changed).map (·.outline) = session.drafts.map (·.outline) := by
    rw [map_set, same]
    obtain ⟨inRange, rfl⟩ := List.getElem?_eq_some_iff.mp here
    have mapped : index < (session.drafts.map (·.outline)).length := by simpa using inRange
    simpa using set_getElem_self mapped
  simp [outline, setDraft, kept]

theorem gives_setMethod {method changed : MethodDraft}
    (current : session.currentMethod? = .ok (some method))
    (same : changed.outline = method.outline) : Gives (session.setMethod changed) fun later =>
      later.outline = session.outline := by
  obtain ⟨index, draft, rest, found, openMethods⟩ := currentMethod?_eq_some current
  obtain ⟨-, here, -⟩ := current?_eq_some found
  rw [setMethod, modifyType, found]
  refine gives_ok.mpr (outline_setDraft here ?_)
  simp [TypeDraft.outline, TypeDraft.setMethod, openMethods, same]

end Session

namespace Compile

variable {α : Type}

theorem alike_emitting {work : SymbolTable → MethodDraft → Except Failure (α × MethodDraft)}
    (works : ∀ table method, Gives (work table method) fun (_, later) =>
      later.outline = method.outline) :
    (emitting work).Alike := by
  intro c
  rw [emitting, leads_get_bind]
  refine leads_lift_ok fun found current => ?_
  cases found with
  | none =>
    rw [leads_bind, leads_report, leads_pure]
    exact refl_of _ c
  | some method =>
    rw [leads_bind]
    refine leads_attempt ((works _ method).imp fun (a, changed) same => ?_)
      (leads_pure.mpr (refl_of _ c))
    rw [leads_lift_bind]
    refine (Session.gives_setMethod current same).imp fun session kept => ?_
    rw [leads_modify_bind, leads_pure]
    simp [Compiler.Alike, Compiler.outline, kept]

theorem alike_emit {work : MethodDraft → MethodDraft}
    (works : ∀ method, (work method).outline = method.outline) : (emit work).Alike :=
  (alike_emitting fun _ method => gives_ok.mpr (works method)).bind fun _ => within_pure ()

theorem alike_position : position?.Alike :=
  within_get.bind fun _ => (within_lift _).bind fun _ => within_pure _

end Compile

end OnePass
