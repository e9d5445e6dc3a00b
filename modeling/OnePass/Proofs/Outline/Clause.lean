import OnePass.Proofs.Outline.Action
import Mathlib.Logic.Relation

/-! # Directives and clauses of types

Directives, base types and lists of interfaces leave the code and the expression under way alone.
`Compiler.Notes` lists the changes that they are made of, one constructor for each, and an action is
`Compile.Noting` if it makes no others and ends in a fault only where a type that it looks up is not
there. A preorder that has these changes has all directives and clauses with them
(`Compile.Noting.always`). -/

namespace OnePass

/-- A base type or an interface is named. -/
abbrev TypeDraft.Names (draft : TypeDraft) (name : String) (changed : TypeDraft) : Prop :=
  draft.extend name = some changed ∨ draft.implement name = some changed

open Relation

/-- Whether a directive can take a token as an argument. -/
def Token.isArgument : Token → Bool
  | .literal _ | .separator _ | .value _ => true
  | _ => false

/-- A change that is made by directives and clauses of types. -/
inductive Compiler.Notes (c : Compiler) : Compiler → Prop
  /-- arguments of a directive leave the stream -/
  | takes {taken rest : List Token} (stream : c.stream = taken ++ rest)
      (arguments : ∀ token ∈ taken, token.isArgument = true) : c.Notes { c with stream := rest }
  /-- a base or an interface of a type is named -/
  | amends {index : Nat} {draft changed : TypeDraft} {name : String} (here : c.session.drafts[index]? = some draft)
      (named : draft.Names name changed) :
      c.Notes { c with session := c.session.setDraft index changed }
  | setsOutput (output : OutputKind) : c.Notes { c with session := c.session.setOutput output }
  | setsConstant (name : String) (value : Literal) : c.Notes { c with session := c.session.setConstant name value }
  /-- the name under way changes, where a list of interfaces is read -/
  | lists {current : String} (reading : c.interfaces = some current) (name : Option String) :
      c.Notes { c with interfaces := name }
  /-- it is noted what the next tokens mean -/
  | flags (pendingExtends tryRegion : Bool) (needEnd : Option EndReason) (methodAttrs : MethodAttrs) :
      c.Notes { c with
        pendingExtends := pendingExtends, tryRegion := tryRegion, needEnd := needEnd, methodAttrs :=
          methodAttrs }

namespace Session

variable {session : Session}

theorem default?_eq_some {index : Nat} {draft : TypeDraft}
    (found : session.default? = .ok (some (index, draft))) :
    session.drafts[index]? = some draft := by
  rw [default?] at found
  split at found
  · cases found
  · rename_i place isDefault
    cases stored : session.drafts[place]? with
    | none => simp [Session.draft, stored, bind, Except.bind] at found
    | some held =>
      simp [Session.draft, stored, bind, Except.bind, pure, Except.pure] at found
      obtain ⟨rfl, rfl⟩ := found
      exact stored

/-- The open types and the default type are among the drafts. -/
def Placed (session : Session) : Prop :=
  ∀ index, index ∈ session.openTypes ∨ index ∈ session.defaultType → index < session.drafts.length

theorem Placed.current?_ne_error (placed : session.Placed) (fault : Fault) :
    session.current? ≠ .error fault := by
  rw [current?]
  split
  · simp
  · rename_i index isCurrent
    have inRange : index < session.drafts.length := by
      rcases Option.or_eq_some_iff.mp isCurrent with isFirst | ⟨-, isDefault⟩
      · exact placed index (.inl (List.mem_of_mem_head? isFirst))
      · exact placed index (.inr isDefault)
    simp [Session.draft, inRange, bind, Except.bind, pure, Except.pure]

theorem Placed.default?_ne_error (placed : session.Placed) (fault : Fault) :
    session.default? ≠ .error fault := by
  rw [default?]
  split
  · simp
  · rename_i index isDefault
    simp [Session.draft, placed index (.inr isDefault), bind, Except.bind, pure, Except.pure]

end Session

theorem Compiler.Notes.placed {c later : Compiler} (notes : c.Notes later)
    (placed : c.session.Placed) : later.session.Placed := by
  cases notes with
  | takes | lists | flags | setsOutput | setsConstant => exact placed
  | amends => simpa [Session.Placed, Session.setDraft] using placed

namespace Compile

variable {α β : Type} {c : Compiler} {action : Compile α} {next : α → Compile β}

/-- In this state the action notes something, again and again, and does nothing else. -/
def NotesAt (action : Compile α) (c : Compiler) : Prop :=
  (action.Does c fun _ later => ReflTransGen Compiler.Notes c later) ∧
    ∀ fault, action c = .error fault → ¬ c.session.Placed

/-- The action only notes something. -/
def Noting (action : Compile α) : Prop := ∀ c, action.NotesAt c

/-- A preorder that has all changes has what they lead to. -/
theorem Noting.always (noting : action.Noting) {R : Compiler → Compiler → Prop}
    [IsPreorder Compiler R] (each : ∀ c later : Compiler, c.Notes later → R c later) :
    action.Always R := by
  refine fun c => (noting c).1.imp fun _ later notes => ?_
  induction notes with
  | refl => exact refl_of R c
  | tail _ last ih => exact trans_of R ih (each _ _ last)

theorem noting_pure (a : α) : (pure a : Compile α).Noting :=
  fun _ => ⟨does_pure .refl, fun _ fails => by cases fails⟩

theorem noting_report {problem : Problem} (quiet : problem.isUndefinedLabel = false) :
    (report problem).Noting :=
  fun _ => ⟨does_report .refl quiet, fun _ fails => by cases fails⟩

theorem notesAt_modify {change : Compiler → Compiler} (notes : c.Notes (change c)) :
    (modify change).NotesAt c :=
  ⟨does_modify (.single notes), fun _ fails => by cases fails⟩

theorem NotesAt.bind (first : action.NotesAt c)
    (second : ∀ a, (next a).Noting) : (action >>= next).NotesAt c := by
  refine ⟨first.1.bind fun a later notes => (second a later).1.imp fun _ _ more =>
    notes.trans more, ?_⟩
  intro fault fails placed
  rcases bind_eq_error fails with failsHere | ⟨a, later, problems, ran, failsThere⟩
  · exact first.2 fault failsHere placed
  have notes : ReflTransGen Compiler.Notes c later := (Gives.of_ok first.1 ran).1
  refine (second a later).2 fault failsThere ?_
  clear ran failsThere
  induction notes with
  | refl => exact placed
  | tail _ last ih => exact last.placed ih

theorem Noting.bind (first : action.Noting)
    (second : ∀ a, (next a).Noting) : (action >>= next).Noting :=
  fun c => (first c).bind second

theorem notesAt_get_bind {next : Compiler → Compile β} (rest : (next c).NotesAt c) :
    (get >>= next).NotesAt c := by
  refine ⟨does_get_bind rest.1, fun fault fails => ?_⟩
  rcases bind_eq_error fails with gets | ⟨a, later, problems, gets, failsThere⟩ <;> cases gets
  exact rest.2 fault failsThere

theorem noting_get_bind {next : Compiler → Compile β} (rest : ∀ c, (next c).Noting) :
    (get >>= next).Noting :=
  fun c => notesAt_get_bind (rest c c)

theorem notesAt_lift_bind {outcome : Except Fault α}
    (found : ∀ fault, c.session.Placed → outcome ≠ .error fault)
    (rest : ∀ a, outcome = .ok a → (next a).NotesAt c) :
    (liftM outcome >>= next : Compile β).NotesAt c := by
  cases outcome with
  | error fault => exact ⟨trivial, fun _ _ placed => found fault placed rfl⟩
  | ok a =>
    refine ⟨does_pure_bind (rest a rfl).1, fun fault fails => ?_⟩
    rcases bind_eq_error fails with gives | ⟨b, later, problems, gives, failsThere⟩ <;> cases gives
    exact (rest a rfl).2 fault failsThere

/-! ## Directives -/

theorem noting_nextLiteral : nextLiteral.Noting := by
  intro c
  rw [nextLiteral]
  refine notesAt_get_bind ?_
  split
  · rename_i text rest stream
    exact (notesAt_modify (.takes stream (List.forall_mem_singleton.mpr rfl))).bind fun _ =>
      noting_pure _
  · exact noting_pure _ c

theorem splitNames_arguments (current : String) (tokens : List Token) :
    ∃ taken, tokens = taken ++ (splitNames current tokens).2 ∧ ∀ token ∈ taken,
      token.isArgument = true := by
  fun_induction splitNames current tokens with
  | case1 current text rest ih | case2 current rest ih =>
    obtain ⟨taken, stream, arguments⟩ := ih
    exact ⟨_ :: taken, congrArg (_ :: ·) stream, List.forall_mem_cons.mpr ⟨rfl, arguments⟩⟩
  | case3 current rest names last split_eq ih =>
    obtain ⟨taken, stream, arguments⟩ := ih
    rw [split_eq] at stream
    exact ⟨_ :: taken, congrArg (_ :: ·) stream, List.forall_mem_cons.mpr ⟨rfl, arguments⟩⟩
  | case4 current tokens => exact ⟨[], rfl, List.forall_mem_nil _⟩

theorem noting_nextNames : nextNames.Noting := by
  intro c
  obtain ⟨taken, stream, arguments⟩ := splitNames_arguments "" c.stream
  rw [nextNames]
  exact notesAt_get_bind ((notesAt_modify (.takes stream arguments)).bind fun _ => noting_pure _)

section Amend

variable {change : TypeDraft → Option TypeDraft} {name : String} {refusal : Problem}

theorem notesAt_amend {found : Option (Nat × TypeDraft)}
    (here : ∀ index draft, found = some (index, draft) → c.session.drafts[index]? = some draft)
    (names : ∀ draft changed, change draft = some changed → draft.Names name changed)
    (quiet : refusal.isUndefinedLabel = false) :
    (match c.session.amend found change with
      | some session => modify ({ · with session := session })
      | none => report refusal).NotesAt c := by
  cases amended : c.session.amend found change with
  | none => exact noting_report quiet c
  | some session =>
    rw [Session.amend] at amended
    cases found with
    | none => cases amended
    | some entry =>
      obtain ⟨index, draft⟩ := entry
      cases changes : change draft with
      | none => simp [changes] at amended
      | some changed =>
        obtain rfl : c.session.setDraft index changed = session := by simpa [changes] using amended
        exact notesAt_modify (.amends (here index draft rfl) (names draft changed changes))

theorem noting_amendCurrent (names : ∀ draft changed, change draft = some changed →
      draft.Names name changed)
    (quiet : refusal.isUndefinedLabel = false) : (amendCurrent change refusal).Noting := by
  intro c
  rw [amendCurrent]
  refine notesAt_get_bind (notesAt_lift_bind (fun _ placed => placed.current?_ne_error _)
    fun found isCurrent => ?_)
  refine notesAt_amend (fun index draft isHere => ?_) names quiet
  rw [isHere] at isCurrent
  exact (Session.current?_eq_some isCurrent).2.1

theorem noting_amendDefault (names : ∀ draft changed, change draft = some changed →
      draft.Names name changed)
    (quiet : refusal.isUndefinedLabel = false) : (amendDefault change refusal).Noting := by
  intro c
  rw [amendDefault]
  refine notesAt_get_bind (notesAt_lift_bind (fun _ placed => placed.default?_ne_error _)
    fun found isDefault => ?_)
  refine notesAt_amend (fun index draft isHere => ?_) names quiet
  rw [isHere] at isDefault
  exact Session.default?_eq_some isDefault

end Amend

theorem noting_extendsDirective : extendsDirective.Noting := by
  rw [extendsDirective]
  refine Noting.bind noting_nextLiteral fun name => ?_
  cases name with
  | none => exact noting_report rfl
  | some name =>
    refine noting_get_bind fun c => ?_
    split
    · exact noting_report rfl
    · exact noting_amendDefault (fun _ _ extended => .inl extended) rfl

theorem noting_implementsDirective : implementsDirective.Noting := by
  have all (names : List String) : (names.forM fun name =>
      amendDefault (·.implement name) (.classClosedToImplement name)).Noting := by
    induction names with
    | nil => exact noting_pure ()
    | cons name names ih =>
      exact Noting.bind (noting_amendDefault (fun _ _ implemented => .inr implemented) rfl) fun _ => ih
  rw [implementsDirective]
  refine Noting.bind noting_nextNames fun names => noting_get_bind fun c => ?_
  split
  · exact noting_report rfl
  · exact all names

theorem noting_outtypeDirective : outtypeDirective.Noting := by
  rw [outtypeDirective]
  refine Noting.bind noting_nextLiteral fun name => ?_
  dsimp only
  split
  · exact fun _ => notesAt_modify (.setsOutput _)
  · exact noting_report rfl

theorem noting_constDirective : constDirective.Noting := by
  rw [constDirective]
  refine Noting.bind noting_nextLiteral fun name => ?_
  cases name with
  | none => exact noting_report rfl
  | some name =>
    refine fun c => notesAt_get_bind ?_
    split
    · rename_i value rest stream
      have taken : c.Notes { c with stream := rest } := .takes stream (List.forall_mem_singleton.mpr rfl)
      exact ⟨does_modify (.tail (.single taken) (.setsConstant name value)),
        fun _ fails => by cases fails⟩
    · exact noting_report rfl c

theorem noting_directive (name : String) : (directive name).Noting := by
  unfold directive
  split
  · exact noting_extendsDirective
  · exact noting_implementsDirective
  · exact noting_outtypeDirective
  · exact fun _ => notesAt_modify (.flags _ _ _ _)
  · exact fun _ => notesAt_modify (.flags _ _ _ _)
  · exact fun _ => notesAt_modify (.flags _ _ _ _)
  · exact noting_constDirective
  · exact noting_report rfl

/-! ## Clauses -/

theorem noting_implementCurrent (name : String) : (implementCurrent name).Noting := by
  rw [implementCurrent]
  split
  · exact noting_pure ()
  · exact noting_amendCurrent (fun _ _ implemented => .inr implemented) rfl

theorem noting_readBase (token : Token) : (readBase token).Noting := by
  unfold readBase
  refine noting_get_bind fun c => ?_
  split
  · exact noting_pure _
  refine Noting.bind (fun _ => notesAt_modify (.flags _ _ _ _)) fun _ => ?_
  split
  · refine Noting.bind (noting_amendCurrent (fun _ _ extended => .inl extended) rfl) fun _ => ?_
    exact Noting.bind (fun _ => notesAt_modify (.flags _ _ _ _)) fun _ => noting_pure _
  · exact (noting_report rfl).bind fun _ => noting_pure _

/-- Where a list of interfaces is read, the name under way changes and then something follows. -/
theorem notesAt_lists_bind {current : String} (reading : c.interfaces = some current)
    {name : Option String} {next : Unit → Compile α} (follows : (next ()).Noting) :
    (modify ({ · with interfaces := name }) >>= next).NotesAt c :=
  (notesAt_modify (.lists reading name)).bind fun _ => follows

theorem noting_readInterfaces (token : Token) : (readInterfaces token).Noting := by
  intro c
  have ends (current : String) (used : Bool) : (implementCurrent current >>= fun _ =>
      pure used).Noting :=
    Noting.bind (noting_implementCurrent current) fun _ => noting_pure used
  unfold readInterfaces
  refine notesAt_get_bind ?_
  cases reading : c.interfaces with
  | none => exact noting_pure _ c
  | some current =>
    -- A word, a dot, a comma, a new line, and the end of the list or a token that has no place in
    -- it.
    dsimp only
    split
    · split
      · exact notesAt_lists_bind reading (noting_pure _)
      · exact notesAt_lists_bind reading (ends _ _)
    · split
      · exact (noting_report rfl c).bind fun _ => noting_pure _
      · exact notesAt_lists_bind reading (noting_pure _)
    · exact notesAt_lists_bind reading (ends _ _)
    · exact noting_pure _ c
    · split
      · exact notesAt_lists_bind reading (ends _ _)
      · exact (noting_report rfl c).bind fun _ => noting_pure _

theorem noting_checkEnd (token : Token) : (checkEnd token).Noting := by
  unfold checkEnd
  refine noting_get_bind fun c => ?_
  split
  · exact noting_pure ()
  rename_i reason _
  split
  · exact noting_pure ()
  refine Noting.bind (fun _ => notesAt_modify (.flags _ _ _ _)) fun _ => ?_
  split
  · exact noting_report (by cases reason <;> rfl)
  · exact noting_pure ()

end Compile

end OnePass
