import OnePass.Proofs.Layout.Expression
import OnePass.Proofs.Inclusion
import OnePass.Proofs.Outline.Declaration

/-! # Declarations keep the code that stands

What is declared for a whole file, for a type or for a module does not touch the methods. A variable
is declared in the current method, whose code it leaves alone. None of this is refused for want of a
label. -/

namespace OnePass

open Compiler Session

/-! ## Refusals -/

theorem yields_lift_bind {α β : Type} {outcome : Except Problem α} {next : α → Except Problem β}
    {post : β → Prop} : Yields (liftM (outcome >>= next)) post ↔ Yields (liftM outcome) fun a =>
      Yields (liftM (next a)) post := by
  cases outcome <;> rfl

theorem FileTree.yields_moduleImage (files : FileTree) (options : BuildOptions) (path : String) :
    Yields (liftM (files.moduleImage options path)) fun _ => True := by
  unfold moduleImage
  dsimp only
  repeat' split
  all_goals first | rfl | trivial

theorem FileTree.yields_libraryTokens (files : FileTree) (options : BuildOptions) (path : String) :
    Yields (liftM (files.libraryTokens options path)) fun _ => True := by
  unfold libraryTokens
  dsimp only
  repeat' split
  all_goals first | rfl | trivial

namespace ModuleImage

variable {table : SymbolTable} {problem : Problem}

theorem quiet_checkNames {seen : List String} {types : List TypeImage}
    (refused : checkNames table seen types = .error problem) : problem.isUndefinedLabel = false := by
  induction types generalizing seen with
  | nil => cases refused
  | cons type rest ih =>
    rw [checkNames] at refused
    split at refused
    · cases refused
      rfl
    · exact ih refused

theorem quiet_checkReferences {own : List String} {types : List TypeImage}
    (refused : checkReferences table own types = .error problem) :
    problem.isUndefinedLabel = false := by
  induction types with
  | nil => cases refused
  | cons type rest ih =>
    rw [checkReferences] at refused
    split at refused
    · cases refused
      rfl
    · exact ih refused

theorem yields_register (image : ModuleImage) (table : SymbolTable) :
    Yields (image.register table) fun _ => True := by
  by_cases fits : image.FitsInto table
  · obtain ⟨ids, later, installed, -⟩ := install_of_fits fits
    rw [register, installed]
    trivial
  cases names : checkNames table [] image.types with
  | error problem =>
    have refused : image.register table = .error (.problem problem) := by
      simp only [register, install, EStateM.run, bind, EStateM.bind, get, getThe, MonadStateOf.get,
        EStateM.get, names, orStop, throw, throwThe, MonadExceptOf.throw, EStateM.throw]
    rw [refused]
    exact quiet_checkNames names
  | ok _ =>
    cases references : checkReferences table (image.types.map (·.fullName)) image.types with
    | ok _ => exact absurd (checks_eq_ok_iff.mp ⟨names, references⟩) fits
    | error problem =>
      have refused : image.register table = .error (.problem problem) := by
        simp only [register, install, EStateM.run, bind, EStateM.bind, get, getThe,
          MonadStateOf.get, EStateM.get, names, references, orStop, pure, EStateM.pure, throw,
            throwThe, MonadExceptOf.throw, EStateM.throw]
      rw [refused]
      exact quiet_checkReferences references

end ModuleImage

/-! ## What touches no method -/

namespace Compile

variable {α : Type} {c : Compiler}

theorem untouched_withSession {session : Session} (drafts : session.drafts = c.session.drafts)
    (openTypes : session.openTypes = c.session.openTypes)
    (defaultType : session.defaultType = c.session.defaultType) :
    c.Untouched { c with session := session } :=
  ⟨untouched_of_drafts_eq drafts openTypes defaultType, rfl, rfl, List.Subset.refl _, rfl⟩

/-- No directive and no clause touches a method. -/
theorem untouched_of_notes {later : Compiler} (notes : c.Notes later) : c.Untouched later := by
  cases notes with
  | takes | lists | flags => exact untouched_of_site_eq rfl
  | setsOutput | setsConstant => exact untouched_withSession rfl rfl rfl
  | amends here named =>
    obtain ⟨-, isOpen, bodies, openMethods⟩ := TypeDraft.methods_of_named named
    exact ⟨Session.untouched_setDraft here isOpen openMethods bodies, rfl, rfl,
      List.Subset.refl _, rfl⟩

theorem Noting.untouched {action : Compile α} (noting : action.Noting) :
    action.Always Compiler.Untouched :=
  noting.always fun _ _ => untouched_of_notes

theorem does_checkEnd (token : Token) : (checkEnd token).Does c fun _ later =>
    ∃ needEnd, later = { c with needEnd := needEnd } := by
  unfold checkEnd
  refine does_get_bind ?_
  split
  · exact does_pure ⟨_, rfl⟩
  rename_i reason _
  split
  · exact does_pure ⟨_, rfl⟩
  refine does_modify_bind ?_
  split
  · exact does_report ⟨_, rfl⟩ (by cases reason <;> rfl)
  · exact does_pure ⟨_, rfl⟩

/-- What a declaration for the whole file can change: the table, the namespaces and the tokens that
are left. -/
abbrev Declares (c later : Compiler) : Prop := ∃ table space usings stream imported, later = { c with
  session := { c.session with table := table }
  space := space, usings := usings, stream := stream, imported := imported }

theorem does_declaration (token : Token) : (declaration token).Does c fun _ later =>
      Declares c later := by
  rw [declaration]
  refine does_get_bind ?_
  split
  · exact does_pure ⟨_, _, _, _, _, rfl⟩
  rename_i result declared
  refine does_attempt_bind (p := Declares c) ?_ (fun _ declares => does_modify declares)
    (does_pure ⟨_, _, _, _, _, rfl⟩)
  cases token with
  | enterNamespace name =>
    cases declared
    rw [Compiler.enterNamespace]
    split
    · rfl
    · exact ⟨_, _, _, _, _, rfl⟩
  | usingNamespace name =>
    cases declared
    rw [yields_ok, useNamespace]
    split <;> exact ⟨_, _, _, _, _, rfl⟩
  | includeModule path =>
    cases declared
    rw [Compiler.includeModule, yields_bind]
    refine (c.files.yields_moduleImage _ path).imp fun image _ => ?_
    rw [yields_bind]
    exact (image.yields_register _).imp fun _ _ => ⟨_, _, _, _, _, rfl⟩
  | importLibrary path =>
    cases declared
    rw [Compiler.importLibrary]
    split
    · exact ⟨_, _, _, _, _, rfl⟩
    · rw [yields_lift_bind]
      exact (c.files.yields_libraryTokens _ path).imp fun _ _ => ⟨_, _, _, _, _, rfl⟩
  | _ => cases declared

theorem always_declaration (token : Token) : (declaration token).Always Compiler.Untouched := by
  refine fun c => (does_declaration token).imp ?_
  rintro _ _ ⟨_, _, _, _, _, rfl⟩
  exact ⟨untouched_of_drafts_eq rfl rfl rfl, rfl, rfl, List.Subset.refl _, rfl⟩

end Compile

/-- At most the parameters of the current method are closed where a body begins. -/
theorem Session.gives_beginBody {session : Session} {owner : BlockOwner} {post : Session → Prop}
    (untouched : ∀ later, session.Untouched later → post later)
    (closes : ∀ method, session.currentMethod? = .ok (some method) →
      Gives (session.setMethod method.closeParams) post) :
    Gives (session.modifyType (Compile.beginBody owner)) post := by
  refine gives_of_modifyType (fun _ => untouched _ (.refl session)) fun index draft current => ?_
  obtain ⟨-, here, -⟩ := current?_eq_some current
  unfold Compile.beginBody
  split
  · exact untouched _ (untouched_setDraft here rfl rfl rfl)
  · rename_i method rest openMethods
    obtain ⟨isCurrent, sets⟩ := setMethod_of_current current openMethods
    exact (closes method isCurrent).of_ok (sets _)
  · exact untouched _ (untouched_setDraft here rfl rfl rfl)

/-! ## Variables -/

namespace MethodDraft

variable {g : Guard} [g.Loose] {method : MethodDraft}

theorem edits_declare (le : g.keep ≤ method.position) {params : List Param} {declared : LocalTable}
    (paramsOpen : Bool) (params_le : method.params.length ≤ params.length)
    (locals_le : method.locals.length ≤ declared.defs.length) :
    method.Edits g { method with params := params, declared := declared, paramsOpen := paramsOpen }
      where
  outline := Guard.loose
  slot := rfl
  isStatic := rfl
  params := params_le
  locals := locals_le
  labels := rfl
  fixups := rfl
  le := le
  stands := rfl
  fresh _ here := .inl here

theorem edits_declareParam (le : g.keep ≤ method.position) (name : String) (type : TypeId) :
    Yields (liftM (method.declareParam name type)) fun (_, changed) => method.Edits g changed := by
  rw [declareParam]
  split
  · rfl
  · exact edits_declare le method.paramsOpen (by simp) le_rfl

theorem edits_declareLocal (le : g.keep ≤ method.position) (table : SymbolTable)
    (name typeName : String) (namespaces : List String) (isFinal : Bool) :
    Yields (liftM (method.declareLocal table name typeName namespaces isFinal)) fun (var, changed) =>
      method.Edits g changed ∧ changed.Has var.slot := by
  rw [declareLocal]
  split
  · rfl
  split
  · rfl
  refine ⟨edits_declare le method.paramsOpen le_rfl (by simp), ?_⟩
  have lt : (UInt16.ofNat method.locals.length).toNat < method.locals.length + 1 := by
    rw [UInt16.toNat_ofNat']
    exact Nat.lt_succ_of_le (Nat.mod_le _ _)
  cases isFinal <;> simpa [localSlot, Has, LocalTable.count_eq_length] using lt

end MethodDraft

namespace Compile

variable {α : Type} {g : Guard} [g.Loose] {c : Compiler}

theorem does_onSession {work : Session → Except Failure (α × Session)}
    {post : Option α → Compiler → Prop} (refused : post none c)
    (done : Yields (work c.session) fun (a, session) => post (some a) { c with session := session }) :
    (onSession work).Does c post := by
  rw [onSession]
  refine does_get_bind (does_attempt_bind done ?_ (does_pure refused))
  rintro ⟨a, session⟩ after
  exact does_modify_bind (does_pure after)

theorem always_variableType (name typeName : String) :
    (variableType name typeName).Always Compiler.Untouched := by
  rw [variableType]
  refine always_get.bind fun c => ?_
  dsimp only
  split
  · exact (always_report rfl).bind fun _ => always_pure _
  · exact always_pure _

theorem keeps_declareParam (name typeName : String) : (declareParam name typeName).Keeps g := by
  rw [declareParam]
  refine (always_variableType name typeName).keeps.bind fun type => ?_
  cases type with
  | none => exact keeps_pure ()
  | some type =>
    refine Keeps.bind (fun c guarded => does_onSession (.refl guarded) ?_) fun _ => keeps_pure ()
    rw [Session.declareParam]
    refine yields_fault_ok fun found current => ?_
    cases found with
    | none => rfl
    | some method =>
      dsimp only
      rw [yields_bind]
      refine (MethodDraft.edits_declareParam (guarded.sits method current).le name type).imp ?_
      rintro ⟨var, changed⟩ edits
      refine yields_fault_ok fun table _ => ?_
      rw [yields_fault_bind]
      refine (works_setMethod guarded current edits).imp fun session works => ?_
      exact works.trans (Compiler.Alters.works (untouched_withSession rfl rfl rfl) works.guarded
        Guard.loose)

theorem works_declared (guarded : c.Guarded g) {target : AssignTarget}
    (aims : g.checked → Aims c (some target)) :
    c.Works g { c with lastDeclared := some target } := by
  refine ⟨⟨fun method current => ?_, guarded.plain⟩, (Session.Untouched.refl _).reworks, rfl,
    Guard.loose⟩
  have sits := guarded.sits method current
  refine ⟨sits.le, sits.kinds, fun isChecked held here => ?_⟩
  simp only [targets, List.mem_append, Option.mem_toList] at here
  rcases here with isTarget | isDeclared
  · exact sits.targets isChecked held (by simp [targets, isTarget])
  · exact aims isChecked held isDeclared method current

theorem keeps_declareLocal (name typeName : String) (isFinal : Bool) :
    (declareLocal name typeName isFinal).Keeps g := by
  intro c guarded
  rw [declareLocal]
  refine does_get_bind ?_
  have declares : (onSession (·.declareLocal name typeName c.usings isFinal)).Does c
      fun declared later =>
      c.Works g later ∧ ∀ var ∈ declared, later.session.Here (·.Has var.slot) := by
    refine does_onSession ⟨.refl guarded, fun _ held => by cases held⟩ ?_
    rw [Session.declareLocal]
    refine yields_fault_ok fun found current => ?_
    cases found with
    | none => rfl
    | some method =>
      dsimp only
      rw [yields_bind]
      refine (MethodDraft.edits_declareLocal (guarded.sits method current).le _ name typeName _
        isFinal).imp ?_
      rintro ⟨var, changed⟩ ⟨edits, has⟩
      rw [yields_fault_bind]
      refine ((works_setMethod guarded current edits).and
        (gives_setMethod_reworks current edits)).imp ?_
      rintro session ⟨works, -, isCurrent⟩
      refine ⟨works, ?_⟩
      rintro _ ⟨⟩ other otherCurrent
      obtain rfl : changed = other := by simpa using isCurrent.symm.trans otherCurrent
      exact has
  refine declares.bind ?_
  rintro declared later ⟨works, has⟩
  cases declared with
  | none => exact does_pure works
  | some var =>
    refine does_modify (works.trans (works_declared works.guarded fun _ => ?_))
    rintro _ ⟨⟩
    exact has var rfl

theorem always_addField (name : String) (type : TypeId) (isFinal : Bool) :
    (onSession (·.declareField name type isFinal)).Always Compiler.Untouched := by
  refine fun c => does_onSession (refl_of _ c) ?_
  rw [Session.declareField]
  refine yields_fault_ok fun entry current => ?_
  cases entry with
  | none => rfl
  | some entry =>
    obtain ⟨index, draft⟩ := entry
    obtain ⟨-, here, -⟩ := Session.current?_eq_some current
    dsimp only
    refine yields_fault_ok fun owner _ => ?_
    split
    · rfl
    refine yields_fault_ok ?_
    rintro ⟨ref, table⟩ _
    have counts : c.session.Untouched (c.session.setDraft index draft.addMember) :=
      Session.untouched_setDraft here rfl rfl rfl
    exact ⟨counts.trans (untouched_of_drafts_eq rfl rfl rfl), rfl, rfl, List.Subset.refl _, rfl⟩

theorem keeps_declareField (name typeName : String) (isFinal : Bool) :
    (declareField name typeName isFinal).Keeps g := by
  rw [declareField]
  refine (always_variableType name typeName).keeps.bind fun type => ?_
  cases type with
  | none => exact keeps_pure ()
  | some type =>
    refine (always_addField name type isFinal).keeps.bind fun declared => ?_
    cases declared with
    | none => exact keeps_pure ()
    | some ref =>
      exact fun c guarded => does_modify (works_declared guarded fun _ => aims_field c ref)

theorem keeps_declareVar (name typeName : String) (isFinal : Bool) :
    (declareVar name typeName isFinal).Keeps g := by
  rw [declareVar]
  refine keeps_flushReference.bind fun _ => keeps_get_bind fun c => (keeps_lift _).bind
    fun found => ?_
  cases found with
  | some method =>
    dsimp only
    split
    · exact keeps_declareParam name typeName
    · exact keeps_declareLocal name typeName isFinal
  | none =>
    refine (keeps_lift _).bind fun type => ?_
    split
    · exact keeps_declareField name typeName isFinal
    · exact keeps_report rfl

/-! ## Blocks -/

theorem works_beginBody (guarded : c.Guarded g) (owner : BlockOwner) :
    Gives (c.session.modifyType (beginBody owner)) fun session =>
      c.Works g { c with session := session } :=
  gives_beginBody
    (fun _ same => Compiler.Alters.works ⟨same, rfl, rfl, List.Subset.refl _, rfl⟩ guarded Guard.loose)
    fun method current => works_setMethod guarded current
      (MethodDraft.edits_declare (guarded.sits method current).le false le_rfl le_rfl)

theorem keeps_openBlock : openBlock.Keeps g := by
  rw [openBlock]
  refine keeps_endExpression.bind fun _ => Keeps.bind (keeps_skip fun _ => rfl) fun _ => ?_
  intro c guarded
  refine does_get_bind (does_lift_bind (gives_self _) fun type _ => ?_)
  refine does_lift_bind (works_beginBody guarded _) fun session works => does_modify ?_
  exact works.trans (works_of_site_eq works.guarded rfl Guard.loose)

end Compile

end OnePass
