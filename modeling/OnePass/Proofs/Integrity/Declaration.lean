import OnePass.Proofs.Integrity.Expression
import OnePass.Proofs.Outline.Declaration

/-! # Declarations are compiled safely

Directives, the heads of declarations, variables, and the braces and ends that close types and
methods: each is safe in a sound state. -/

namespace OnePass

open Relation SymbolTable

/-! ## Directives and clauses of types -/

/-- Naming a base or an interface needs no symbol: names are resolved when the type is closed. -/
theorem Compiler.Notes.evolves {c later : Compiler} (notes : c.Notes later) (sound : c.Sound) :
    c.Evolves later := by
  cases notes with
  | @takes taken rest stream =>
    exact ⟨{ sound with }, .refl _, taken, by simp [Compiler.input, stream]⟩
  | amends here named =>
    have same := named.elim (TypeDraft.extend_symbols _ _ _) (TypeDraft.implement_symbols _ _ _)
    have holds := sound.session.drafts _ (List.mem_of_getElem? here)
    exact sound.withSession ⟨sound.session.setDraft _ (same ▸ holds), .refl _, rfl⟩
  | setsOutput | setsConstant =>
    exact ⟨{ sound with session := { sound.session with } }, .refl _, .refl _⟩
  | lists | flags => exact ⟨{ sound with }, .refl _, .refl _⟩

namespace Compile

variable {c : Compiler}

/-- In a sound state the open types are among the drafts, and so directives and clauses end. -/
theorem Noting.safe {α : Type} {action : Compile α} (noting : action.Noting) (sound : c.Sound) :
    action.Safe c := by
  have placed : c.session.Placed :=
    fun index => Or.rec (sound.session.openTypes index) (sound.session.defaultType index)
  obtain ⟨does, ends⟩ := noting c
  cases ran : action c with
  | error fault => exact absurd placed (ends fault ran)
  | ok outcome =>
    obtain ⟨a, later, problems⟩ := outcome
    have notes : ReflTransGen Compiler.Notes c later := (Gives.of_ok does ran).1
    have evolves : c.Evolves later := by
      clear ran
      induction notes with
      | refl => exact sound.refl
      | tail _ last ih => exact ih.trans (last.evolves ih.sound)
    rw [Safe, ran]
    exact ⟨evolves, holds_nil⟩

/-! ## Declarations -/

theorem safe_declareType (sound : c.Sound) (name : String) (kind : ClassKind)
    (visibility : Visibility) : (declareType name kind visibility).Safe c := by
  rw [declareType, safe_get_bind]
  have declared :
      (onSession fun session => do session.declareType name c.space kind visibility).Safe c
        fun result => result.toList.flatMap fun _ => [] := by
    refine safe_onSession sound ?_
    rw [ensures_lift_problem]
    exact (sound.session.ensures_declareType name c.space kind visibility).imp
      fun _ evolves => ⟨evolves, holds_nil⟩
  refine declared.bind fun result later evolves _ => ?_
  cases result with
  | none => exact safe_return evolves.sound
  | some _ =>
    dsimp only
    rw [safe_get_bind]
    refine safe_lift_bind (evolves.sound.session.ensures_modifyType fun draft holds => holds) ?_
    rintro session ⟨toLater, _⟩
    exact safe_modify (evolves.sound.withSession toLater)

theorem safe_resultType (sound : c.Sound) (name returnType : String) :
    (resultType name returnType).Safe c fun type => [.type type] := by
  have void : c.session.table.Holds [.type c.session.table.wellKnown.void] := by
    simpa using sound.session.table.void_inRange
  rw [resultType, safe_get_bind]
  dsimp only
  split
  · exact safe_pure sound void
  · split
    · rename_i result found
      exact safe_pure sound (by simpa using sound.session.table.resolveType_inRange found)
    · rw [safe_report_bind]
      exact safe_pure sound void

theorem safe_openFunction (sound : c.Sound) (name returnType : String) (kind : FuncKind)
    (visibility : Visibility) : (openFunction name returnType kind visibility).Safe c := by
  rw [openFunction]
  refine (safe_resultType sound name returnType).bind fun result later evolves known => ?_
  rw [safe_get_bind]
  have taken : later.Evolves { later with methodAttrs := {} } :=
    ⟨{ evolves.sound with }, .refl _, .refl _⟩
  have inRange : result < later.session.table.types.length := by simpa using known
  refine safe_modify_bind taken ?_
  refine safe_lift_bind evolves.sound.session.ensures_isDefaultCurrent fun isDefault _ => ?_
  refine (safe_onSession taken.sound (evolves.sound.session.ensures_openMethod name
    inRange ..)).bind fun slot last toLast holds => ?_
  split
  · rename_i ref
    split
    · have has : last.session.table.Has (.method ref) := by simpa [MethodSlot.symbols] using holds
      exact safe_modify (toLast.sound.withSession (toLast.sound.session.addScriptFunction has))
    · exact safe_return toLast.sound
  · exact safe_return toLast.sound

theorem safe_variableType (sound : c.Sound) (name typeName : String) :
    (variableType name typeName).Safe c typeSymbols := by
  rw [variableType, safe_get_bind]
  have known : c.session.table.Holds (typeSymbols
      (c.session.table.resolveType typeName c.usings)) := by
    cases found : c.session.table.resolveType typeName c.usings with
    | none => exact holds_nil
    | some type => simpa [typeSymbols] using sound.session.table.resolveType_inRange found
  dsimp only
  split
  · rw [safe_report_bind]
    exact safe_pure sound known
  · exact safe_pure sound known

theorem safe_declareParam (sound : c.Sound) (name typeName : String) :
    (declareParam name typeName).Safe c := by
  rw [declareParam]
  refine (safe_variableType sound name typeName).bind fun type later evolves known => ?_
  cases type with
  | none => exact safe_return evolves.sound
  | some type =>
    have inRange : type < later.session.table.types.length := by simpa [typeSymbols] using known
    have declared : (onSession (·.declareParam name type)).Safe later
        fun result => result.toList.flatMap fun _ => [] := by
      refine safe_onSession evolves.sound ?_
      exact (evolves.sound.session.ensures_declareParam name inRange).imp
        fun _ changed => ⟨changed, holds_nil⟩
    exact declared.bind fun _ last toLast _ => safe_return toLast.sound

theorem safe_declareLocal (sound : c.Sound) (name typeName : String) (isFinal : Bool) :
    (declareLocal name typeName isFinal).Safe c := by
  rw [declareLocal, safe_get_bind]
  refine (safe_onSession sound (sound.session.ensures_declareLocal name typeName c.usings
    isFinal)).bind fun found later evolves holds => ?_
  cases found with
  | none => exact safe_return evolves.sound
  | some var =>
    have inVar : later.session.table.Holds var.symbols := by simpa using holds
    refine safe_modify ⟨{ evolves.sound with lastDeclared := ?_ }, .refl _, .refl _⟩
    simpa [AssignTarget.symbols] using inVar

theorem safe_declareField (sound : c.Sound) (name typeName : String) (isFinal : Bool) :
    (declareField name typeName isFinal).Safe c := by
  rw [declareField]
  refine (safe_variableType sound name typeName).bind fun type later evolves known => ?_
  cases type with
  | none => exact safe_return evolves.sound
  | some type =>
    have inRange : type < later.session.table.types.length := by simpa [typeSymbols] using known
    have declared : (onSession (·.declareField name type isFinal)).Safe later
        fun result => result.toList.flatMap fun ref => [.field ref] := by
      refine safe_onSession evolves.sound ?_
      refine (evolves.sound.session.ensures_declareField name inRange isFinal).imp ?_
      rintro _ ⟨changed, has⟩
      exact ⟨changed, by simpa using has⟩
    refine declared.bind fun found last toLast holds => ?_
    cases found with
    | none => exact safe_return toLast.sound
    | some ref =>
      have has : last.session.table.Has (.field ref) := by simpa using holds
      refine safe_modify ⟨{ toLast.sound with lastDeclared := ?_ }, .refl _, .refl _⟩
      simpa [AssignTarget.symbols] using has

theorem safe_declareVar (sound : c.Sound) (name typeName : String) (isFinal : Bool) :
    (declareVar name typeName isFinal).Safe c := by
  rw [declareVar]
  refine (safe_flushReference sound).bind fun _ later evolves _ => ?_
  rw [safe_get_bind]
  refine safe_lift_bind evolves.sound.session.ensures_currentMethod fun found _ => ?_
  cases found with
  | some method =>
    dsimp only
    split
    · exact safe_declareParam evolves.sound name typeName
    · exact safe_declareLocal evolves.sound name typeName isFinal
  | none =>
    refine safe_lift_bind evolves.sound.session.ensures_currentType fun type _ => ?_
    split
    · exact safe_declareField evolves.sound name typeName isFinal
    · exact safe_report evolves.sound _

/-! ## Blocks and ends -/

theorem holds_beginBody {table : SymbolTable} (owner : BlockOwner) {type : TypeDraft}
    (holds : table.Holds type.symbols) : table.Holds (beginBody owner type).symbols := by
  unfold beginBody
  split
  · exact holds
  · rename_i method rest open_eq
    obtain ⟨id, bodies, methods⟩ := TypeDraft.holds_iff.mp holds
    rw [open_eq] at methods
    obtain ⟨first, others⟩ := List.forall_mem_cons.mp methods
    exact TypeDraft.holds_iff.mpr ⟨id, bodies, List.forall_mem_cons.mpr ⟨first, others⟩⟩
  · exact holds

theorem safe_openBlock (sound : c.Sound) : openBlock.Safe c := by
  rw [openBlock]
  refine (safe_endExpression sound).bind fun _ ended toEnded _ => ?_
  have counted := toEnded.sound.withNesting { ended.nesting with blocks := ended.nesting.blocks + 1 }
  refine safe_modify_bind counted ?_
  rw [safe_get_bind]
  have here := toEnded.sound.session
  refine safe_lift_bind here.ensures_currentType fun type _ => ?_
  refine safe_lift_bind (here.ensures_modifyType fun draft holds => holds_beginBody _ holds)
    fun session ⟨toLater, _⟩ => ?_
  have changed := counted.sound.withSession toLater
  exact safe_modify ⟨{ changed.sound with }, changed.grows, changed.input⟩

theorem closes_closeOwner (sound : c.Sound) (owner : Option BlockOwner) :
    (closeOwner owner).Closes c := by
  unfold closeOwner
  rw [closes_get_bind]
  split
  · exact closes_closing sound (sound.session.ends_closeType c.usings)
  · exact closes_closing sound sound.session.ends_closeMethod
  · exact (safe_return sound).closes
  · exact (safe_return sound).closes

theorem closes_closeBlock (sound : c.Sound) : closeBlock.Closes c := by
  rw [closeBlock]
  refine (safe_endExpression sound).bind_closes fun _ ended toEnded => ?_
  rw [closes_get_bind]
  dsimp only
  split
  · exact (safe_report toEnded.sound _).closes
  · have counted : ended.Evolves
        { ended with
          nesting := { ended.nesting with blocks := ended.nesting.blocks - 1 }
          blocks := ended.blocks.tail } :=
      ⟨{ toEnded.sound with }, .refl _, .refl _⟩
    exact (safe_modify counted).bind_closes fun _ _ toLater => closes_closeOwner toLater.sound _

theorem closes_expressionEnd (sound : c.Sound) : expressionEnd.Closes c := by
  rw [expressionEnd]
  refine (safe_endExpression sound).bind_closes fun _ ended toEnded => ?_
  rw [closes_get_bind]
  have here := toEnded.sound
  refine closes_lift_bind here.session.ensures_currentType.ends fun found _ => ?_
  cases found with
  | none => exact (safe_return here).closes
  | some type =>
    dsimp only
    split
    · exact closes_closing here (here.session.ends_closeType ended.usings)
    · split
      · exact closes_closing here here.session.ends_closeMethod
      · exact (safe_return here).closes

end Compile

end OnePass
