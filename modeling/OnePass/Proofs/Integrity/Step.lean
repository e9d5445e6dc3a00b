import OnePass.Proofs.Expression.OpenBody
import OnePass.Proofs.Integrity.Declaration

/-! # Every step is safe

In a sound state, the step on any token ends in a sound state or in a permitted fault. A step takes
tokens from the stream; only an import adds some, at its end (`Compiler.Advances`). -/

namespace OnePass

open SymbolTable

/-! ## What a step does to the input -/

/-- Options that look files up where the input does. -/
def Input.options (input : Input) : BuildOptions :=
  { libraryDir := input.directories.1, baseDir := input.directories.2 }

/-- The input after the tokens of a library were added. -/
def Input.splice (input : Input) (path : String) (tokens : List Token) : Input :=
  { input with imported := input.imported ++ [path], stream := tokens ++ input.stream }

/-- What a token does to the input: an import adds the tokens of its library unless it was imported
before. -/
inductive Input.Splices (token : Token) (input : Input) : Input → Prop
  | nothing : input.Splices token input
  | library {path : String} {tokens : List Token} (isImport : token = .importLibrary path)
      (isNew : path ∉ input.imported) (found : input.files.libraryTokens input.options path =
        .ok tokens) :
      input.Splices token (input.splice path tokens)

/-- Whether a token may close a method. -/
def Token.closes : Token → Bool
  | .block false | .expressionEnd => true
  | _ => false

/-- What the step on a token can do to the state. -/
structure Compiler.Advances (token : Token) (c later : Compiler) : Prop where
  sound : later.Sound
  grows : c.session.table.Grows later.session.table
  input : ∃ rest, c.input.Takes rest ∧ rest.Splices token later.input

theorem Compiler.Evolves.advances {c later : Compiler} (evolves : c.Evolves later) (token : Token) :
    c.Advances token later :=
  ⟨evolves.sound, evolves.grows, later.input, evolves.input, .nothing⟩

theorem Compiler.Evolves.trans_advances {c later last : Compiler} {token : Token}
    (evolves : c.Evolves later) (advances : later.Advances token last) : c.Advances token last :=
  ⟨advances.sound, evolves.grows.trans advances.grows,
    advances.input.imp fun _ ⟨takes, splices⟩ => ⟨evolves.input.trans takes, splices⟩⟩

namespace Compile

variable {c : Compiler} {token : Token}

/-- The action does what a step on the token may do, or ends in a permitted fault. -/
def Advances (token : Token) (action : Compile Unit) (c : Compiler) : Prop :=
  Ensures (action c) fun (_, later, _) => c.Advances token later

theorem Safe.advances {action : Compile Unit} (safe : action.Safe c) : action.Advances token c :=
  safe.imp fun _ ⟨evolves, _⟩ => evolves.advances token

theorem Safe.bind_advances {α : Type} {held : α → List Symbol} {action : Compile α}
    {next : α → Compile Unit} (first : action.Safe c held)
    (second : ∀ a later, c.Evolves later → later.session.table.Holds (held a) →
      (next a).Advances token later) :
    (action >>= next).Advances token c :=
  ensures_bind_run.mpr <| first.imp fun (a, later, _) ⟨toLater, holds⟩ =>
    (second a later toLater holds).imp fun _ advances => toLater.trans_advances advances

theorem Safe.bind_ends {α : Type} {held : α → List Symbol} {action : Compile α}
    {next : α → Compile Unit} (first : action.Safe c held)
    (second : ∀ a later, c.Evolves later → later.session.table.Holds (held a) →
      Ends (next a later) fun (_, last, _) => later.Advances token last) :
    Ends ((action >>= next) c) fun (_, last, _) => c.Advances token last :=
  ends_bind_run.mpr <| (Ensures.ends first).imp fun (a, later, _) ⟨toLater, holds⟩ =>
    (second a later toLater holds).imp fun _ advances => toLater.trans_advances advances

theorem advances_get_bind {next : Compiler → Compile Unit} :
    (get >>= next).Advances token c ↔ (next c).Advances token c :=
  ensures_bind_run

/-! ## The dispatch -/

theorem safe_literal (sound : c.Sound) (text : String) : (literal text).Safe c := by
  have notes {later : Compiler} (here : later.Sound) :
      (modify fun compiler =>
        { compiler with literals := compiler.literals ++ [text], expectLiteral := false }).Safe later :=
    safe_modify ⟨{ here with named := fun _ => rfl }, .refl _, .refl _⟩
  rw [literal, safe_get_bind]
  dsimp only
  split
  · have taken : c.Evolves { c with inDirective := false } := ⟨{ sound with }, .refl _, .refl _⟩
    exact safe_modify_bind taken ((noting_directive text).safe taken.sound)
  · split
    · exact (safe_flushReference sound).bind fun _ later evolves _ => notes evolves.sound
    · exact notes sound

theorem safe_memberSeparator (sound : c.Sound) : memberSeparator.Safe c := by
  rw [memberSeparator, safe_get_bind]
  split
  · exact safe_report sound _
  · rename_i some
    exact safe_modify ⟨{ sound with named := fun none => absurd (List.isEmpty_iff.mpr none) some },
      .refl _, .refl _⟩

theorem safe_checkClosed (sound : c.Sound) : checkClosed.Safe c := by
  rw [checkClosed, safe_get_bind]
  exact safe_reportAll sound _

/-- A declaration for the whole file keeps the state sound. An import adds tokens and nothing
else. -/
theorem ensures_declare (sound : c.Sound) {result : Except Failure Compiler}
    (declared : c.declare? token = some result) :
    Ensures result (c.Advances token) := by
  cases token with
  | enterNamespace name =>
    cases declared
    rw [ensures_lift_problem, Compiler.enterNamespace]
    split
    · exact ensures_problem
    · have entered : c.Evolves { c with space := name } := ⟨{ sound with }, .refl _, .refl _⟩
      exact entered.advances _
  | usingNamespace name =>
    cases declared
    rw [ensures_ok, Compiler.useNamespace]
    split
    · exact sound.refl.advances _
    · have noted : c.Evolves { c with usings := c.usings ++ [name] } := ⟨{ sound with }, .refl _, .refl _⟩
      exact noted.advances _
  | includeModule path =>
    cases declared
    rw [Compiler.includeModule, ensures_bind, ensures_lift_problem]
    cases c.files.moduleImage c.session.options path with
    | error problem => exact ensures_problem
    | ok image =>
      rw [ensures_ok, ensures_bind]
      refine (ModuleImage.ensures_register sound.session.table image).imp fun (_, table) evolves => ?_
      exact (sound.withSession (sound.session.withTable evolves)).advances _
  | importLibrary path =>
    cases declared
    rw [ensures_lift_problem, Compiler.importLibrary]
    split
    · exact sound.refl.advances _
    · rename_i isNew
      rw [ensures_bind]
      cases found : c.files.libraryTokens c.session.options path with
      | error problem => exact ensures_problem
      | ok tokens =>
        have isNew : path ∉ c.imported := by simpa using isNew
        exact ⟨{ sound with }, .refl _, c.input, .refl _, .library rfl isNew found⟩
  | _ => cases declared

theorem advances_declaration (sound : c.Sound) (token : Token) :
    (declaration token).Advances token c := by
  rw [declaration, advances_get_bind]
  split
  · exact (safe_return sound).advances
  · rename_i result declared
    have ensures := ensures_declare sound declared
    cases result with
    | ok later => exact ensures_bind_run.mpr ensures
    | error failure =>
      cases failure with
      | problem problem => exact ensures_bind_run.mpr (sound.refl.advances token)
      | fault fault => exact ensures

theorem advances_dispatch (sound : c.Sound) (keepsOpen : token.closes = false)
    {retract : Option TypeId} (known : c.session.table.Holds (typeSymbols retract)) :
    (dispatch token retract).Advances token c := by
  -- Only the declarations for a whole file are more than safe actions.
  cases token with
  | enterNamespace | usingNamespace | includeModule | importLibrary =>
    exact advances_declaration sound _
  | newLine | directive | new => exact (safe_modify ⟨{ sound with }, .refl _, .refl _⟩).advances
  | returnValue =>
    exact (safe_modify ⟨{ sound with consume := holds_nil }, .refl _, .refl _⟩).advances
  | classOpen name kind visibility => exact (safe_declareType sound name kind visibility).advances
  | function name returnType kind visibility =>
    exact (safe_openFunction sound name returnType kind visibility).advances
  | var name typeName isFinal => exact (safe_declareVar sound name typeName isFinal).advances
  | block isOpen =>
    cases isOpen with
    | true => exact (safe_openBlock sound).advances
    | false => cases keepsOpen
  | statement isOpen =>
    cases isOpen with
    | true => exact (safe_openStatement sound).advances
    | false => exact (safe_closeStatement sound).advances
  | sequence isOpen =>
    cases isOpen with
    | true => exact (safe_openSequence sound).advances
    | false => exact (safe_closeSequence sound).advances
  | separator kind =>
    cases kind with
    | member => exact (safe_memberSeparator sound).advances
    | statement => exact (safe_separate sound).advances
  | literal text => exact (safe_literal sound text).advances
  | expressionEnd => cases keepsOpen
  | operator op => exact (safe_operator sound op known).advances
  | value content => exact (safe_value sound content).advances
  | breakpoint =>
    have emitted : (emit (·.emit .breakpoint)).Safe c :=
      safe_emit sound fun method holds => MethodDraft.holds_emit.mpr ⟨holds, holds_nil⟩
    exact emitted.bind_advances fun _ later evolves _ =>
      (safe_modify ⟨{ evolves.sound with }, .refl _, .refl _⟩).advances
  | extendsClause | implementsClause =>
    exact (safe_checkClosed sound).bind_advances fun _ later evolves _ =>
      (safe_modify ⟨{ evolves.sound with }, .refl _, .refl _⟩).advances
  | label name =>
    have labels : (emitting fun _ method => do return ((), ← method.label name)).Safe c
        (Emitted.symbols fun _ => []) := by
      refine safe_emitting _ sound fun method holds => ?_
      rw [ensures_bind, ensures_lift_problem]
      exact (MethodDraft.ensures_label holds name).imp fun _ inLater => ⟨holds_nil, inLater⟩
    exact labels.bind_advances fun _ later evolves _ => (safe_return evolves.sound).advances
  | goto name =>
    exact (safe_emit sound fun method holds => MethodDraft.holds_branch holds name).advances
  | actual | async | parameterType | reserved => exact (safe_return sound).advances

theorem ends_dispatch (sound : c.Sound) (token : Token) {retract : Option TypeId}
    (known : c.session.table.Holds (typeSymbols retract)) :
    Ends (dispatch token retract c) fun (_, later, _) => c.Advances token later := by
  by_cases keepsOpen : token.closes = false
  · exact Ensures.ends (advances_dispatch sound keepsOpen known)
  · unfold Token.closes at keepsOpen
    split at keepsOpen
    · exact (closes_closeBlock sound).imp fun _ evolves => evolves.advances _
    · exact (closes_expressionEnd sound).imp fun _ evolves => evolves.advances _
    · simp at keepsOpen

theorem safe_takeRetractable (sound : c.Sound) : takeRetractable.Safe c typeSymbols := by
  rw [takeRetractable, safe_get_bind]
  have taken : c.Evolves { c with retractable := none } :=
    ⟨{ sound with retractable := holds_nil }, .refl _, .refl _⟩
  exact safe_modify_bind taken (safe_pure taken.sound sound.retractable)

/-- Deals with what waits for a token. If the token is not used up, the type of the result that the
token before has dropped is told. -/
def awaited (token : Token) : Compile (Option (Option TypeId)) := do
  let retract ← takeRetractable
  checkEnd token
  if ← readBase token then return none
  if ← readInterfaces token then return none
  if (← get).consume != .normal && token.isEnd then finishConsume
  return some retract

/-- A step deals with what waits for the token and then, if it is not used up, with the token. -/
theorem step_eq (token : Token) : step token = awaited token >>= fun
    | none => pure ()
    | some retract => dispatch token retract := by
  -- Each part of `awaited` either uses the token up, and both sides end, or goes on, and both sides
  -- do.
  rw [step, awaited, bind_assoc]
  refine bind_congr fun retract => ?_
  rw [bind_assoc]
  refine bind_congr fun _ => ?_
  rw [bind_assoc]
  refine bind_congr fun isBase => ?_
  cases isBase with
  | true => rfl
  | false =>
    simp only [Bool.false_eq_true, if_false, bind_assoc]
    refine bind_congr fun isInterface => ?_
    cases isInterface with
    | true => rfl
    | false =>
      simp only [Bool.false_eq_true, if_false, bind_assoc]
      refine bind_congr fun c => ?_
      split
      · rw [bind_assoc]
        exact bind_congr fun _ => (pure_bind _ _).symm
      · exact (pure_bind _ _).symm

theorem safe_awaited (sound : c.Sound) (token : Token) :
    (awaited token).Safe c fun rest => typeSymbols rest.join := by
  rw [awaited]
  refine (safe_takeRetractable sound).bind fun retract taken toTaken known => ?_
  refine ((noting_checkEnd token).safe toTaken.sound).bind fun _ noted toNoted _ => ?_
  refine ((noting_readBase token).safe toNoted.sound).bind fun isBase based toBased _ => ?_
  split
  · exact safe_pure toBased.sound holds_nil
  refine ((noting_readInterfaces token).safe toBased.sound).bind fun isListed listed toListed _ => ?_
  split
  · exact safe_pure toListed.sound holds_nil
  have still := ((known.grow toNoted.grows).grow toBased.grows).grow toListed.grows
  rw [safe_get_bind]
  dsimp only
  split
  · exact (safe_finishConsume toListed.sound).bind fun _ consumed toConsumed _ =>
      safe_pure toConsumed.sound (still.grow toConsumed.grows)
  · exact safe_pure toListed.sound still

theorem ends_step (sound : c.Sound) (token : Token) :
    Ends (step token c) fun (_, later, _) => c.Advances token later := by
  rw [step_eq]
  refine (safe_awaited sound token).bind_ends fun rest later evolves known => ?_
  cases rest with
  | none => exact Ensures.ends (safe_return evolves.sound).advances
  | some retract => exact ends_dispatch evolves.sound token known

/-! ## The end of the tokens -/

theorem safe_report_if {β : Type} {heldNext : β → List Symbol} {b : Prop} [Decidable b]
    {problem : Problem} {next : Compile β} (rest : next.Safe c heldNext) :
    (if b then report problem >>= fun _ => next else next).Safe c heldNext := by
  split
  · exact safe_report_bind.mpr rest
  · exact rest

theorem safe_reportUnended (sound : c.Sound) : (reportUnended c.session).Safe c := by
  refine safe_lift_bind sound.session.ensures_currentType fun found holds => ?_
  cases found with
  | none => exact safe_return sound
  | some type =>
    dsimp only
    split
    · have inRange := TypeDraft.id_inRange (holds type rfl)
      exact safe_lift_bind (ensures_typeName inRange) fun _ _ => safe_report sound _
    · exact safe_return sound

theorem safe_checkTermination (sound : c.Sound) : checkTermination.Safe c := by
  rw [checkTermination, safe_get_bind, safe_reportAll_bind, reportWaiting]
  refine safe_report_if (safe_report_if ?_)
  cases c.consume with
  | normal => exact safe_report_if (safe_report_if (safe_reportUnended sound))
  | assign target | ret =>
    exact safe_report_bind.mpr (safe_report_if (safe_report_if (safe_reportUnended sound)))

end Compile

end OnePass
