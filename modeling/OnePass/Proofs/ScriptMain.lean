import OnePass.Proofs.Layers.Braces
import OnePass.Proofs.Roster

/-! # The main function of a script

The statements of a script belong to a main function that no token declares. It is open from the
beginning, outside of everything else. A closing brace closes the innermost method, whatever that
is, so that the main function is safe only because no opening brace has begun its body: what the
open braces have begun is always still there, and the main function lies below it.

* `Anchored` — the implicit class is the outermost type, and the main function is its outermost
  method.
* `Session.MainStands` — the same, said of the drafts.

The main statement is `script_main_lasts`: the main function of a script is open up to the end of
the build, and the module has one body of it, the last one of its class, which ends by returning. -/

namespace OnePass

open List

/-! ## Layers -/

/-- The outermost type is the implicit class, and its outermost method is the main function, whose
body has begun. -/
def Anchored (main : MethodSlot) (layers : List Layer) : Prop :=
  ∃ inner layer nested, layers = inner ++ [layer] ∧ layer.place = 0 ∧ layer.implicit = true ∧
    layer.methods = nested ++ [⟨main, false⟩]

namespace Anchored

variable {main : MethodSlot} {layers later : List Layer}

/-- A change of the innermost type matters only where this is the implicit class. -/
theorem modifyHead (anchored : Anchored main layers) {change : Layer → Layer}
    (place : ∀ layer, (change layer).place = layer.place)
    (implicit : ∀ layer, (change layer).implicit = layer.implicit)
    (methods : ∀ layer nested, layers = [layer] → layer.implicit = true →
      layer.methods = nested ++ [⟨main, false⟩] → ∃ nested, (change layer).methods = nested ++
        [⟨main, false⟩]) : Anchored main (layers.modifyHead change) := by
  obtain ⟨inner, layer, nested, rfl, isFirst, isImplicit, isMain⟩ := anchored
  cases inner with
  | nil =>
    obtain ⟨others, isMainLater⟩ := methods layer nested rfl isImplicit isMain
    exact ⟨[], change layer, others, rfl, (place layer).trans isFirst,
      (implicit layer).trans isImplicit, isMainLater⟩
  | cons innermost inner =>
    exact ⟨change innermost :: inner, layer, nested, rfl, isFirst, isImplicit, isMain⟩

theorem openMethod (anchored : Anchored main layers) (slot : MethodSlot) :
    Anchored main (layers.modifyHead (·.openMethod slot)) := by
  refine anchored.modifyHead (fun _ => rfl) (fun _ => rfl) fun layer nested _ _ isMain => ?_
  exact ⟨⟨slot, true⟩ :: nested, by rw [Layer.openMethod, isMain, cons_append]⟩

theorem beginBody (anchored : Anchored main layers) :
    Anchored main (layers.modifyHead Layer.beginBody) := by
  refine anchored.modifyHead (fun layer => ?_) (fun layer => ?_) fun layer nested _ _ isMain => ?_
  · rw [Layer.beginBody]
    split <;> rfl
  · rw [Layer.beginBody]
    split <;> rfl
  · rw [Layer.beginBody]
    split
    · exact ⟨nested, isMain⟩
    · cases nested with
      | nil => exact ⟨[], by simp [isMain]⟩
      | cons method nested => exact ⟨{ method with waiting := false } :: nested, by simp [isMain]⟩

theorem closeMethod (anchored : Anchored main layers)
    (stays : Begun.method 0 main ∈ bodies (layers.modifyHead Layer.closeMethod)) :
    Anchored main (layers.modifyHead Layer.closeMethod) := by
  refine anchored.modifyHead (fun _ => rfl) (fun _ => rfl) fun layer nested shape isImplicit
    isMain => ?_
  cases nested with
  | nil => simp [shape, bodies, Layer.bodies, Layer.closeMethod, isMain, isImplicit] at stays
  | cons method nested => exact ⟨nested, by simp [Layer.closeMethod, isMain]⟩

/-- The implicit class is never taken away. -/
theorem closeLayer (anchored : Anchored main layers) : Anchored main (closeLayer layers) := by
  obtain ⟨inner, layer, nested, rfl, isFirst, isImplicit, isMain⟩ := anchored
  cases inner with
  | nil =>
    rw [nil_append, OnePass.closeLayer, if_pos isImplicit]
    exact ⟨[], layer, nested, rfl, isFirst, isImplicit, isMain⟩
  | cons innermost inner =>
    rw [cons_append, OnePass.closeLayer]
    split
    · exact ⟨innermost :: inner, layer, nested, rfl, isFirst, isImplicit, isMain⟩
    · exact ⟨inner, layer, nested, rfl, isFirst, isImplicit, isMain⟩

/-- Whatever a step does, the main function stays the outermost method, if it keeps its body. -/
theorem steps (anchored : Anchored main layers) (steps : Layer.Steps layers later)
    (stays : Begun.method 0 main ∈ bodies later) : Anchored main later := by
  cases steps with
  | shifts shifts =>
    cases shifts with
    | stays => exact anchored
    | declares place =>
      obtain ⟨inner, layer, nested, rfl, rest⟩ := anchored
      exact ⟨⟨place, false, true, []⟩ :: inner, layer, nested, rfl, rest⟩
    | opens slot => exact anchored.openMethod slot
    | dropsType => exact anchored.closeLayer
    | dropsMethod => exact anchored.closeMethod stays
  | begins => exact anchored.beginBody
  | shuts owner =>
    unfold shutLayers at stays ⊢
    split at stays
    · exact anchored.closeLayer
    · exact anchored.closeMethod stays
    · exact anchored
    · exact anchored

end Anchored

/-! ## Sessions -/

namespace Session

variable {session later : Session} {main : MemberRef}

/-- The main function of the script is the outermost open method of the implicit class, which is
open. -/
def MainStands (main : MemberRef) (session : Session) : Prop :=
  session.defaultMethod = some main ∧ ∃ draft nested method, session.defaultType = some 0 ∧
    session.drafts[0]? = some draft ∧ draft.isOpen = true ∧ draft.openMethods = nested ++ [method] ∧
      method.slot = .method main

theorem mainStands_of_anchored (defaultType : session.defaultType = some 0)
    (defaultMethod : session.defaultMethod = some main)
    (anchored : Anchored (.method main) session.layers) : session.MainStands main := by
  obtain ⟨inner, layer, nested, shape, isFirst, -, isMain⟩ := anchored
  have inside : layer ∈ session.layers := by simp [shape]
  obtain ⟨⟨place, implicit⟩, -, found⟩ := mem_filterMap.mp inside
  obtain ⟨draft, here, shown⟩ := Option.bind_eq_some_iff.mp found
  split at shown
  · rename_i isOpen
    cases shown
    obtain rfl : place = 0 := isFirst
    obtain ⟨methods, last, openMethods, -, isLast⟩ := map_eq_append_iff.mp isMain
    obtain ⟨method, rfl, same⟩ := map_eq_singleton_iff.mp isLast
    exact ⟨defaultMethod, draft, methods, method, defaultType, here, isOpen, openMethods,
      congrArg (·.slot) same⟩
  · cases shown

theorem openDefault_of_free (free : session.table.lookup session.options.mainClassName = none) :
    session.openDefault =
      { session with
        table :=
          { session.table with
            types := session.table.types ++ [defaultDef session.options]
            names := (session.options.mainClassName, session.table.types.length) :: session.table.names }
        drafts := [{ id := session.table.types.length }]
        defaultType := some 0 } := by
  have isNamed : (defaultDef session.options).fullName = session.options.mainClassName := by
    simp [TypeDef.fullName, qualified, defaultDef, TypeDef.bare]
  rw [openDefault, SymbolTable.define, isNamed, free]

/-- A script begins with an implicit class whose main function is open, if the name of the class is
free. -/
theorem create_script (options : BuildOptions) (isScript : options.header = .script)
    (free : Host.table.lookup options.mainClassName = none) (autoName : Bool) :
    ∃ session main, create options autoName = .ok session ∧
      session.table.method main = .ok mainDef ∧ session.defaultType = some 0 ∧
        session.defaultMethod = some main ∧ session.layers =
          [⟨0, true, false, [⟨.method main, false⟩]⟩] := by
  let start := blank options autoName
  have opens : create options autoName = start.openDefault.openMain := by
    rw [create]
    split
    · rename_i isClass
      cases isScript.symm.trans isClass
    · rfl
    · rename_i isOther
      exact absurd isScript isOther
  rw [openDefault_of_free free] at opens
  -- The class comes right after the host types, and its main function is its first method.
  obtain ⟨session, created, drafts, openTypes, defaultType, defaultMethod, isMain⟩ :
      ∃ session, create options autoName = .ok session ∧
        session.drafts = [(TypeDraft.addMember { id := 18 }).openMethod
          { slot := .method ⟨18, 0⟩, isStatic := true, paramsOpen := false }] ∧
        session.openTypes = [] ∧ session.defaultType = some 0 ∧
          session.defaultMethod = some ⟨18, 0⟩ ∧ session.table.method ⟨18, 0⟩ = .ok mainDef :=
    ⟨_, opens, rfl, rfl, rfl, rfl, rfl⟩
  obtain ⟨-, layers⟩ := fresh_of_default drafts openTypes defaultType rfl rfl
  exact ⟨session, _, created, isMain, defaultType, defaultMethod, layers⟩

end Session

/-! ## Finishing -/

theorem MethodDraft.opcodes_resolveFixups (labels : List (String × UInt32)) (fixups : List Fixup)
    (code : List Instruction) : Gives (resolveFixups labels fixups code) fun (later, _) =>
      later.map (·.opcode) = code.map (·.opcode) := by
  induction fixups generalizing code with
  | nil => rfl
  | cons fixup rest ih =>
    rw [resolveFixups]
    split
    · rw [gives_bind]
      exact (ih code).imp fun _ same => same
    · rename_i target _
      split
      · refine (ih _).imp fun _ same => same.trans ?_
        have kept : ∀ i : Instruction, { i with operand := .target target }.opcode = i.opcode :=
          fun _ => rfl
        exact map_modify_of_kept kept _ _
      · exact gives_error

theorem MethodDraft.opcodes_finish (method : MethodDraft) : Gives method.finish fun (body, _) =>
    body.slot = method.slot ∧ body.code.map (·.opcode) = method.code.map (·.opcode) := by
  rw [finish, gives_bind]
  exact (opcodes_resolveFixups _ _ _).imp fun _ same => ⟨rfl, same⟩

variable {draft : TypeDraft}

theorem TypeDraft.gives_close_last {method : MethodDraft} (isOpen : draft.isOpen = true)
    (openMethods : draft.openMethods = [method]) (table : SymbolTable) (namespaces : List String) :
    Gives (draft.close table namespaces) fun (closed, _, _) => closed.isOpen = false ∧
      ∃ body, closed.bodies = draft.bodies ++ [body] ∧ body.slot = method.slot ∧
        body.code.map (·.opcode) = method.code.map (·.opcode) := by
  have methods : Gives draft.closeMethods fun outcome =>
      ∃ body, outcome.1.bodies = draft.bodies ++ [body] ∧ body.slot = method.slot ∧
        body.code.map (·.opcode) = method.code.map (·.opcode) := by
    rw [closeMethods, openMethods, finishAll, gives_bind, gives_bind]
    refine method.opcodes_finish.imp ?_
    rintro ⟨body, problems⟩ ⟨slot, opcodes⟩
    exact ⟨body, rfl, slot, opcodes⟩
  rw [close, isOpen, Bool.not_true, if_neg (by decide), gives_bind]
  refine methods.imp ?_
  rintro ⟨closed, _⟩ last
  refine gives_bind_ok fun _ _ => ?_
  exact gives_bind_ok fun _ _ => ⟨rfl, last⟩

namespace Session

variable {session later : Session} {main : MemberRef}

theorem gives_finishMain_emits {nested : List MethodDraft} {method : MethodDraft}
    (openMethods : draft.openMethods = nested ++ [method]) :
    Gives (finishMain draft) fun (prepared, _) =>
      prepared.isOpen = draft.isOpen ∧ prepared.openMethods = [method.emit .ret] := by
  rw [finishMain, openMethods, dropLast_concat]
  refine gives_bind_ok fun _ _ => ⟨rfl, ?_⟩
  simp

/-- The implicit class of a script has a member, so that it is part of the module. -/
theorem MainStands.isEmpty_eq_false (stands : session.MainStands main)
    (accounted : session.Accounted) (here : session.drafts[0]? = some draft) :
    draft.isEmpty = false := by
  obtain ⟨-, held, nested, method, -, isThere, -, openMethods, -⟩ := stands
  obtain rfl := Option.some.inj (isThere.symm.trans here)
  obtain ⟨type, -, accounts⟩ := accounted.accounts held (mem_of_getElem? here)
  exact accounts.isEmpty_eq_false (openMethods ▸ mem_append_right nested mem_cons_self)

theorem MainStands.unusedDefault?_eq (stands : session.MainStands main)
    (accounted : session.Accounted) : session.unusedDefault? = .ok none := by
  have notEmpty : ∀ draft, session.drafts[0]? = some draft → draft.isEmpty = false :=
    fun _ => stands.isEmpty_eq_false accounted
  obtain ⟨-, draft, -, -, defaultType, here, -⟩ := stands
  simp [unusedDefault?, defaultType, Session.draft, here, notEmpty draft here, bind, Except.bind,
    pure, Except.pure]

theorem MainStands.gives_finishDefault (stands : session.MainStands main)
    (accounted : session.Accounted) (namespaces : List String) :
    Gives (session.finishDefault namespaces) fun (later, _) =>
      ∃ closed earlier body, later.drafts[0]? = some closed ∧ closed.isOpen = false ∧
        closed.bodies = earlier ++ [body] ∧ body.slot = .method main ∧
          body.code.getLast?.map (·.opcode) = some .ret := by
  have notEmpty : ∀ draft, session.drafts[0]? = some draft → draft.isEmpty = false :=
    fun _ => stands.isEmpty_eq_false accounted
  obtain ⟨defaultMethod, held, nested, method, defaultType, isThere, isOpen, openMethods, isMain⟩ :=
    stands
  rw [finishDefault, defaultType]
  dsimp only
  rw [gives_bind]
  refine gives_draft.imp fun draft here => ?_
  obtain rfl := Option.some.inj (isThere.symm.trans here)
  rw [notEmpty held here, if_neg (by decide), closeDefault, defaultMethod, Option.isSome_some,
    if_pos rfl, gives_bind]
  refine (gives_finishMain_emits openMethods).imp ?_
  rintro ⟨prepared, _⟩ ⟨stays, main⟩
  rw [gives_bind, closeAt, gives_bind]
  refine gives_draft.imp fun again there => ?_
  have inRange := (List.getElem?_eq_some_iff.mp here).1
  obtain rfl : prepared = again := by simpa [setDraft, inRange] using there
  rw [gives_bind]
  refine (TypeDraft.gives_close_last (stays.trans isOpen) main _ namespaces).imp ?_
  rintro ⟨closed, table, _⟩ ⟨isClosed, body, bodies, slot, opcodes⟩
  refine ⟨closed, prepared.bodies, body, ?_, isClosed, bodies, slot.trans isMain, ?_⟩
  · simp [setDraft, inRange]
  · have opcodesMain : body.code.map (·.opcode) = method.code.map (·.opcode) ++ [.ret] := by
      rw [opcodes, MethodDraft.emit, MethodDraft.append, map_append, map_singleton]
    rw [← getLast?_map, opcodesMain, getLast?_concat]

theorem MainStands.handsOver {including : Bool} {mainClassName : String} {namespaces : List String}
    {dropped : Option Nat} {first last : Session} {compiled : CompiledModule}
    (stands : session.MainStands main) (accounted : session.Accounted)
    (rostered : session.Rostered including mainClassName)
    (handsOver : session.HandsOver namespaces dropped first last compiled) :
    ∃ type ∈ compiled.types, compiled.table.lookup mainClassName = some type.id ∧
      ∃ earlier body, type.bodies = earlier ++ [body] ∧ body.slot = .method main ∧
        (∀ other ∈ earlier, other.slot ≠ .method main) ∧
          body.code.getLast?.map (·.opcode) = some .ret := by
  have closes := handsOver.closes_last
  obtain ⟨problems, finished⟩ := handsOver.default
  have toFirst := (Session.gives_finishDefault session namespaces).of_ok finished
  obtain ⟨closed, earlier, body, here, isClosed, bodies, slot, returns⟩ :=
    (stands.gives_finishDefault accounted namespaces).of_ok finished
  -- What is closed after that does not touch the class any more.
  obtain ⟨there, -⟩ := handsOver.sealed (toFirst.accounted accounted) 0 closed here isClosed
  have kept : dropped = none := Except.ok.inj
    (handsOver.unused.symm.trans (stands.unusedDefault?_eq accounted))
  obtain ⟨-, -, -, -, defaultType, -⟩ := stands
  refine ⟨⟨closed.id, closed.bodies⟩, ?_, ?_, earlier, body, bodies, slot, ?_, returns⟩
  · rw [handsOver.types]
    exact mem_map_of_mem (mem_withoutDraft.mpr ⟨0, there, by simp [kept]⟩)
  · rw [handsOver.table]
    exact (handsOver.rostered rostered).lookup_implicit (closes.defaultType.trans defaultType) there
  · obtain ⟨definition, -, slots, -⟩ :=
      (closes.accounted accounted).bodies_of_closed (mem_of_getElem? there) isClosed
    have distinct := slots.nodup_iff.mpr TypeDef.nodup_slots
    rw [bodies, map_append, map_singleton, slot, nodup_append] at distinct
    intro other inside isMain
    exact distinct.2.2 _ (mem_map_of_mem inside) _ mem_cons_self isMain

end Session

/-! ## Builds -/

theorem Build.Reached.mainStands {files : FileTree} {stream : TokenStream} {options : BuildOptions}
    {autoName : Bool} {session : Session} {main : MemberRef} {state : Build}
    (created : Session.create { options with header := stream.header } autoName = .ok session)
    (defaultType : session.defaultType = some 0) (defaultMethod : session.defaultMethod = some main)
    (layers : session.layers = [⟨0, true, false, [⟨.method main, false⟩]⟩])
    (reached : Reached files stream options autoName state) : state.compiler.session.MainStands main := by
  have base : bodies session.layers = [.method 0 (.method main)] := by simp [layers, bodies,
    Layer.bodies]
  -- What was begun before the first token is below all that the braces have begun.
  have keeps {state : Build} (reached : Reached files stream options autoName state) :
      Begun.method 0 (.method main) ∈ bodies state.compiler.session.layers := by
    obtain ⟨begun, -, covered⟩ := reached.exists_begun created
    rw [base] at covered
    exact covered.subset (mem_append_right _ mem_cons_self)
  suffices state.compiler.session.defaultType = some 0 ∧
      state.compiler.session.defaultMethod = some main ∧
          Anchored (.method main) state.compiler.session.layers from
    Session.mainStands_of_anchored this.1 this.2.1 this.2.2
  induction reached with
  | start again =>
    obtain rfl := Except.ok.inj (created.symm.trans again)
    exact ⟨defaultType, defaultMethod, [], _, [], layers, rfl, rfl, rfl⟩
  | @step state later token rest reached next processed ih =>
    obtain ⟨sameDefault, sameMethod, anchored⟩ := ih
    obtain ⟨begun, recalls, -⟩ := reached.exists_begun created
    obtain ⟨-, -, restacks⟩ := recalls_process recalls processed
    refine ⟨restacks.defaultType.trans sameDefault, restacks.defaultMethod.trans sameMethod, ?_⟩
    exact anchored.steps restacks.layers (keeps (reached.step next processed))

/-- A script's main function lasts. Let the name of the implicit class be free in the host library.
From the new session on, in every state of the build of a script, the main function is open, the
outermost open method of the implicit class. In the module, the last body of that class is the body
of the main function, it is the only one, and its last instruction returns. -/
theorem script_main_lasts (files : FileTree) (stream : TokenStream) (options : BuildOptions)
    (autoName : Bool) (isScript : stream.header = .script)
    (free : Host.table.lookup options.mainClassName = none) :
    ∃ session main, Session.create { options with header := stream.header } autoName = .ok session ∧
      session.table.method main = .ok Session.mainDef ∧
      (∀ state, Build.Reached files stream options autoName state →
        state.compiler.session.MainStands main) ∧
      ∀ result, build files stream options autoName = .ok result →
        ∃ type ∈ result.compiled.types, result.compiled.table.lookup options.mainClassName =
          some type.id ∧ ∃ earlier body, type.bodies = earlier ++ [body] ∧
            body.slot = .method main ∧ (∀ other ∈ earlier, other.slot ≠ .method main) ∧
                body.code.getLast?.map (·.opcode) = some .ret := by
  obtain ⟨session, main, created, isMain, defaultType, defaultMethod, layers⟩ :=
    Session.create_script { options with header := stream.header } isScript free autoName
  have stands {state : Build} (reached : Build.Reached files stream options autoName state) :
      state.compiler.session.MainStands main :=
    reached.mainStands created defaultType defaultMethod layers
  refine ⟨session, main, created, isMain, fun state reached => stands reached,
    fun result built => ?_⟩
  obtain ⟨done, reached, namespaces, dropped, first, last, handsOver⟩ :=
    exists_handsOver_of_build built
  exact (stands reached).handsOver reached.accounted reached.rostered handsOver

/-- A script with a function inside of which a class is declared and not ended, and with more
closing braces than opening ones. -/
def unbalancedScript : TokenStream where
  header := .script
  platform := 0
  tokens :=
    [.block false, .function "f" "" .plain .everywhere, .block true,
      .classOpen "A" .plain .everywhere, .block false, .block false, .block false, .expressionEnd]

/-- The stray braces do not end the main method, whose body is the last of its type. -/
theorem unbalancedScript_main_lasts :
    unbalancedScript.header = .script ∧ Host.table.lookup "Program" = none ∧
      ∃ result main, build (.empty []) unbalancedScript {} false = .ok result ∧
        (result.compiled.types.map fun type => type.bodies.length) = [2, 0] ∧
        ∃ type ∈ result.compiled.types, result.compiled.table.lookup "Program" = some type.id ∧
          ∃ earlier body, type.bodies = earlier ++ [body] ∧ body.slot = .method main ∧
            body.code.getLast?.map (·.opcode) = some .ret := by
  have free : Host.table.lookup "Program" = none := by decide +kernel
  obtain ⟨session, main, -, -, -, lasts⟩ := script_main_lasts (.empty []) unbalancedScript {}
    false rfl free
  obtain ⟨result, built, count⟩ : ∃ result, build (.empty []) unbalancedScript {} false =
      .ok result ∧ (result.compiled.types.map fun type => type.bodies.length) = [2, 0] := ⟨_, rfl, rfl⟩
  obtain ⟨type, inside, isNamed, earlier, body, bodies, slot, -, returns⟩ := lasts result built
  exact ⟨rfl, free, result, main, built, count, type, inside, isNamed, earlier, body, bodies,
    slot, returns⟩

end OnePass
