import OnePass.Proofs.Sealing

/-! # Declared types and their names

The types of a build are those of the host library, those that the program declares, which have
drafts, and those of the modules that it includes. What a type is called is settled when it joins.

* `Session.Rostered` — the table of a session continues that of the host library, its drafts are
  those of declared types, and the implicit class has the name that the options give it. This holds
  in every state of a build.
* `Session.HandsOver` — how a session becomes a module: types are closed, and the implicit class may
  be left out. -/

namespace OnePass

open List SymbolTable

namespace Session

/-! ## In a session -/

/-- The types of a session are those of the host library and those that joined it, and drafts are of
declared types. The implicit class has the given name. -/
structure Rostered (including : Bool) (mainClassName : String) (session : Session) : Prop where
  table : Host.table.Continues including session.table
  declared : ∀ id ∈ session.drafts.map (·.id), ∃ type, session.table.types[id]? = some type ∧
    type.origin = .declared
  implicit : ∀ place ∈ session.defaultType, ∃ id type,
    (session.drafts.map (·.id))[place]? = some id ∧ session.table.types[id]? = some type ∧
      type.fullName = mainClassName

variable {including : Bool} {mainClassName : String} {session later : Session}

namespace Rostered

variable (rostered : session.Rostered including mainClassName)

include rostered

/-- Types and drafts are added, and those of before keep their places. -/
theorem extend (continues : session.table.Continues including later.table)
    (ids : session.drafts.map (·.id) <+: later.drafts.map (·.id))
    (declared : ∀ id ∈ later.drafts.map (·.id), id ∈ session.drafts.map (·.id) ∨
      ∃ type, later.table.types[id]? = some type ∧ type.origin = .declared)
    (sameDefault : later.defaultType = session.defaultType) :
    later.Rostered including mainClassName := by
  refine ⟨rostered.table.trans continues, fun id here => ?_, fun place isDefault => ?_⟩
  · rcases declared id here with isOld | isNew
    · obtain ⟨type, found, origin⟩ := rostered.declared id isOld
      obtain ⟨same, foundLater, head⟩ := continues.exists_later found
      have sameOrigin : same.head.origin = type.head.origin := congrArg TypeDef.origin head
      exact ⟨same, foundLater, sameOrigin.trans origin⟩
    · exact isNew
  · obtain ⟨id, type, isThere, found, isNamed⟩ := rostered.implicit place (sameDefault ▸ isDefault)
    obtain ⟨same, foundLater, head⟩ := continues.exists_later found
    exact ⟨id, same, getElem?_extended ids isThere, foundLater,
      (TypeDef.fullName_of_head head).trans isNamed⟩

theorem fill (fills : session.table.Fills later.table)
    (ids : later.drafts.map (·.id) = session.drafts.map (·.id))
    (sameDefault : later.defaultType = session.defaultType) :
    later.Rostered including mainClassName := by
  refine rostered.extend fills.continues (by rw [ids]) (fun id here => .inl ?_) sameDefault
  rwa [ids] at here

end Rostered

theorem ids_of_outline (same : later.outline = session.outline) :
    later.drafts.map (·.id) = session.drafts.map (·.id) := by
  have drafts : later.drafts.map (·.outline) = session.drafts.map (·.outline) :=
    congrArg Session.drafts same
  have mapped := congrArg (map (·.id)) drafts
  rwa [map_map, map_map] at mapped

/-- What an action does, it does to the same types or to others that join. -/
theorem Moves.rostered (moves : session.Moves including later)
    (rostered : session.Rostered including mainClassName) :
    later.Rostered including mainClassName := by
  cases moves with
  | code same =>
    have table : later.outline.table = session.outline.table := congrArg Session.table same
    have sameDefault : later.outline.defaultType = session.outline.defaultType :=
      congrArg Session.defaultType same
    exact rostered.fill (table ▸ .refl _) (ids_of_outline same) sameDefault
  | @change place draft changed here _ drafts id _ _ fills sameDefault =>
    refine rostered.fill fills ?_ sameDefault
    rw [drafts]
    exact ids_setDraft here id
  | add drafts _ continues declared sameDefault =>
    refine rostered.extend continues (drafts.map _) (fun id inside => ?_) sameDefault
    obtain ⟨draft, here, rfl⟩ := mem_map.mp inside
    rcases declared draft here with isOld | ⟨type, found, origin, -⟩
    · exact .inl (mem_map_of_mem isOld)
    · exact .inr ⟨type, found, origin⟩

/-- Every draft stays the draft of its type. -/
theorem Moves.ids (moves : session.Moves including later) :
    session.drafts.map (·.id) <+: later.drafts.map (·.id) := by
  cases moves with
  | code same => rw [ids_of_outline same]
  | change here _ drafts id =>
    have kept := ids_setDraft here id
    rw [setDraft, ← drafts] at kept
    rw [kept]
  | add drafts => exact drafts.map _

/-- The implicit class stays the implicit class. -/
theorem Moves.defaultType (moves : session.Moves including later) :
    later.defaultType = session.defaultType := by
  cases moves with
  | code same =>
    have outlined : later.outline.defaultType = session.outline.defaultType :=
      congrArg Session.defaultType same
    exact outlined
  | change _ _ _ _ _ _ _ sameDefault => exact sameDefault
  | add _ _ _ _ sameDefault => exact sameDefault

theorem Becomes.defaultType (becomes : session.Becomes including later)
    (accounted : session.Accounted) : later.defaultType = session.defaultType := by
  have kept : ∀ before after : Session, before.Accounted → before.Moves including after →
      before.defaultType = session.defaultType → after.defaultType = session.defaultType :=
    fun _ _ _ moves same => moves.defaultType.trans same
  exact becomes.keeps_moves accounted kept rfl

theorem Becomes.rostered (becomes : session.Becomes including later) (accounted : session.Accounted)
    (rostered : session.Rostered including mainClassName) : later.Rostered including mainClassName :=
  becomes.keeps_moves accounted (fun _ _ _ moves rostered => moves.rostered rostered) rostered

/-! ### New sessions -/

theorem rostered_of_host (table : session.table = Host.table) (drafts : session.drafts = [])
    (noDefault : session.defaultType = none) : session.Rostered including mainClassName := by
  refine ⟨table ▸ .refl _, fun id here => ?_, fun place isDefault => ?_⟩
  · simp [drafts] at here
  · simp [noDefault] at isDefault

theorem rostered_openDefault (table : session.table = Host.table) (drafts : session.drafts = [])
    (noDefault : session.defaultType = none) (isNamed : session.options.mainClassName =
      mainClassName) :
    session.openDefault.Rostered including mainClassName := by
  have bare : session.Rostered including mainClassName := rostered_of_host table drafts noDefault
  rw [openDefault]
  split
  · exact bare
  · rename_i id later defined
    have continues : session.table.Continues including later :=
      (continues_define including ⟨rfl, .inl rfl⟩).of_ok defined
    rw [define] at defined
    split at defined
    · cases defined
    · cases defined
      have found : (session.table.types ++ [defaultDef
          session.options])[session.table.types.length]? = some (defaultDef session.options) :=
            getElem?_concat_length
      refine ⟨bare.table.trans continues, fun id here => ?_, fun place isDefault => ?_⟩
      · obtain rfl : id = session.table.types.length := by simpa using here
        exact ⟨_, found, rfl⟩
      · cases isDefault
        exact ⟨_, _, rfl, found, by simp [TypeDef.fullName, qualified, defaultDef, TypeDef.bare, isNamed]⟩

theorem Rostered.gives_openMain (rostered : session.Rostered including mainClassName) :
    Gives session.openMain (Rostered including mainClassName) := by
  rw [openMain]
  split
  · exact rostered
  · rename_i draft rest drafts
    rw [gives_bind]
    refine (gives_addMethod mainDef).imp ?_
    rintro ⟨ref, table⟩ ⟨revises, -⟩
    refine rostered.fill revises.fills ?_ rfl
    rw [drafts]
    rfl

theorem rostered_create (including : Bool) (options : BuildOptions) (autoName : Bool) :
    Gives (create options autoName) (Rostered including options.mainClassName) := by
  let start := blank options autoName
  have opened : start.openDefault.Rostered including options.mainClassName :=
    rostered_openDefault rfl rfl rfl rfl
  rw [create]
  split
  · exact opened
  · exact opened.gives_openMain
  · exact rostered_of_host rfl rfl rfl

theorem defaultType_create (options : BuildOptions) (autoName : Bool) :
    Gives (create options autoName) fun session =>
    ∀ place ∈ session.defaultType, options.header = .singleClass ∨
      options.header = .script ∧ Host.table.lookup options.mainClassName = none := by
  have isNamed (options : BuildOptions) : (defaultDef options).fullName = options.mainClassName := by
    simp [TypeDef.fullName, qualified, defaultDef, TypeDef.bare]
  rw [create, blank]
  split
  · rename_i isClass
    exact fun _ _ => .inl isClass
  · rename_i isScript
    rw [openDefault, define, isNamed]
    dsimp only
    cases known : Host.table.lookup options.mainClassName with
    | some id => exact fun place isDefault => by cases isDefault
    | none => exact gives_iff.mpr fun _ _ _ _ => .inr ⟨isScript, rfl⟩
  · exact fun place isDefault => by cases isDefault

/-! ## At the end -/

/-- How a session becomes a module: the implicit class is closed and then all others. If it has no
members it is left out. -/
structure HandsOver (session : Session) (namespaces : List String) (dropped : Option Nat)
    (first last : Session) (compiled : CompiledModule) : Prop where
  unused : session.unusedDefault? = .ok dropped
  default : ∃ problems, session.finishDefault namespaces = .ok (first, problems)
  closes : first.Closes last
  sealed : first.Accounted → first.Seals last
  table : compiled.table = last.table
  types : compiled.types = (withoutDraft dropped last.drafts).map fun draft =>
    ⟨draft.id, draft.bodies⟩

theorem exists_handsOver {namespaces : List String} {compiled : CompiledModule}
    {problems : List Problem} (finished : session.finish namespaces = .ok (compiled, problems)) :
    ∃ dropped first last, session.HandsOver namespaces dropped first last compiled := by
  have gives : Gives (session.finish namespaces) fun outcome =>
      ∃ dropped first last, session.HandsOver namespaces dropped first last outcome.1 := by
    rw [finish]
    refine gives_bind_ok fun dropped unused => ?_
    refine gives_bind_ok ?_
    rintro ⟨first, _⟩ closed
    rw [gives_bind]
    refine ((gives_self _).and (gives_closeEach namespaces _ first)).imp ?_
    rintro ⟨second, _⟩ ⟨closedOpen, toSecond, _⟩
    rw [gives_bind]
    refine ((gives_self _).and (gives_closeEach namespaces _ second)).imp ?_
    rintro ⟨last, _⟩ ⟨closedRest, toLast, _⟩
    have sealed : first.Accounted → first.Seals last := fun accounted =>
      ((accounted.seals_closeEach namespaces _).of_ok closedOpen).trans
        (((toSecond.accounted accounted).seals_closeEach namespaces _).of_ok closedRest)
    dsimp only
    split
    · exact ⟨dropped, first, last, unused, ⟨_, closed⟩, toSecond.trans toLast, sealed, rfl, rfl⟩
    · exact gives_bind_ok fun _ _ =>
        ⟨dropped, first, last, unused, ⟨_, closed⟩, toSecond.trans toLast, sealed, rfl, rfl⟩
  exact gives.of_ok finished

variable {namespaces : List String} {dropped : Option Nat} {first last : Session}
  {compiled : CompiledModule}

theorem HandsOver.closes_last (handsOver : session.HandsOver namespaces dropped first last compiled) :
    session.Closes last := by
  obtain ⟨problems, closed⟩ := handsOver.default
  exact ((gives_finishDefault session namespaces).of_ok closed).trans handsOver.closes

theorem HandsOver.rostered (handsOver : session.HandsOver namespaces dropped first last compiled)
    (rostered : session.Rostered including mainClassName) : last.Rostered including mainClassName :=
  rostered.fill handsOver.closes_last.table handsOver.closes_last.ids
    handsOver.closes_last.defaultType

/-- The name of the implicit class means this class. -/
theorem Rostered.lookup_implicit (rostered : session.Rostered including mainClassName) {place : Nat}
    {draft : TypeDraft} (isDefault : place ∈ session.defaultType)
    (here : session.drafts[place]? = some draft) :
    session.table.lookup mainClassName = some draft.id := by
  obtain ⟨id, type, isThere, found, isNamed⟩ := rostered.implicit place isDefault
  obtain rfl : draft.id = id := by
    rw [getElem?_map, here, Option.map_some] at isThere
    exact Option.some.inj isThere
  rw [← isNamed]
  exact rostered.table.catalogued_of_host draft.id type found

theorem HandsOver.ids (handsOver : session.HandsOver namespaces dropped first last compiled) :
    compiled.types.map (·.id) = (withoutDraft dropped last.drafts).map (·.id) := by
  rw [handsOver.types, List.map_map]
  rfl

end Session

/-! ## In a build -/

namespace Build

variable {files : FileTree} {stream : TokenStream} {options : BuildOptions} {autoName : Bool}
  {state : Build}

theorem Reached.rostered (reached : Reached files stream options autoName state) :
    state.compiler.session.Rostered true options.mainClassName := by
  obtain ⟨session, created, becomes⟩ := reached.becomes
  have rostered := (Session.rostered_create true _ _).of_ok created
  exact becomes.rostered ((Session.gives_create _ _).of_ok created) rostered

/-- Without includes, all types that join are declared. -/
theorem Reached.rostered_alone (alone : ∀ state path rest,
      Reached files stream options autoName state → state.compiler.stream ≠ .includeModule path :: rest)
    (reached : Reached files stream options autoName state) :
    state.compiler.session.Rostered false options.mainClassName := by
  obtain ⟨session, created, becomes⟩ := reached.becomes_alone alone
  have rostered := (Session.rostered_create false _ _).of_ok created
  exact becomes.rostered ((Session.gives_create _ _).of_ok created) rostered

/-- Where the tokens neither include modules nor import libraries, no module is included. -/
theorem Reached.includes_none
    (ordinary : ∀ path, Token.includeModule path ∉ stream.tokens ∧
      Token.importLibrary path ∉ stream.tokens)
    (reached : Reached files stream options autoName state) (path : String) (rest : List Token) :
    state.compiler.stream ≠ .includeModule path :: rest := by
  suffices state.compiler.stream ⊆ stream.tokens by
    intro next
    exact (ordinary path).1 (this (next ▸ mem_cons_self))
  induction reached with
  | start => exact List.Subset.refl _
  | @step state later token rest reached next processed ih =>
    have noImport : ∀ path, token ≠ .importLibrary path := by
      rintro path rfl
      exact (ordinary path).2 (ih (next ▸ mem_cons_self))
    obtain ⟨taken, isRest, -⟩ := (steps_process processed).stream noImport
    intro other inside
    refine ih (next ▸ mem_cons_of_mem _ ?_)
    rw [show rest = taken ++ later.compiler.stream from isRest]
    exact mem_append_right _ inside

theorem Reached.exists_handsOver (reached : Reached files stream options autoName state)
    {result : BuildResult} (finished : state.finish = .ok result) : ∃ namespaces dropped first last,
      state.compiler.session.HandsOver namespaces dropped first last result.compiled := by
  obtain ⟨others, checked, -⟩ := Compile.checkTermination_eq reached.sound
  have gives : Gives state.finish fun result => ∃ namespaces dropped first last,
      state.compiler.session.HandsOver namespaces dropped first last result.compiled := by
    rw [finish, checked, gives_bind, gives_ok]
    exact gives_bind_ok fun _ finished => ⟨_, Session.exists_handsOver finished⟩
  exact gives.of_ok finished

end Build

theorem exists_handsOver_of_build {files : FileTree} {stream : TokenStream} {options : BuildOptions}
    {autoName : Bool} {result : BuildResult} (built : build files stream options autoName =
      .ok result) :
    ∃ done, Build.Reached files stream options autoName done ∧ ∃ namespaces dropped first last,
      done.compiler.session.HandsOver namespaces dropped first last result.compiled := by
  obtain ⟨done, reached, -, finished⟩ := exists_reached_of_build built
  exact ⟨done, reached, reached.exists_handsOver finished⟩

end OnePass
