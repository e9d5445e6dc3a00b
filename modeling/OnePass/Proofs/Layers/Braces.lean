import OnePass.Proofs.Layers.Bodies
import OnePass.Proofs.Bodies.Complete

/-! # Closing braces

A closing brace knows the kind of its block only, and closes the innermost type or method. Whether
this is what its opening brace has begun depends on the heads that were read in between: a function
or a type without a body that was not ended stands in the way.

* `Compiler.Recalls` — the state of the compiler goes with what the open braces have begun.
* `Session.Ends` — what a closing brace closes, and that it closes nothing else.
* `Build.Orderly` — the runs in which no closing brace so far met a head that waits.

The main statement is `closing_brace_ends_its_own`: in such a run, the next closing brace closes
exactly what its opening brace has begun, if and only if no head is in its way; and one that ends a
plain block never closes anything. -/

namespace OnePass

open List

/-! ## Steps -/

namespace Compiler

/-- What the open braces have begun after a step on a token. In a list of interfaces a closing brace
has no effect. -/
def begunAfter (c : Compiler) (token : Token) (begun : List Begun) : List Begun :=
  match token with
  | .block true => begins c.session.layers :: begun
  | .block false => if c.interfaces.isSome then begun else begun.tail
  | _ => begun

/-- The layers are in order, and the open blocks are of the kinds that the open braces have
begun. -/
structure Recalls (c : Compiler) (begun : List Begun) : Prop where
  standing : c.session.Standing
  tidy : Tidy c.session.layers
  counted : c.nesting.blocks = c.blocks.length
  owners : c.blocks = begun.map (·.owner)

/-- What a step does to the bodies: an opening brace begins one, a closing brace takes the innermost
type or method away, and all else leaves them alone. -/
inductive Braces (token : Token) (c later : Compiler) (begun : List Begun) : List Begun → Prop
  | stays (same : bodies later.session.layers = bodies c.session.layers) :
      Braces token c later begun begun
  | opens (more : bodies later.session.layers = marks [begins c.session.layers] ++
      bodies c.session.layers) :
      Braces token c later begun (begins c.session.layers :: begun)
  | closes (isClose : token = .block false) (outside : c.interfaces = none)
      (shut : later.session.layers = shutLayers (begun.head?.map (·.owner)) c.session.layers) :
      Braces token c later begun begun.tail

variable {c later : Compiler} {token : Token} {begun : List Begun}

theorem Recalls.withStream (recalls : c.Recalls begun) (rest : List Token) :
    { c with stream := rest }.Recalls begun :=
  ⟨recalls.standing, recalls.tidy, recalls.counted, recalls.owners⟩

theorem begunAfter_of_other (isOther : ∀ isOpen, token ≠ .block isOpen) :
    c.begunAfter token begun = begun := by
  unfold begunAfter
  split
  · exact absurd rfl (isOther true)
  · exact absurd rfl (isOther false)
  · rfl

theorem Shuts.reshapes (shuts : c.Shuts later) :
    c.session.Reshapes (shutLayers c.blocks.head?) later.session := by
  obtain ⟨between, same, shut⟩ := shuts.session
  exact (Session.Reshapes.of_outline same).trans shut.reshapes

/-- Every step keeps to what the braces have begun. -/
theorem Recalls.step (recalls : c.Recalls begun) (token : Token) :
    (Compile.step token).Leads c fun _ later =>
    later.Recalls (c.begunAfter token begun) ∧
      Braces token c later begun (c.begunAfter token begun) ∧ c.session.Restacks later.session := by
  by_cases isBrace : ∃ isOpen, token = .block isOpen
  · obtain ⟨isOpen, rfl⟩ := isBrace
    cases isOpen with
    | true =>
      refine (Compile.opens_step c).imp fun _ later opens => ?_
      obtain ⟨standing, layers⟩ := opens.session.layers recalls.standing
      have blocks := opens.blocks recalls.standing
      refine ⟨⟨standing, ?_, ?_, ?_⟩, .opens ?_, layers ▸ .begins, opens.session.defaultType,
        opens.session.defaultMethod⟩
      · rw [layers]
        exact recalls.tidy.beginBody
      · rw [opens.count, blocks, recalls.counted, List.length_cons]
      · rw [blocks, recalls.owners, ← owner_begins]
        rfl
      · rw [layers]
        exact recalls.tidy.bodies_beginBody
    | false =>
      refine (Compile.shuts_step recalls.counted).imp fun _ later effect => ?_
      rw [begunAfter]
      split at effect
      · -- The brace is reported as no part of the list.
        rename_i inList
        rw [if_pos inList]
        have stays := effect.stays.session
        obtain ⟨standing, layers⟩ := stays.layers recalls.standing
        refine ⟨⟨standing, ?_, ?_, ?_⟩, .stays (by rw [layers, id]), layers ▸ .shifts .stays,
          stays.defaultType, stays.defaultMethod⟩
        · rw [layers]
          exact recalls.tidy
        · rw [effect.nesting, effect.blocks, recalls.counted]
        · rw [effect.blocks, recalls.owners]
      · rename_i outside
        rw [if_neg outside]
        have shuts := effect.reshapes
        obtain ⟨standing, layers⟩ := shuts.layers recalls.standing
        have owner : c.blocks.head? = begun.head?.map (·.owner) := by rw [recalls.owners, List.head?_map]
        refine ⟨⟨standing, ?_, ?_, ?_⟩, .closes rfl (by simpa using outside)
          (by rw [layers, owner]), layers ▸ .shuts _, shuts.defaultType, shuts.defaultMethod⟩
        · rw [layers]
          exact recalls.tidy.shut _
        · rw [effect.count, effect.blocks, recalls.counted, List.length_tail]
        · rw [effect.blocks, recalls.owners, List.map_tail]
  · have isOther : ∀ isOpen, token ≠ .block isOpen := fun isOpen same => isBrace ⟨isOpen, same⟩
    rw [begunAfter_of_other isOther]
    refine (Compile.shifts_step isOther c).imp fun _ later shifts => ?_
    obtain ⟨change, reshapes, shifts⟩ := shifts
    obtain ⟨standing, layers⟩ := reshapes.session.layers recalls.standing
    have shifts := layers ▸ shifts recalls.standing
    refine ⟨⟨standing, recalls.tidy.shifts shifts, ?_, ?_⟩,
      .stays (recalls.tidy.bodies_shifts shifts), .shifts shifts, reshapes.session.defaultType,
        reshapes.session.defaultMethod⟩
    · rw [reshapes.count, reshapes.blocks, recalls.counted]
    · rw [reshapes.blocks, recalls.owners]

/-- What the open braces have begun keeps its body. -/
theorem Braces.sublist {after base : List Begun} (braces : Braces token c later begun after)
    (recalls : c.Recalls begun) (covered : (marks begun ++ base).Sublist (bodies c.session.layers)) :
    (marks after ++ base).Sublist (bodies later.session.layers) := by
  cases braces with
  | stays same => rwa [same]
  | opens more =>
    have split : marks (begins c.session.layers :: begun) = marks [begins c.session.layers] ++
        marks begun :=
      filter_append [begins c.session.layers] begun
    rw [more, split, append_assoc]
    exact covered.append_left _
  | closes isClose outside shut =>
    rw [shut]
    cases begun with
    | nil => exact covered
    | cons top begun => exact recalls.tidy.marks_sublist_shut covered

/-- As long as no head is in the way of a closing brace, there are no other bodies. -/
theorem Braces.exact {after base : List Begun} (braces : Braces token c later begun after)
    (recalls : c.Recalls begun) (exact : marks begun ++ base = bodies c.session.layers)
    (free : token = .block false → c.interfaces = none → ∀ top ∈ begun.head?,
      top.isHindered c.session.layers = false) :
    marks after ++ base = bodies later.session.layers := by
  cases braces with
  | stays same => rw [same, exact]
  | opens more =>
    have split : marks (begins c.session.layers :: begun) = marks [begins c.session.layers] ++
        marks begun :=
      filter_append [begins c.session.layers] begun
    rw [more, split, append_assoc, exact]
  | closes isClose outside shut =>
    rw [shut]
    cases begun with
    | nil => exact exact
    | cons top begun => exact (recalls.tidy.marks_eq_shut exact (free isClose outside top rfl)).1

end Compiler

/-! ## The beginning of a build -/

namespace Session

/-- At the beginning at most the implicit class is open. -/
structure Fresh (session : Session) : Prop where
  standing : session.Standing
  tidy : Tidy session.layers

theorem fresh_of_default {session : Session} {draft : TypeDraft} (drafts : session.drafts = [draft])
    (openTypes : session.openTypes = []) (defaultType : session.defaultType = some 0)
    (isOpen : draft.isOpen = true) (begun : draft.initializing = false) : session.Fresh ∧
      session.layers = [draft.layer 0 true] := by
  have here : session.drafts[0]? = some draft := by simp [drafts]
  have places : session.places = [(0, true)] := by simp [places, openTypes, defaultType]
  have layers : session.layers = [draft.layer 0 true] := by
    rw [layers, places, layersAt_cons (layerAt_eq_some here isOpen true)]
    rfl
  refine ⟨⟨⟨by simp [places], ?_⟩, ?_⟩, layers⟩
  · intro entry inside
    obtain rfl : entry = (0, true) := by simpa [places] using inside
    rw [layerAt_eq_some here isOpen, Option.isSome_some]
  · rw [layers]
    refine ⟨fun layer inside waiting => ?_, pairwise_singleton _ _⟩
    obtain rfl := mem_singleton.mp inside
    cases begun.symm.trans waiting

theorem fresh_of_none {session : Session} (openTypes : session.openTypes = [])
    (defaultType : session.defaultType = none) : session.Fresh := by
  have places : session.places = [] := by simp [places, openTypes, defaultType]
  have layers : session.layers = [] := by
    rw [layers, places]
    rfl
  refine ⟨⟨by simp [places], by simp [places]⟩, ?_⟩
  rw [layers]
  exact ⟨forall_mem_nil _, List.Pairwise.nil⟩

theorem fresh_create (options : BuildOptions) (autoName : Bool) :
    Gives (create options autoName) Fresh := by
  rw [create]
  split
  · rw [gives_ok, openDefault]
    split
    · exact fresh_of_none rfl rfl
    · exact (fresh_of_default rfl rfl rfl rfl rfl).1
  · rw [openDefault]
    split
    · exact fresh_of_none rfl rfl
    · rw [openMain]
      exact gives_bind_ok fun _ _ => (fresh_of_default rfl rfl rfl rfl rfl).1
  · exact fresh_of_none rfl rfl

end Session

/-! ## What a closing brace closes -/

namespace Session

variable {session later between : Session}

/-- What a closing brace has closed. Apart from emitted code, no other type or method has
changed. -/
def Ends (session later : Session) : Begun → Prop
  | .type place =>
    ∃ draft closed, session.outline.drafts[place]? = some draft ∧ draft.isOpen = true ∧
      closed.isOpen = false ∧ later.outline.drafts = session.outline.drafts.set place closed ∧
        session.openTypes = place :: later.openTypes
  | .method place slot =>
    ∃ draft method rest body, session.outline.drafts[place]? = some draft ∧
      draft.openMethods = method :: rest ∧ method.slot = slot ∧ body.slot = slot ∧
      later.outline.drafts =
        session.outline.drafts.set place { draft with openMethods := rest, bodies := draft.bodies ++ [body] } ∧
      later.openTypes = session.openTypes
  | .plain => later.outline = session.outline

theorem Ends.of_outline {begun : Begun} (same : between.outline = session.outline)
    (ends : between.Ends later begun) : session.Ends later begun := by
  have openTypes : between.outline.openTypes = session.outline.openTypes :=
    congrArg Session.openTypes same
  have stack : between.openTypes = session.openTypes := openTypes
  cases begun <;> simpa only [Ends, same, stack] using ends

theorem getElem?_outline {place : Nat} {draft : TypeDraft}
    (here : session.drafts[place]? = some draft) :
    session.outline.drafts[place]? = some draft.outline := by
  rw [outline, getElem?_map, here, Option.map_some]

theorem drafts_outline_setDraft (place : Nat) (changed : TypeDraft) :
    (session.setDraft place changed).outline.drafts = session.outline.drafts.set place
      changed.outline :=
  map_set

/-- Nothing else is closed. -/
theorem Ends.unique {begun other : Begun} (ends : session.Ends later begun)
    (again : session.Ends later other) : begun = other := by
  -- A method that is finished leaves one more body than there was.
  have grows {place : Nat} {slot : MethodSlot} (ends : session.Ends later (.method place slot)) :
      later.outline.drafts[place]? ≠ session.outline.drafts[place]? := by
    obtain ⟨draft, method, rest, body, here, -, -, -, drafts, -⟩ := ends
    rw [drafts, getElem?_set_self (List.getElem?_eq_some_iff.mp here).1, here]
    intro same
    have bodies := congrArg (fun draft : TypeDraft => draft.bodies.length) (Option.some.inj same)
    simp at bodies
  have shrinks {place : Nat} (ends : session.Ends later (.type place)) : later.openTypes ≠
      session.openTypes := by
    obtain ⟨-, -, -, -, -, -, stack⟩ := ends
    rw [stack]
    exact fun same => absurd (congrArg length same) (by simp)
  cases begun with
  | plain =>
    cases other with
    | plain => rfl
    | type place => exact absurd (congrArg Session.openTypes ends) (shrinks again)
    | method place slot => exact absurd (congrArg (·.drafts[place]?) ends) (grows again)
  | type place =>
    cases other with
    | plain => exact absurd (congrArg Session.openTypes again) (shrinks ends)
    | type place =>
      obtain ⟨-, -, -, -, -, -, stack⟩ := ends
      obtain ⟨-, -, -, -, -, -, stackAgain⟩ := again
      rw [(cons_eq_cons.mp (stack.symm.trans stackAgain)).1]
    | method place slot =>
      obtain ⟨-, -, -, -, -, -, -, -, -, stack⟩ := again
      exact absurd stack (shrinks ends)
  | method place slot =>
    cases other with
    | plain => exact absurd (congrArg (·.drafts[place]?) again) (grows ends)
    | type place =>
      obtain ⟨-, -, -, -, -, -, -, -, -, stack⟩ := ends
      exact absurd stack (shrinks again)
    | method otherPlace otherSlot =>
      have changed := grows ends
      obtain ⟨draft, method, rest, body, here, openMethods, rfl, -⟩ := ends
      obtain ⟨other, otherMethod, otherRest, otherBody, there, otherMethods, rfl, -, drafts, -⟩ := again
      by_cases same : otherPlace = place
      · subst same
        obtain rfl := Option.some.inj (here.symm.trans there)
        rw [(cons_eq_cons.mp (openMethods.symm.trans otherMethods)).1]
      · rw [drafts, getElem?_set_ne same] at changed
        exact absurd rfl changed

theorem Standing.ends_closeType (standing : session.Standing) (namespaces : List String) :
    Gives (session.closeType namespaces) fun (later, _) =>
      session.Ends later (closedBy session.layers .type) := by
  rw [closeType]
  split
  · rename_i openTypes
    -- At most the implicit class is open, and it stays.
    have nothing : closedBy session.layers .type = .plain := by
      cases isDefault : session.defaultType with
      | none => simp [layers, places, openTypes, isDefault, layersAt, closedBy]
      | some index =>
        have places : session.places = [(index, true)] := by simp [places, openTypes, isDefault]
        obtain ⟨layer, found⟩ := Option.isSome_iff_exists.mp
          (standing.opened (index, true) (by simp [places]))
        rw [layers, places, layersAt_cons found, closedBy, if_pos (implicit_of_layerAt found).2]
    rw [gives_ok, nothing]
    exact rfl
  · rename_i index rest openTypes
    have isFirst : closedBy session.layers .type = .type index := by
      have places : session.places =
          (index, false) :: (rest.map (·, false) ++ session.defaultType.toList.map (·, true)) := by
        simp [places, openTypes]
      obtain ⟨layer, found⟩ := Option.isSome_iff_exists.mp
        (standing.opened (index, false) (by simp [places]))
      obtain ⟨place, implicit⟩ := implicit_of_layerAt found
      rw [layers, places, layersAt_cons found, closedBy, if_neg (by simp [implicit]), place]
    have isOpen : ∀ draft, session.drafts[index]? = some draft → draft.isOpen = true := by
      intro draft here
      have opened := standing.opened (index, false) (by simp [places, openTypes])
      by_contra isClosed
      simp [layerAt, here, isClosed] at opened
    rw [isFirst, closeAt, gives_bind]
    refine gives_draft.imp fun draft here => ?_
    rw [gives_bind]
    refine (draft.gives_close _ namespaces).imp ?_
    rintro ⟨closed, table, _⟩ ⟨-, isClosed, -⟩
    refine ⟨draft.outline, closed.outline, getElem?_outline here, isOpen draft here,
      isClosed, ?_, openTypes⟩
    exact drafts_outline_setDraft index closed

theorem Standing.ends_closeMethod (standing : session.Standing) :
    Gives session.closeMethod fun (later, _) =>
      session.Ends later (closedBy session.layers .method) := by
  rw [closeMethod]
  refine gives_bind_ok fun entry current => ?_
  cases entry with
  | none =>
    rw [standing.layers_of_none current]
    exact gives_ok.mpr rfl
  | some entry =>
    obtain ⟨index, draft⟩ := entry
    obtain ⟨-, here, isOpen⟩ := current?_eq_some current
    obtain ⟨-, implicit, outer, shape, -⟩ := standing.replace current isOpen
    dsimp only
    rw [gives_bind, TypeDraft.closeMethod, shape]
    cases methods : draft.openMethods with
    | nil =>
      have nothing : closedBy (draft.layer index implicit :: outer) .method = .plain := by
        simp [closedBy, TypeDraft.layer, methods]
      rw [gives_ok, nothing]
      exact outline_setDraft here rfl
    | cons method rest =>
      have isFirst : closedBy (draft.layer index implicit :: outer) .method = .method index
          method.slot := by
        simp [closedBy, TypeDraft.layer, methods, MethodDraft.openMethod]
      rw [isFirst, gives_bind]
      refine method.gives_finish.imp ?_
      rintro ⟨body, _⟩ signature
      have slot : body.slot = method.slot := congrArg Signature.slot signature
      have outlined : draft.outline.openMethods = method.outline :: rest.map (·.outline) := by
        simp [TypeDraft.outline, methods]
      refine ⟨draft.outline, method.outline, rest.map (·.outline), body, getElem?_outline here,
        outlined, rfl, slot, ?_, rfl⟩
      exact drafts_outline_setDraft index _

/-- A closing brace closes the innermost type or method, as the kind of its block says. -/
theorem Standing.ends_shut (standing : session.Standing) {owner : BlockOwner}
    (shut : session.ShutBy later (some owner)) :
    session.Ends later (closedBy session.layers owner) := by
  cases owner with
  | type =>
    obtain ⟨namespaces, problems, closed⟩ := shut
    exact (standing.ends_closeType namespaces).of_ok closed
  | method =>
    obtain ⟨problems, closed⟩ := shut
    exact standing.ends_closeMethod.of_ok closed
  | plain =>
    cases shut
    exact rfl

theorem Standing.nodup_places (standing : session.Standing) :
    (session.layers.map (·.place)).Nodup := by
  have each : ∀ places : List (Nat × Bool), (∀ entry ∈ places,
      (session.layerAt entry.1 entry.2).isSome = true) → (session.layersAt places).map (·.place) =
          places.map (·.1) := by
    intro places opened
    induction places with
    | nil => rfl
    | cons entry places ih =>
      obtain ⟨first, others⟩ := forall_mem_cons.mp opened
      obtain ⟨layer, found⟩ := Option.isSome_iff_exists.mp first
      rw [layersAt_cons found, map_cons, map_cons, (implicit_of_layerAt found).1, ih others]
  rw [layers, each _ standing.opened]
  exact standing.distinct

theorem Accounted.nodup_methods (accounted : session.Accounted) :
    ∀ layer ∈ session.layers, (layer.methods.map (·.slot)).Nodup := by
  intro layer inside
  obtain ⟨⟨place, implicit⟩, -, found⟩ := mem_filterMap.mp inside
  obtain ⟨draft, here, shown⟩ := Option.bind_eq_some_iff.mp found
  obtain ⟨type, -, accounts⟩ := accounted.accounts draft (mem_of_getElem? here)
  have all : (draft.signatures.map (·.slot)).Nodup :=
    (accounts.signatures.map _).nodup_iff.mpr (TypeDef.slots_signatures ▸ TypeDef.nodup_slots)
  have slots : (draft.openMethods.map (·.slot)).Nodup := by
    rw [TypeDraft.signatures, map_append, map_map, map_map] at all
    exact (nodup_append.mp all).2.1
  split at shown
  · cases shown
    rw [TypeDraft.layer, map_map]
    exact slots
  · cases shown

end Session

/-! ## Runs -/

namespace Build

variable {files : FileTree} {stream : TokenStream} {options : BuildOptions} {autoName : Bool}
  {state later : Build} {begun : List Begun} {token : Token} {rest : List Token}

theorem of_process {post : Compiler → Prop}
    (leads : (Compile.step token).Leads { state.compiler with stream := rest }
      fun _ after => post after)
    (processed : { state with compiler := { state.compiler with stream := rest } }.process token =
      .ok later) :
    post later.compiler := by
  have gives : Gives ({ state with compiler := { state.compiler with stream := rest } }.process
      token) fun later =>
      post later.compiler := by
    rw [process, gives_bind]
    exact Gives.imp leads fun _ met => met
  exact gives.of_ok processed

theorem recalls_start {session : Session} (fresh : session.Fresh) (files : FileTree)
    (tokens : List Token) : (initial session files tokens).compiler.Recalls [] :=
  ⟨fresh.standing, fresh.tidy, rfl, rfl⟩

theorem recalls_process (recalls : state.compiler.Recalls begun)
    (processed : { state with compiler := { state.compiler with stream := rest } }.process token =
      .ok later) :
    later.compiler.Recalls (state.compiler.begunAfter token begun) ∧
      Compiler.Braces token { state.compiler with stream := rest } later.compiler begun
        (state.compiler.begunAfter token begun) ∧
      state.compiler.session.Restacks later.compiler.session :=
  of_process ((recalls.withStream rest).step token) processed

/-- In every state of a build, what the open braces have begun has not been closed. -/
theorem Reached.exists_begun {session : Session}
    (created : Session.create { options with header := stream.header } autoName = .ok session)
    (reached : Reached files stream options autoName state) :
    ∃ begun, state.compiler.Recalls begun ∧
      (marks begun ++ bodies session.layers).Sublist (bodies state.compiler.session.layers) := by
  induction reached with
  | start again =>
    obtain rfl := Except.ok.inj (created.symm.trans again)
    exact ⟨[], recalls_start ((Session.fresh_create _ _).of_ok created) files _, .refl _⟩
  | @step state later token rest reached next processed ih =>
    obtain ⟨begun, recalls, covered⟩ := ih
    obtain ⟨recallsLater, braces, -⟩ := recalls_process recalls processed
    exact ⟨_, recallsLater, braces.sublist (recalls.withStream rest) covered⟩

/-- The states of a build, with what the open braces have begun. -/
inductive Braced (files : FileTree) (stream : TokenStream) (options : BuildOptions)
    (autoName : Bool) : Build → List Begun → Prop
  | start {session : Session}
      (created : Session.create { options with header := stream.header } autoName = .ok session) :
      Braced files stream options autoName
        { compiler := { session := session, files := files, stream := stream.tokens } } []
  | step {state later : Build} {token : Token} {rest : List Token} {begun : List Begun}
      (braced : Braced files stream options autoName state begun)
        (next : state.compiler.stream = token :: rest)
      (processed : { state with compiler := { state.compiler with stream := rest } }.process token =
        .ok later) :
      Braced files stream options autoName later (state.compiler.begunAfter token begun)

theorem Braced.recalls (braced : Braced files stream options autoName state begun) :
    state.compiler.Recalls begun := by
  induction braced with
  | start created => exact recalls_start ((Session.fresh_create _ _).of_ok created) files _
  | step _ _ processed ih => exact (recalls_process ih processed).1

/-- The states of a build in which no closing brace so far has met a head that waits, with what the
open braces have begun. -/
inductive Orderly (files : FileTree) (stream : TokenStream) (options : BuildOptions)
    (autoName : Bool) : Build → List Begun → Prop
  | start {session : Session}
      (created : Session.create { options with header := stream.header } autoName = .ok session) :
      Orderly files stream options autoName
        { compiler := { session := session, files := files, stream := stream.tokens } } []
  | step {state later : Build} {token : Token} {rest : List Token} {begun : List Begun}
      (orderly : Orderly files stream options autoName state begun)
        (next : state.compiler.stream = token :: rest)
      (free : token = .block false → state.compiler.interfaces = none → ∀ top ∈ begun.head?,
        top.isHindered state.compiler.session.layers = false)
      (processed : { state with compiler := { state.compiler with stream := rest } }.process token =
        .ok later) :
      Orderly files stream options autoName later (state.compiler.begunAfter token begun)

theorem Orderly.braced (orderly : Orderly files stream options autoName state begun) :
    Braced files stream options autoName state begun := by
  induction orderly with
  | start created => exact .start created
  | step _ next _ processed ih => exact ih.step next processed

theorem Orderly.reached (orderly : Orderly files stream options autoName state begun) :
    Reached files stream options autoName state := by
  induction orderly with
  | start created => exact .start created
  | step _ next _ processed ih => exact ih.step next processed

/-- As long as no head was in the way, the bodies that have begun are those of the open braces and
those from before the first token. -/
theorem Orderly.exact (orderly : Orderly files stream options autoName state begun) :
    ∃ base, marks begun ++ base = bodies state.compiler.session.layers := by
  induction orderly with
  | start => exact ⟨_, rfl⟩
  | @step state later token rest begun orderly next free processed ih =>
    obtain ⟨base, exact⟩ := ih
    have recalls := orderly.braced.recalls
    obtain ⟨-, braces, -⟩ := recalls_process recalls processed
    exact ⟨base, braces.exact (recalls.withStream rest) exact free⟩

end Build

/-- A closing brace ends what its opening brace has begun, unless a head is in its way. Let a
closing brace be processed outside of a list of interfaces. If its opening brace has begun nothing,
it closes nothing. In a run in which no closing brace so far has met a head that waits for a body,
it closes exactly what its opening brace has begun, if and only if no such head is in its way now:
for the body of a type, the innermost open type must not wait for its body, and for that of a
method, neither the innermost open type nor the innermost method of it. -/
theorem closing_brace_ends_its_own {files : FileTree} {stream : TokenStream}
    {options : BuildOptions} {autoName : Bool} {state later : Build} {top : Begun}
    {outer : List Begun} (braced : Build.Braced files stream options autoName state (top :: outer))
    (outside : state.compiler.interfaces = none) (rest : List Token)
    (processed : { state with compiler := { state.compiler with stream := rest } }.process
      (.block false) = .ok later) :
    (top = .plain → state.compiler.session.Ends later.compiler.session .plain) ∧
      (Build.Orderly files stream options autoName state (top :: outer) →
        (state.compiler.session.Ends later.compiler.session top ↔
          top.isHindered state.compiler.session.layers = false)) := by
  have recalls := braced.recalls
  -- Whatever the brace closes, it is the innermost type or method, and nothing else.
  have ends : state.compiler.session.Ends later.compiler.session
      (closedBy state.compiler.session.layers top.owner) := by
    have shuts : { state.compiler with stream := rest }.Shuts later.compiler := by
      have counted : { state.compiler with stream := rest }.nesting.blocks =
          { state.compiler with stream := rest }.blocks.length := recalls.counted
      have effect := Build.of_process (Compile.shuts_step counted) processed
      rwa [if_neg (by simp [outside])] at effect
    obtain ⟨between, same, shut⟩ := shuts.session
    have isOwner : { state.compiler with stream := rest }.blocks.head? = some top.owner := by
      show state.compiler.blocks.head? = some top.owner
      rw [recalls.owners, List.map_cons, List.head?_cons]
    rw [isOwner] at shut
    obtain ⟨standing, layers⟩ := (Session.Reshapes.of_outline same).layers recalls.standing
    have closed := standing.ends_shut shut
    rw [layers] at closed
    exact closed.of_outline same
  refine ⟨?_, fun orderly => ⟨fun endsTop => ?_, fun free => ?_⟩⟩
  · rintro rfl
    exact ends
  · obtain ⟨base, exact⟩ := orderly.exact
    by_contra hindered
    have distinct := orderly.reached.accounted.nodup_methods
    refine recalls.tidy.closedBy_ne_of_hindered recalls.standing.nodup_places distinct exact ?_
      (ends.unique endsTop)
    simpa using hindered
  · obtain ⟨base, exact⟩ := orderly.exact
    rw [(recalls.tidy.marks_eq_shut exact free).2] at ends
    exact ends

/-- A class whose method has a block of its own. -/
def nestedBlocks : TokenStream where
  header := .library
  platform := 0
  tokens :=
    [.classOpen "A" .plain .everywhere, .block true, .function "f" "" .plain .everywhere,
      .block true, .block true, .block false, .block false, .block false]

/-- The second closing brace ends the method, whose body the second opening brace has begun. -/
theorem nestedBlocks_end_method :
    ∃ state later begun, Build.Orderly (.empty []) nestedBlocks {} false state begun ∧
      begun = [.method 0 (.method ⟨18, 0⟩), .type 0] ∧
        state.compiler.stream = [.block false, .block false] ∧
          { state with compiler := { state.compiler with stream := [.block false] } }.process
          (.block false) = .ok later ∧ state.compiler.session.Ends later.compiler.session
          (.method 0 (.method ⟨18, 0⟩)) := by
  obtain ⟨state, begun, orderly, rfl, next, outside, free, later, processed⟩ :
      ∃ state begun, Build.Orderly (.empty []) nestedBlocks {} false state begun ∧
        begun = [.method 0 (.method ⟨18, 0⟩), .type 0] ∧
          state.compiler.stream = [.block false, .block false] ∧ state.compiler.interfaces = none ∧
            Begun.isHindered state.compiler.session.layers (.method 0 (.method ⟨18, 0⟩)) = false ∧
              ∃ later, { state with
                compiler := { state.compiler with stream := [.block false] } }.process (.block false) =
                  .ok later := by
    refine ⟨_, _, .step (.step (.step (.step (.step (.step (.start rfl) rfl nofun rfl) rfl
      nofun rfl) rfl nofun rfl) rfl nofun rfl) rfl nofun rfl) rfl ?_ rfl, ?_, rfl, rfl, ?_, _, rfl⟩
    all_goals decide +kernel
  exact ⟨state, later, _, orderly, rfl, next, processed,
    ((closing_brace_ends_its_own orderly.braced outside [.block false] processed).2 orderly).mpr free⟩

/-- A class with a method, inside of which the head of another function is neither given a body nor
ended. -/
def strayHead : TokenStream where
  header := .library
  platform := 0
  tokens :=
    [.classOpen "A" .plain .everywhere, .block true, .function "f" "" .plain .everywhere,
      .block true, .function "g" "" .plain .everywhere, .block false, .var "x" "int" false,
        .expressionEnd, .block false]

/-- A closing brace does not always end what its opening brace has begun, even where nothing is
reported: the brace that belongs to `f` closes `g`, and `x`, which follows it, is no field of the
class but a local of `f`. -/
theorem strayHead_closed_in_place :
    ∃ state later rest begun result, Build.Orderly (.empty []) strayHead {} false state begun ∧
      begun = [.method 0 (.method ⟨18, 0⟩), .type 0] ∧
        state.compiler.stream = .block false :: rest ∧ state.compiler.interfaces = none ∧
          { state with compiler := { state.compiler with stream := rest } }.process
          (.block false) = .ok later ∧
            ¬state.compiler.session.Ends later.compiler.session (.method 0 (.method ⟨18, 0⟩)) ∧
              build (.empty []) strayHead {} false = .ok result ∧ result.diagnostics = [] ∧
                (result.compiled.table.definition 18).fields = [] := by
  refine ⟨_, _, _, _, _, .step (.step (.step (.step (.step (.start rfl) rfl nofun rfl) rfl
    nofun rfl) rfl nofun rfl) rfl nofun rfl) rfl nofun rfl, ?_, rfl, rfl, rfl, ?_, rfl, rfl, rfl⟩
  · decide +kernel
  · -- The innermost open method is the other function.
    rintro ⟨draft, method, rest, body, here, shape, isSlot, -⟩
    cases here
    cases shape
    cases isSlot

end OnePass
