import OnePass.Proofs.Apart.Step
import OnePass.Proofs.Finals.Step

/-! # Stores to finals

A final local carries a mark that is set by its first store, and a store to a marked one is refused.
So a final local has one store at most in the module, as long as methods are opened and closed
between expressions: a target that is still held while the current method changes is looked up in
the wrong method. A final field carries no mark. It has at most as many stores as there are tokens
that ask for one.

* `trace`: the states of a build, in order.
* `Build.Settles`: a step that leaves the current method leaves nothing behind that belongs to it.
* `Build.asked`: what the next token asks to be stored to.
* `Build.Keeping`: what holds in every state of such a build. -/

namespace OnePass

open Session List

/-- No bracket is open and no target is held. -/
def Compiler.isClear (c : Compiler) : Bool := c.kinds.isEmpty && c.targets.isEmpty

/-- The locals of every open method can be numbered. -/
def Session.Numbered (session : Session) : Prop := ∀ method ∈ session.openMethods,
      method.locals.length ≤ 65536

instance (session : Session) : Decidable session.Numbered :=
  inferInstanceAs (Decidable (∀ method ∈ session.openMethods, method.locals.length ≤ 65536))

/-! ## The states of a build -/

namespace Build

/-- The states of a run, the first one included, as far as no token ends in a fault. -/
def states : (fuel : Nat) → Build → List Build
  | 0, build => [build]
  | fuel + 1, build =>
    build ::
      match build.compiler.stream with
      | [] => []
      | token :: rest =>
        match (build.reading rest).process token with
        | .ok later => later.states fuel
        | .error _ => []

/-- The states between two states of a run, in order. -/
inductive Passes : Build → List Build → Build → Prop
  | last {build : Build} (empty : build.compiler.stream = []) : Passes build [build] build
  | next {build later done : Build} {token : Token} {rest : List Token} {states : List Build}
      (next : build.compiler.stream = token :: rest)
      (processed : (build.reading rest).process token = .ok later)
      (passes : Passes later states done) : Passes build (build :: states) done

theorem passes_of_run {fuel : Nat} {build done : Build} (ran : build.run fuel = .ok done) :
    build.Passes (build.states fuel) done := by
  induction fuel generalizing build with
  | zero =>
    rw [run] at ran
    split at ran
    · rename_i empty
      cases ran
      exact .last (List.isEmpty_iff.mp empty)
    · cases ran
  | succ fuel ih =>
    rw [states]
    cases next : build.compiler.stream with
    | nil =>
      rw [run, next] at ran
      cases ran
      exact .last next
    | cons token rest =>
      rw [run_succ next] at ran
      cases processed : (build.reading rest).process token with
      | error fault => simp [processed, bind, Except.bind] at ran
      | ok later =>
        simp only [processed, bind, Except.bind] at ran ⊢
        exact .next next processed (ih ran)

/-- What the next token asks to be stored to. -/
def asked (build : Build) : Option AssignTarget :=
  build.compiler.stream.head?.bind build.compiler.asked

/-- The stores that are asked for in some states. -/
def askedIn (states : List Build) : List Stored := states.flatMap fun state => storedBy state.asked

theorem askedIn_cons (build : Build) (states : List Build) :
    askedIn (build :: states) = storedBy build.asked ++ askedIn states :=
  flatMap_cons

/-- Where the current method changes, no bracket is open and no target is held. -/
def Settles (build later : Build) : Prop :=
  later.compiler.session.currentSlot? = build.compiler.session.currentSlot? ∨
    later.compiler.isClear = true

instance (build later : Build) : Decidable (build.Settles later) :=
  inferInstanceAs (Decidable (_ ∨ _))

end Build

/-- The states of a build, in order. -/
def trace (files : FileTree) (stream : TokenStream) (options : BuildOptions) (autoName : Bool) :
    List Build :=
  let options := { options with header := stream.header }
  match Session.create options autoName with
  | .error _ => []
  | .ok session =>
    Build.states (tokenBudget files options stream.tokens)
      { compiler := { session := session, files := files, stream := stream.tokens } }

/-! ## Steps -/

namespace Session

variable {session : Session}

theorem exists_current_of_slot {slot : MethodSlot} (isCurrent : session.currentSlot? = some slot) :
    ∃ method, session.currentMethod? = .ok (some method) ∧ method.slot = slot := by
  rw [currentSlot?] at isCurrent
  split at isCurrent
  · rename_i method current
    exact ⟨method, current, Option.some.inj isCurrent⟩
  · cases isCurrent

theorem Ledger.mono {finals : List (MethodSlot × UInt16)} {ref : MemberRef} {quota more : Nat}
    (ledger : session.Ledger finals ref quota) (le : quota ≤ more) :
    session.Ledger finals ref more :=
  { ledger with field := ledger.field.trans le }

theorem ledger_of_stores_eq_nil (none : session.stores = []) (ref : MemberRef) :
    session.Ledger [] ref 0 where
  limited method _ index _ := by simp [none]
  known := nofun
  final := nofun
  once := nofun
  field := by simp [none, storesTo]

end Session

namespace Compiler

variable {c later : Compiler} {asked : List Stored}

/-- A state that is clear remembers nothing that could belong to a wrong method. -/
theorem grounded_of_isClear (clear : c.isClear = true) (numbered : c.session.Numbered) :
    c.Grounded := by
  intro method current
  obtain ⟨kinds, targets⟩ : c.kinds = [] ∧ c.targets = [] := by simpa [isClear] using clear
  refine ⟨numbered method (mem_openMethods_of_current current), ?_, fun target held => ?_⟩
  · rw [kinds]
    trivial
  · rw [targets] at held
    cases held

/-- After a step that stays in its method, what is remembered still belongs to that method. -/
theorem Turns.grounded_of_slot_eq (turns : c.Turns asked later)
    (distinct : later.session.slots.Nodup) (same : later.session.currentSlot? =
      c.session.currentSlot?) (numbered : later.session.Numbered) :
    later.Grounded := by
  obtain ⟨mid, booked, -, -, slot, grounded, switches⟩ := turns
  intro method current
  have isOpen := mem_openMethods_of_current current
  have isCurrent : mid.session.currentSlot? = some method.slot := by
    rw [slot, ← same, Session.currentSlot?, current]
  obtain ⟨before, currentBefore, sameSlot⟩ := Session.exists_current_of_slot isCurrent
  have beforeOpen := mem_openMethods_of_current currentBefore
  -- The current method was open before: one that was opened has a slot that no other method had.
  obtain rfl : method = before := by
    rcases switches.session.openMethods method isOpen with inMid | ⟨-, fresh⟩
    · obtain ⟨part, permuted, inLater⟩ := switches.session.slots
      exact eq_of_slot_eq (permuted.nodup_iff.mp (distinct.sublist inLater)) inMid beforeOpen
        sameSlot.symm
    · obtain ⟨part, permuted, inLater⟩ := fresh
      have isNew := (nodup_cons.mp (permuted.nodup_iff.mp (distinct.sublist inLater))).1
      exact absurd (sameSlot ▸ slot_mem beforeOpen) isNew
  have small : mid.Small := fun other otherCurrent => by
    rw [currentBefore] at otherCurrent
    cases otherCurrent
    exact numbered method isOpen
  have sits := grounded small method currentBefore
  exact ⟨sits.small, switches.kinds ▸ sits.stacked, fun target held =>
    sits.fits target (switches.targets held)⟩

theorem Turns.ledger (turns : c.Turns asked later) (distinct : later.session.slots.Nodup)
    {finals : List (MethodSlot × UInt16)} {ref : MemberRef} {quota : Nat}
    (ledger : c.session.Ledger finals ref quota) :
    later.session.Ledger finals ref (quota + asked.count (.field ref)) := by
  obtain ⟨mid, booked, within, keeps, -, -, switches⟩ := turns
  have kept := (keeps.trans switches.session.keeps).ledger distinct ledger
  rw [append_nil] at kept
  exact kept.mono (Nat.add_le_add_left (within.count_le _) quota)

end Compiler

namespace Build

variable {files : FileTree} {stream : TokenStream} {options : BuildOptions} {autoName : Bool}
variable {build later done : Build} {finals : List (MethodSlot × UInt16)} {ref : MemberRef}
  {quota : Nat}
variable {trail : List Build}

theorem turns_process (grounded : build.compiler.Grounded) {token : Token} {rest : List Token}
    (next : build.compiler.stream = token :: rest)
    (processed : (build.reading rest).process token = .ok later) :
    build.compiler.Turns (storedBy build.asked) later.compiler := by
  have reads : build.compiler.Calm (build.reading rest).compiler :=
    Compiler.steady_of_grounds_eq rfl grounded
  have asks : build.asked = (build.reading rest).compiler.asked token := by
    rw [asked, next]
    rfl
  have gives : Gives ((build.reading rest).process token) fun later =>
      (build.reading rest).compiler.Turns (storedBy build.asked) later.compiler := by
    rw [process, gives_bind, asks]
    exact Gives.imp (Compile.leads_step reads.grounded token) fun _ turns => turns
  exact reads.trans_turns (gives.of_ok processed)

/-- What holds in a state of a build: its ledger is kept, and what it remembers belongs to the
current method. -/
structure Keeping (files : FileTree) (stream : TokenStream) (options : BuildOptions)
    (autoName : Bool) (finals : List (MethodSlot × UInt16)) (ref : MemberRef) (quota : Nat)
    (build : Build) : Prop where
  reached : Reached files stream options autoName build
  grounded : build.compiler.Grounded
  ledger : build.compiler.session.Ledger finals ref quota

theorem Keeping.step (keeping : Keeping files stream options autoName finals ref quota build)
    {token : Token} {rest : List Token} (next : build.compiler.stream = token :: rest)
    (processed : (build.reading rest).process token = .ok later) (settles : build.Settles later)
    (numbered : later.compiler.session.Numbered) :
    Keeping files stream options autoName finals ref
    (quota + (storedBy build.asked).count (.field ref)) later := by
  have reached : Reached files stream options autoName later := keeping.reached.step next processed
  have turns := turns_process keeping.grounded next processed
  have distinct := reached.accounted.nodup_slots
  refine ⟨reached, ?_, turns.ledger distinct keeping.ledger⟩
  rcases settles with same | clear
  · exact turns.grounded_of_slot_eq distinct same numbered
  · exact Compiler.grounded_of_isClear clear numbered

/-! ## Runs -/

theorem Passes.exists_head (passes : build.Passes trail done) :
    ∃ others, trail = build :: others := by
  cases passes with
  | last => exact ⟨[], rfl⟩
  | next => exact ⟨_, rfl⟩

/-- A run books what its tokens ask for. -/
theorem Keeping.passes (keeping : Keeping files stream options autoName finals ref quota build)
    (passes : build.Passes trail done) (settled : trail.IsChain Settles)
    (numbered : ∀ state ∈ trail, state.compiler.session.Numbered) :
    Keeping files stream options autoName finals ref (quota + (askedIn trail).count (.field ref))
      done := by
  -- The quota grows from step to step by what the next token asks for.
  induction passes generalizing quota with
  | last => exact ⟨keeping.reached, keeping.grounded, keeping.ledger.mono (Nat.le_add_right _ _)⟩
  | next next processed passes ih =>
    obtain ⟨others, rfl⟩ := passes.exists_head
    obtain ⟨settles, settledRest⟩ := List.isChain_cons_cons.mp settled
    obtain ⟨-, numberedRest⟩ := List.forall_mem_cons.mp numbered
    have stepped := keeping.step next processed settles (numberedRest _ List.mem_cons_self)
    have kept := ih stepped settledRest numberedRest
    rwa [Nat.add_assoc, ← List.count_append, ← askedIn_cons] at kept

/-- What holds in the first state of a run holds in every state of it, with more stores booked. -/
theorem Keeping.of_mem (keeping : Keeping files stream options autoName finals ref quota build)
    (passes : build.Passes trail done) (settled : trail.IsChain Settles)
    (numbered : ∀ state ∈ trail, state.compiler.session.Numbered) {state : Build}
    (here : state ∈ trail) : ∃ quota others, Keeping files stream options autoName finals ref quota
      state ∧ state.Passes others done ∧ others.IsChain Settles ∧ ∀ other ∈ others,
        other.compiler.session.Numbered := by
  induction passes generalizing quota with
  | last empty =>
    obtain rfl := mem_singleton.mp here
    exact ⟨quota, _, keeping, .last empty, settled, numbered⟩
  | next next processed passes ih =>
    rcases mem_cons.mp here with rfl | inRest
    · exact ⟨quota, _, keeping, .next next processed passes, settled, numbered⟩
    · obtain ⟨others, rfl⟩ := passes.exists_head
      obtain ⟨settles, settledRest⟩ := isChain_cons_cons.mp settled
      obtain ⟨-, numberedRest⟩ := forall_mem_cons.mp numbered
      have stepped := keeping.step next processed settles (numberedRest _ mem_cons_self)
      exact ih stepped settledRest numberedRest inRest

/-- A final local of a method that was open at some time has one store at most at the end. -/
theorem Keeping.once_of_mem (keeping : Keeping files stream options autoName [] ref quota build)
    (passes : build.Passes trail done) (settled : trail.IsChain Settles)
    (numbered : ∀ state ∈ trail, state.compiler.session.Numbered) {state : Build}
    (here : state ∈ trail) {method : MethodDraft}
    (isOpen : method ∈ state.compiler.session.openMethods) {index : UInt16}
    (final : method.HasFinal index) : done.compiler.session.stores.count (method.slot, .loc index) ≤
      1 := by
  -- The final is watched from that state on.
  obtain ⟨_, others, there, passes, settled, numbered⟩ := keeping.of_mem passes settled numbered here
  have ledger := there.ledger.watch there.reached.accounted.nodup_slots isOpen final
  have kept := Keeping.passes ⟨there.reached, there.grounded, ledger⟩ passes settled numbered
  exact kept.ledger.once _ mem_cons_self

end Build

/-! ## Builds -/

/-- In a new session no method is finished, and no other is open than the implicit main function. -/
theorem Session.gives_create_bare (options : BuildOptions) (autoName : Bool) :
    Gives (create options autoName) fun session => ∀ draft ∈ session.drafts, draft.bodies = [] ∧
      ∀ method ∈ draft.openMethods, ∃ ref, method =
        { slot := .method ref, isStatic := true, paramsOpen := false } ∧
          session.table.marks? ref = some mainDef.marks := by
  let start := blank options autoName
  have drafts : start.openDefault.drafts = [] ∨ ∃ id, start.openDefault.drafts = [{ id := id }] := by
    rw [openDefault]
    split
    · exact .inl rfl
    · exact .inr ⟨_, rfl⟩
  rw [create]
  split
  · rcases drafts with none | ⟨id, one⟩
    · simp [start, none]
    · simp [start, one]
  · rw [openMain]
    rcases drafts with none | ⟨id, one⟩
    · rw [none]
      simp [start, none]
    · rw [one, gives_bind]
      refine (SymbolTable.gives_addMethod mainDef).imp ?_
      rintro ⟨ref, table⟩ ⟨-, -, marks⟩
      simp [TypeDraft.openMethod, TypeDraft.addMember, marks]
  · simp [blank]

theorem Session.gives_create_blank (options : BuildOptions) (autoName : Bool) :
    Gives (create options autoName) fun session => session.stores = [] ∧ session.Numbered := by
  refine (gives_create_bare options autoName).imp fun session bare => ⟨?_, fun method isOpen => ?_⟩
  · refine flatMap_eq_nil_iff.mpr fun draft here => ?_
    obtain ⟨finished, methods⟩ := bare draft here
    have none : draft.openMethods.flatMap (·.stores) = [] :=
        flatMap_eq_nil_iff.mpr fun method isOpen => by
      obtain ⟨ref, rfl, -⟩ := methods method isOpen
      rfl
    rw [TypeDraft.stores, finished, none]
    rfl
  · obtain ⟨draft, here, inDraft⟩ := mem_flatMap.mp isOpen
    obtain ⟨ref, rfl, -⟩ := (bare draft here).2 method inDraft
    exact Nat.zero_le _

namespace Build

variable {files : FileTree} {stream : TokenStream} {options : BuildOptions} {autoName : Bool}
  {done : Build}

theorem keeping_start {session : Session}
    (created : Session.create { options with header := stream.header } autoName = .ok session)
    (ref : MemberRef) : Keeping files stream options autoName [] ref 0
      { compiler := { session := session, files := files, stream := stream.tokens } } := by
  obtain ⟨none, numbered⟩ := (gives_create_blank _ _).of_ok created
  exact ⟨.start created, Compiler.grounded_of_isClear rfl numbered,
    Session.ledger_of_stores_eq_nil none ref⟩

theorem Reached.stores_of_finish (reached : Reached files stream options autoName done)
    {result : BuildResult} (finished : done.finish = .ok result) :
    result.compiled.stores.Subperm done.compiler.session.stores := by
  obtain ⟨others, checked, -⟩ := Compile.checkTermination_eq reached.sound
  have gives : Gives done.finish fun result =>
      result.compiled.stores.Subperm done.compiler.session.stores := by
    rw [finish, checked, gives_bind, gives_ok, gives_bind]
    exact (done.compiler.session.gives_finish_stores _).imp fun _ fewer => fewer
  exact gives.of_ok finished

end Build

/-- Stores to finals are limited, if no step changes the current method while a bracket is open or a
target is held. A final local of any method has one store at most in the whole module. A field,
final or not and of whichever type, has at most as many as the tokens of the build ask for. -/
theorem stores_to_finals_are_limited {files : FileTree} {stream : TokenStream}
    {options : BuildOptions} {autoName : Bool} {result : BuildResult}
    (settled : (trace files stream options autoName).IsChain Build.Settles)
    (numbered : ∀ state ∈ trace files stream options autoName, state.compiler.session.Numbered)
    (built : build files stream options autoName = .ok result) :
    (∀ state ∈ trace files stream options autoName, ∀ method ∈ state.compiler.session.openMethods,
      ∀ index, method.HasFinal index → result.compiled.stores.count (method.slot, .loc index) ≤ 1) ∧
    ∀ ref, storesTo (.field ref) result.compiled.stores ≤
      (Build.askedIn (trace files stream options autoName)).count (.field ref) := by
  rw [trace] at settled numbered ⊢
  rw [build] at built
  cases created : Session.create { options with header := stream.header } autoName with
  | error fault => simp [created, bind, Except.bind] at built
  | ok session =>
    simp only [created, bind, Except.bind] at built settled numbered ⊢
    split at built
    · cases built
    · rename_i done ran
      have passes := Build.passes_of_run ran
      have start (ref : MemberRef) : Build.Keeping files stream options autoName [] ref 0 _ :=
        Build.keeping_start created ref
      have kept (ref : MemberRef) := (start ref).passes passes settled numbered
      refine ⟨fun state here method isOpen index final => ?_, fun ref => ?_⟩
      · -- Of which field the stores are counted does not matter here.
        have once := (start ⟨0, 0⟩).once_of_mem passes settled numbered here isOpen final
        exact (((kept ⟨0, 0⟩).reached.stores_of_finish built).count_le _).trans once
      · have field := (kept ref).ledger.field
        rw [Nat.zero_add] at field
        exact (((kept ref).reached.stores_of_finish built).countP_le _).trans field

/-- A static class with a final field, which a method sets from a final local. -/
def limitedCounter : TokenStream where
  header := .library
  platform := 0
  tokens :=
    [.classOpen "Counter" .static .everywhere, .block true, .var "limit" "int" true, .expressionEnd,
      .function "Reset" "" .static .everywhere, .block true, .var "start" "int" true, .operator .assign,
      .value (.int 1), .expressionEnd, .literal "limit", .operator .assign, .literal "start",
        .expressionEnd,
      .block false, .block false]

/-- The final local and the final field are each stored to at most once. -/
theorem limitedCounter_stores :
    (trace (.empty []) limitedCounter {} false).IsChain Build.Settles ∧
      (∀ state ∈ trace (.empty []) limitedCounter {} false, state.compiler.session.Numbered) ∧
      ∃ result, build (.empty []) limitedCounter {} false = .ok result ∧
        result.compiled.stores.count (.method ⟨18, 0⟩, .loc 0) ≤ 1 ∧
        storesTo (.field ⟨18, 0⟩) result.compiled.stores ≤ 1 := by
  have settled : (trace (.empty []) limitedCounter {} false).IsChain
    Build.Settles := by decide +kernel
  have numbered : ∀ state ∈ trace (.empty []) limitedCounter {} false,
      state.compiler.session.Numbered := by
    decide +kernel
  have final : ∃ state ∈ trace (.empty []) limitedCounter {} false,
      ∃ method ∈ state.compiler.session.openMethods, method.slot = .method ⟨18, 0⟩ ∧
          method.HasFinal 0 := by
    decide +kernel
  have asks : (Build.askedIn (trace (.empty []) limitedCounter {} false)).count (.field ⟨18, 0⟩) =
      1 := by
    decide +kernel
  have succeeds : (build (.empty []) limitedCounter {} false).isOk = true := by decide +kernel
  refine ⟨settled, numbered, ?_⟩
  cases built : build (.empty []) limitedCounter {} false with
  | error fault => simp [built, Except.isOk, Except.toBool] at succeeds
  | ok result =>
    obtain ⟨locals, fields⟩ := stores_to_finals_are_limited settled numbered built
    obtain ⟨state, here, method, isOpen, slot, hasFinal⟩ := final
    refine ⟨result, rfl, ?_, ?_⟩
    · rw [← slot]
      exact locals state here method isOpen 0 hasFinal
    · rw [← asks]
      exact fields ⟨18, 0⟩

/-- A final field is stored to as often as is asked for, and nothing is reported. -/
theorem final_field_stored_twice :
    (build (.empty [])
        ⟨.library, 0,
          [Token.classOpen "Counter" .static .everywhere, .block true, .var "limit" "int" true,
            .expressionEnd, .function "Reset" "" .static .everywhere, .block true, .literal "limit",
              .operator .assign,
            .value (.int 1), .expressionEnd, .literal "limit", .operator .assign, .value (.int 2),
              .expressionEnd,
            .block false, .block false]⟩ {} false).map
        (fun result =>
          (result.diagnostics.map (·.kind),
            result.compiled.table.types[18]?.map fun type => type.fields.map (·.isFinal),
            storesTo (.field ⟨18, 0⟩) result.compiled.stores)) =
      .ok ([], some [true], 2) := by
  decide +kernel

/-- So is a final field of the host library. -/
theorem host_final_field_stored :
    (build (.empty [])
        ⟨.library, 0,
          [Token.classOpen "Counter" .static .everywhere, .block true,
            .function "Reset" "" .static .everywhere, .block true, .literal "System",
              .separator .member, .literal "Math", .separator .member, .literal "PI",
            .operator .assign, .value (.double 0), .expressionEnd, .block false, .block false]⟩
              {} false).map
        (fun result =>
          (result.diagnostics.map (·.kind),
            result.compiled.table.types[12]?.map fun type => type.fields.map (·.isFinal),
            storesTo (.field ⟨12, 0⟩) result.compiled.stores)) =
      .ok ([], some [true, true], 1) := by
  decide +kernel

/-- Inside of a function with a final local another one begins an assignment, and its block ends
before the value. -/
def heldAcross : TokenStream where
  header := .library
  platform := 0
  tokens :=
    [.classOpen "Counter" .static .everywhere, .block true,
      .function "Reset" "" .static .everywhere, .block true, .var "start" "int" true,
        .operator .assign, .value (.int 1), .expressionEnd,
      .function "Step" "" .static .everywhere, .block true, .var "size" "int" false, .expressionEnd,
        .literal "size",
      .operator .assign, .block false, .value (.int 7), .expressionEnd, .block false, .block false]

/-- A target that is held while the current method changes is stored to by its number, which may be
that of a final local with a store of its own. -/
theorem final_local_stored_across_functions :
    ¬(trace (.empty []) heldAcross {} false).IsChain Build.Settles ∧
      (build (.empty []) heldAcross {} false).map (fun result =>
          (result.diagnostics.map (·.kind), result.compiled.stores.count (.method ⟨18, 0⟩, .loc 0))) =
        .ok ([], 2) :=
  ⟨by decide +kernel, by decide +kernel⟩

end OnePass
