import OnePass.Proofs.Bodies.Account
import OnePass.Proofs.Nesting

/-! # Every method has one body

When a session is finished, all types are closed, so that every method has been finished; the
implicit class is left out if it has no members. Together with the account that the drafts keep
(`Session.Accounted`) this settles which bodies the module has.

* `CompiledModule.Complete` — the bodies of each type are those that its definition asks for, no
  type with methods is missing, and the program starts at a method that is marked as its start.

The main statement is `bodies_match_definitions`: the module of every build is complete. -/

namespace OnePass

open List

/-! ## Closing -/

namespace Session

variable {session later : Session}

/-- Types are closed one after the other, and none of them opens again. -/
theorem gives_closeEach (namespaces : List String) (indices : List Nat) (session : Session) :
    Gives (closeEach namespaces indices session) fun (later, _) => session.Closes later ∧
      ∀ index ∈ indices, ∀ draft, later.drafts[index]? = some draft → draft.isOpen = false := by
  induction indices generalizing session with
  | nil => exact ⟨.refl session, forall_mem_nil _⟩
  | cons index rest ih =>
    rw [closeEach, gives_bind]
    refine (session.gives_closeAt index namespaces).imp ?_
    rintro ⟨next, _⟩ ⟨closes, isClosed⟩
    rw [gives_bind]
    refine (ih next).imp ?_
    rintro ⟨later, _⟩ ⟨closesRest, areClosed⟩
    refine ⟨closes.trans closesRest, ?_⟩
    refine forall_mem_cons.mpr ⟨fun draft here => ?_, areClosed⟩
    obtain ⟨before, there, -, stays⟩ := closesRest.drafts index draft here
    exact stays (isClosed before there)

/-- The functions that are open inside the main function are finished, and the main function stays
open. -/
theorem gives_finishMain (draft : TypeDraft) : Gives (finishMain draft) fun (later, _) =>
    draft.Renews later ∧ later.isOpen = draft.isOpen := by
  rw [finishMain, gives_bind]
  refine (TypeDraft.gives_finishAll _).imp ?_
  rintro ⟨bodies, _⟩ same
  refine ⟨⟨rfl, ?_, rfl, fun finished isClosed => ?_⟩, rfl⟩
  · -- The main function is the outermost open one, so the last.
    rcases eq_nil_or_concat' draft.openMethods with none | ⟨others, main, shape⟩
    · simp_all [TypeDraft.signatures]
    · have emitted : (main.emit .ret).signature = main.signature := rfl
      rw [shape, dropLast_concat] at same
      simp [TypeDraft.signatures, shape, same, emitted]
  · simp [finished isClosed]

theorem gives_closeDefault {index : Nat} {draft : TypeDraft}
    (here : session.drafts[index]? = some draft) (namespaces : List String) :
    Gives (session.closeDefault index draft namespaces) fun (later, _) => session.Closes later := by
  -- A script's main function is finished in a way of its own; from there on, the class is closed
  -- like any type.
  have closes {prepared : TypeDraft} (renews : draft.Renews prepared)
      (isOpen : prepared.isOpen = draft.isOpen) :
          Gives ((session.setDraft index prepared).closeAt index namespaces) fun outcome =>
        session.Closes outcome.1 := by
    have set : session.Closes (session.setDraft index prepared) :=
      closes_replace here renews.id renews.members (fun isClosed => isOpen.trans isClosed)
        (.refl _) rfl fun accounted => accounted.setDraft here renews
    exact (gives_closeAt _ index namespaces).imp fun _ closes => set.trans closes.1
  rw [closeDefault]
  split
  · rw [gives_bind]
    refine (gives_finishMain draft).imp ?_
    rintro ⟨prepared, problems⟩ ⟨renews, isOpen⟩
    rw [gives_bind]
    exact closes renews isOpen
  · rw [gives_bind, gives_ok]
    dsimp only
    rw [gives_bind]
    exact closes (.refl draft) rfl

theorem gives_finishDefault (session : Session) (namespaces : List String) :
    Gives (session.finishDefault namespaces) fun (later, _) => session.Closes later := by
  rw [finishDefault]
  split
  · exact .refl session
  · rw [gives_bind]
    refine gives_draft.imp fun draft here => ?_
    split
    · exact .refl session
    · exact gives_closeDefault here namespaces

theorem gives_unusedDefault (session : Session) : Gives session.unusedDefault? fun dropped =>
    ∀ index ∈ dropped, ∀ draft, session.drafts[index]? = some draft → draft.isEmpty = true := by
  rw [unusedDefault?]
  split
  · rw [gives_ok]
    intro index isDropped
    cases isDropped
  · rename_i place _
    rw [gives_bind]
    refine gives_draft.imp fun draft here => ?_
    rw [gives_pure]
    intro index isDropped same there
    split at isDropped
    · cases isDropped
      cases here.symm.trans there
      assumption
    · cases isDropped

theorem mem_withoutDraft {dropped : Option Nat} {drafts : List TypeDraft} {draft : TypeDraft} :
    draft ∈ withoutDraft dropped drafts ↔ ∃ index, drafts[index]? = some draft ∧ index ∉ dropped := by
  constructor
  · intro here
    obtain ⟨⟨_, index⟩, kept, rfl⟩ := mem_map.mp here
    obtain ⟨place, apart⟩ := mem_filter.mp kept
    refine ⟨index, mem_zipIdx_iff_getElem?.mp place, fun isDropped => ?_⟩
    simp [Option.mem_def.mp isDropped] at apart
  · rintro ⟨index, place, apart⟩
    refine mem_map.mpr ⟨(draft, index), mem_filter.mpr ⟨mem_zipIdx_iff_getElem?.mpr place, ?_⟩, rfl⟩
    simpa using fun isDropped => apart (Option.mem_def.mpr isDropped.symm)

theorem withoutDraft_sublist (dropped : Option Nat) (drafts : List TypeDraft) :
    (withoutDraft dropped drafts).Sublist drafts := by
  have kept : (withoutDraft dropped drafts).Sublist (drafts.zipIdx.map (·.1)) := filter_sublist.map _
  rwa [zipIdx_map_fst] at kept

/-- The method that is found by its mark is a method of one of the types. -/
theorem gives_scanEntryPoint (table : SymbolTable) (drafts : List TypeDraft) :
    Gives (scanEntryPoint table drafts) fun found =>
      ∀ ref ∈ found, table.StartsAt ref ∧ ref.owner ∈ drafts.map (·.id) := by
  refine gives_findSomeM? fun draft inside => ?_
  rw [gives_bind]
  refine SymbolTable.gives_get.imp fun type found ref isFound => ?_
  obtain ⟨index, atIndex, rfl⟩ := Option.map_eq_some_iff.mp isFound
  obtain ⟨inRange, marked, -⟩ := findIdx?_eq_some_iff_getElem.mp atIndex
  exact ⟨⟨type, found, _, getElem?_eq_getElem inRange, marked⟩, mem_map_of_mem inside⟩

end Session

/-! ## The module -/

namespace SymbolTable

variable {table : SymbolTable} {ref : MemberRef} {type : TypeDef}

/-- The types of the parameters of a method or constructor. -/
def params (table : SymbolTable) : MethodSlot → Except Fault (List TypeId)
  | .method ref => do return (← table.method ref).params
  | .ctor ref => do return (← table.ctor ref).params

theorem get_eq_ok_iff {id : TypeId} : table.get id = .ok type ↔ table.types[id]? = some type := by
  rw [get]
  cases table.types[id]? <;> simp

theorem method_eq_ok {method : MethodDef} (found : table.types[ref.owner]? = some type)
    (here : type.methods[ref.index]? = some method) : table.method ref = .ok method := by
  rw [SymbolTable.method, get_eq_ok_iff.mpr found]
  simp [bind, Except.bind, member, here]

theorem ctor_eq_ok {ctor : CtorDef} (found : table.types[ref.owner]? = some type)
    (here : type.ctors[ref.index]? = some ctor) : table.ctor ref = .ok ctor := by
  rw [SymbolTable.ctor, get_eq_ok_iff.mpr found]
  simp [bind, Except.bind, member, here]

theorem params_of_mem_signatures {id : TypeId} (found : table.types[id]? = some type)
    {signature : Signature} (here : signature ∈ type.signatures id) :
    table.params signature.slot = .ok signature.params := by
  rcases mem_append.mp here with isMethod | isCtor
  · obtain ⟨index, place, stored⟩ := mem_numbered.mp isMethod
    obtain ⟨method, there, same⟩ := Option.map_eq_some_iff.mp (getElem?_map ▸ stored)
    rw [place, ← same, params, method_eq_ok found there]
    rfl
  · obtain ⟨index, place, stored⟩ := mem_numbered.mp isCtor
    obtain ⟨ctor, there, same⟩ := Option.map_eq_some_iff.mp (getElem?_map ▸ stored)
    rw [place, ← same, params, ctor_eq_ok found there]
    rfl

end SymbolTable

/-- The module has exactly the bodies that its definitions ask for. -/
structure CompiledModule.Complete (compiled : CompiledModule) : Prop where
  /-- no type is there twice -/
  distinct : (compiled.types.map (·.id)).Nodup
  /-- each type has one body for each of its methods and constructors, with the parameters of its
  definition -/
  bodies : ∀ type ∈ compiled.types, ∃ definition, compiled.table.get type.id = .ok definition ∧
    (type.bodies.map (·.slot)).Perm (definition.slots type.id) ∧
      ∀ body ∈ type.bodies, compiled.table.params body.slot = .ok (body.params.map (·.type))
  /-- a declared type that is no part of the module has no methods -/
  missing : ∀ (id : TypeId) (definition : TypeDef), compiled.table.get id = .ok definition →
    definition.origin = .declared → id ∉ compiled.types.map (·.id) → definition.methods = [] ∧
      definition.ctors = []
  /-- the program starts at a method of one of the types that is marked as its start -/
  entryPoint : ∀ ref ∈ compiled.entryPoint, ∃ type ∈ compiled.types, type.id = ref.owner ∧
    ∃ method, compiled.table.method ref = .ok method ∧ method.attrs.entryPoint = true

namespace Session.Accounted

variable {session : Session} (accounted : session.Accounted)

include accounted

theorem bodies_of_closed {draft : TypeDraft} (here : draft ∈ session.drafts)
    (isClosed : draft.isOpen = false) : ∃ definition, session.table.get draft.id = .ok definition ∧
      (draft.bodies.map (·.slot)).Perm (definition.slots draft.id) ∧
        ∀ body ∈ draft.bodies, session.table.params body.slot = .ok (body.params.map (·.type)) := by
  obtain ⟨type, found, accounts⟩ := accounted.accounts draft here
  have signatures : (draft.bodies.map (·.signature)).Perm (type.signatures draft.id) := by
    have all := accounts.signatures
    rwa [TypeDraft.signatures, accounts.closed isClosed, map_nil, append_nil] at all
  refine ⟨type, SymbolTable.get_eq_ok_iff.mpr found, ?_, fun body inside => ?_⟩
  · have slots := signatures.map (·.slot)
    rwa [map_map, TypeDef.slots_signatures] at slots
  · exact SymbolTable.params_of_mem_signatures found (signatures.subset (mem_map_of_mem inside))

theorem signatures_of_dropped {dropped : Option Nat}
    (unused : ∀ index ∈ dropped, ∀ draft, session.drafts[index]? = some draft →
      draft.isEmpty = true) {id : TypeId}
    {type : TypeDef} (found : session.table.types[id]? = some type)
    (inside : id ∈ session.drafts.map (·.id))
    (left : id ∉ (withoutDraft dropped session.drafts).map (·.id)) : type.methods = [] ∧
      type.ctors = [] := by
  obtain ⟨draft, here, rfl⟩ := mem_map.mp inside
  obtain ⟨same, foundAgain, accounts⟩ := accounted.accounts draft here
  obtain rfl : type = same := Option.some.inj (found.symm.trans foundAgain)
  have isEmpty : draft.isEmpty = true := by
    obtain ⟨index, place⟩ := mem_iff_getElem?.mp here
    by_contra used
    refine left (mem_map_of_mem (mem_withoutDraft.mpr ⟨index, place, fun isDropped => ?_⟩))
    exact used (unused index isDropped draft place)
  have none := accounts.signatures
  rw [accounts.empty isEmpty] at none
  exact TypeDef.signatures_eq_nil.mp none.nil_eq.symm

/-- The module that a session hands over when all types are closed. -/
theorem complete (closed : ∀ draft ∈ session.drafts, draft.isOpen = false) {dropped : Option Nat}
    (unused : ∀ index ∈ dropped, ∀ draft, session.drafts[index]? = some draft → draft.isEmpty = true)
    {compiled : CompiledModule} (table : compiled.table = session.table)
    (types : compiled.types = (withoutDraft dropped session.drafts).map fun draft =>
      ⟨draft.id, draft.bodies⟩)
    (starts : ∀ ref ∈ compiled.entryPoint, session.table.StartsAt ref ∧
      ref.owner ∈ session.drafts.map (·.id)) :
    compiled.Complete := by
  have kept := withoutDraft_sublist dropped session.drafts
  have ids : compiled.types.map (·.id) = (withoutDraft dropped session.drafts).map (·.id) := by
    rw [types, map_map]
    rfl
  refine ⟨?_, fun type here => ?_, fun id definition found origin left => ?_, fun ref isEntry => ?_⟩
  · rw [ids]
    exact accounted.distinct.sublist (kept.map _)
  · rw [types] at here
    obtain ⟨draft, inside, rfl⟩ := mem_map.mp here
    rw [table]
    exact accounted.bodies_of_closed (kept.subset inside) (closed draft (kept.subset inside))
  · rw [table, SymbolTable.get_eq_ok_iff] at found
    rw [ids] at left
    exact accounted.signatures_of_dropped unused found
      (accounted.declared id definition found origin) left
  · obtain ⟨⟨type, found, method, here, marked⟩, inside⟩ := starts ref isEntry
    -- A type that has the entry point has a method, so it is not left out.
    have stays : ref.owner ∈ compiled.types.map (·.id) := by
      rw [ids]
      by_contra left
      obtain ⟨none, -⟩ := accounted.signatures_of_dropped unused found inside left
      simp [none] at here
    obtain ⟨owner, isType, same⟩ := mem_map.mp stays
    exact ⟨owner, isType, same, method, by rw [table, SymbolTable.method_eq_ok found here], marked⟩

end Session.Accounted

theorem Session.Accounted.gives_finish {session : Session} (accounted : session.Accounted)
    (namespaces : List String) : Gives (session.finish namespaces) fun (compiled, _) =>
      compiled.Complete := by
  rw [Session.finish, gives_bind]
  refine session.gives_unusedDefault.imp fun dropped unused => ?_
  rw [gives_bind]
  refine (session.gives_finishDefault namespaces).imp ?_
  rintro ⟨first, _⟩ toFirst
  rw [gives_bind]
  refine (gives_closeEach namespaces _ first).imp ?_
  rintro ⟨second, _⟩ ⟨toSecond, _⟩
  rw [gives_bind]
  refine (gives_closeEach namespaces _ second).imp ?_
  rintro ⟨last, _⟩ ⟨toLast, closed⟩
  have closes := (toFirst.trans toSecond).trans toLast
  have accounted := closes.accounted accounted
  -- The last round closes what is at any position, and every draft is at one.
  have allClosed : ∀ draft ∈ last.drafts, draft.isOpen = false := by
    intro draft here
    obtain ⟨index, place⟩ := mem_iff_getElem?.mp here
    obtain ⟨before, there, -⟩ := toLast.drafts index draft place
    exact closed index (mem_range.mpr (List.getElem?_eq_some_iff.mp there).1) draft place
  have unusedLast : ∀ index ∈ dropped, ∀ draft, last.drafts[index]? = some draft →
      draft.isEmpty = true := by
    intro index isDropped draft place
    obtain ⟨before, there, members, -⟩ := closes.drafts index draft place
    rw [TypeDraft.isEmpty, members]
    exact unused index isDropped before there
  dsimp only
  split
  · rename_i ref isEntry
    refine accounted.complete allClosed unusedLast rfl rfl fun ref found => accounted.entryPoint ref ?_
    rw [isEntry]
    exact found
  · rw [gives_bind]
    refine (gives_scanEntryPoint last.table _).imp fun found starts => ?_
    refine accounted.complete allClosed unusedLast rfl rfl fun ref isFound => ?_
    obtain ⟨isStart, inside⟩ := starts ref isFound
    exact ⟨isStart, ((withoutDraft_sublist dropped last.drafts).map _).subset inside⟩

theorem Build.Reached.accounted {files : FileTree} {stream : TokenStream} {options : BuildOptions}
    {autoName : Bool} {build : Build} (reached : Build.Reached files stream options autoName build) :
    build.compiler.session.Accounted := by
  obtain ⟨session, created, becomes⟩ := reached.becomes
  exact becomes.keeps (fun _ _ acts => acts.accounted) ((Session.gives_create _ _).of_ok created)

/-- No body is lost or doubled. In the module of every build that does not end in a fault, each type
has exactly one body for each method and constructor of its definition, with the parameters that the
definition lists, in order; only types without methods are missing; and the program starts, if it
does, at a method of one of the types that is marked as its start. -/
theorem bodies_match_definitions {files : FileTree} {stream : TokenStream} {options : BuildOptions}
    {autoName : Bool} {result : BuildResult} (built : build files stream options autoName =
      .ok result) : result.compiled.Complete := by
  obtain ⟨done, reached, -, finished⟩ := exists_reached_of_build built
  obtain ⟨others, checked, -⟩ := Compile.checkTermination_eq reached.sound
  have gives : Gives done.finish fun result => result.compiled.Complete := by
    rw [Build.finish, checked, gives_bind, gives_ok, gives_bind]
    exact (reached.accounted.gives_finish _).imp fun _ complete => complete
  exact gives.of_ok finished

/-- A class with a constructor and a method, inside of which another method is declared and finished
first. -/
def nestedMethods : TokenStream where
  header := .script
  platform := 0
  tokens :=
    [.classOpen "Point" .plain .everywhere, .block true, .function "Move" "" .plain .everywhere,
      .var "x" "int" false, .var "far" "bool" false, .block true,
        .function "Step" "int" .static .everywhere, .block true, .block false,
      .block false, .function "" "" .constructor .everywhere, .var "at" "int" false]

/-- Each body belongs to its own method, though the inner one was finished first. -/
theorem nestedMethods_complete :
    ∃ result, build (.empty []) nestedMethods {} false = .ok result ∧ result.compiled.Complete ∧
      result.compiled.types.map (fun type => type.bodies.map (·.signature)) =
        [[⟨.method ⟨18, 0⟩, []⟩],
          [⟨.method ⟨19, 1⟩, []⟩, ⟨.method ⟨19, 0⟩, [6, 2]⟩, ⟨.ctor ⟨19, 0⟩, [6]⟩]] := by
  obtain ⟨result, built⟩ : ∃ result, build (.empty []) nestedMethods {} false = .ok result :=
    ⟨_, rfl⟩
  refine ⟨result, built, bodies_match_definitions built, ?_⟩
  obtain rfl := Except.ok.inj built
  rfl

end OnePass
