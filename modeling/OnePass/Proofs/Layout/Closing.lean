import OnePass.Proofs.Finals.Stores

/-! # Branches are tied to their labels

A method that is closed turns its branches to their labels. This writes to the positions at which
the branches stood when they were emitted. As long as these still hold the branches
(`MethodDraft.Tethered`), nothing else is written to, and no branch is found missing: the body is
`MethodDraft.body`, and the problems are those of the labels that were never defined.

The functions that close methods and types are then followed once for any property of methods and
bodies that finishing a method passes on (`Ending`). -/

namespace OnePass

open List Session

/-! ## Outcomes -/

/-- A result meets the condition, and no branch is found missing. -/
def Resolves {α : Type} (outcome : Except Fault α) (post : α → Prop) : Prop :=
  match outcome with
  | .ok a => post a
  | .error fault => fault ≠ .noSuchBranch

section Resolves

variable {α β : Type} {post : β → Prop} {outcome : Except Fault β}

@[simp]
theorem resolves_ok {b : β} : Resolves (.ok b) post ↔ post b := Iff.rfl

@[simp]
theorem resolves_pure {b : β} : Resolves (pure b) post ↔ post b := Iff.rfl

@[simp]
theorem resolves_bind {outcome : Except Fault α} {next : α → Except Fault β} :
    Resolves (outcome >>= next) post ↔ Resolves outcome fun a => Resolves (next a) post := by
  cases outcome <;> rfl

theorem Resolves.imp {weaker : β → Prop} (resolves : Resolves outcome post)
    (implies : ∀ b, post b → weaker b) : Resolves outcome weaker := by
  cases outcome with
  | ok b => exact implies b resolves
  | error fault => exact resolves

theorem Resolves.of_ok (resolves : Resolves outcome post) {b : β}
    (result : outcome = .ok b) : post b := by
  subst result
  exact resolves

theorem Resolves.and {other : β → Prop} (resolves : Resolves outcome post)
    (gives : Gives outcome other) : Resolves outcome fun b => post b ∧ other b := by
  cases outcome with
  | ok b => exact ⟨resolves, gives⟩
  | error fault => exact resolves

theorem Resolves.ne_error (resolves : Resolves outcome post) :
    outcome ≠ .error .noSuchBranch := by
  rintro rfl
  exact resolves rfl

end Resolves

theorem SymbolTable.resolves_get (table : SymbolTable) (id : TypeId) :
    Resolves (table.get id) fun _ => True := by
  rw [get]
  split
  · trivial
  · exact fun same => by cases same

theorem SymbolTable.resolves_update (table : SymbolTable) (id : TypeId)
    (change : TypeDef → TypeDef) : Resolves (table.update id change) fun _ => True := by
  rw [update]
  split
  · trivial
  · exact fun same => by cases same

theorem Session.resolves_draft (session : Session) (index : Nat) :
    Resolves (session.draft index) fun draft => session.drafts[index]? = some draft := by
  rw [draft]
  split
  · assumption
  · exact fun same => by cases same

theorem Session.resolves_current (session : Session) : Resolves session.current? fun found =>
    ∀ index draft, found = some (index, draft) → session.drafts[index]? = some draft := by
  have resolves : Resolves session.current? fun _ => True := by
    rw [current?]
    split
    · trivial
    · rw [resolves_bind]
      exact (session.resolves_draft _).imp fun _ _ => trivial
  refine (resolves.and (gives_self _)).imp fun found here index draft isFound => ?_
  exact (current?_eq_some (here.2.trans (congrArg _ isFound))).2.1

/-- The problems that are about labels that were never defined. -/
def undefinedIn (problems : List Problem) : List Problem := problems.filter (·.isUndefinedLabel)

@[simp]
theorem undefinedIn_append (problems more : List Problem) :
    undefinedIn (problems ++ more) = undefinedIn problems ++ undefinedIn more :=
  filter_append ..

theorem undefinedIn_eq_nil {problems : List Problem} :
    undefinedIn problems = [] ↔ ∀ problem ∈ problems, problem.isUndefinedLabel = false := by
  simp [undefinedIn, filter_eq_nil_iff]

/-! ## Methods -/

/-- The instruction with another target, if there is one. -/
def Instruction.redirect (target : Option UInt32) (instruction : Instruction) : Instruction :=
  match target with
  | none => instruction
  | some target => { instruction with operand := .target target }

namespace MethodDraft

/-- The target of the branch that waits at some place. -/
def aim (labels : List (String × UInt32)) (fixups : List Fixup) (place : Nat) : Option UInt32 :=
  (fixups.find? (·.position == place)).bind fun fixup => labels.lookup fixup.label

/-- The problems of the branches without a label. -/
def lacking (labels : List (String × UInt32)) (fixups : List Fixup) : List Problem :=
  (fixups.filter fun fixup => (labels.lookup fixup.label).isNone).map fun fixup =>
    .undefinedLabel fixup.label

section Fixups

variable {labels : List (String × UInt32)} {fixup : Fixup} {fixups : List Fixup}

theorem aim_eq_none {place : Nat} (apart : ∀ fixup ∈ fixups, fixup.position ≠ place) :
    aim labels fixups place = none := by
  have none : fixups.find? (·.position == place) = none :=
    find?_eq_none.mpr fun fixup here => by simpa using apart fixup here
  rw [aim, none]
  rfl

theorem aim_cons_self : aim labels (fixup :: fixups) fixup.position = labels.lookup fixup.label := by
  simp [aim]

theorem aim_cons_of_ne {place : Nat} (apart : fixup.position ≠ place) :
    aim labels (fixup :: fixups) place = aim labels fixups place := by
  simp [aim, beq_eq_false_iff_ne.mpr apart]

/-- Each branch waits for its own label. -/
theorem aim_of_mem (ordered : fixups.Pairwise fun fixup other => fixup.position < other.position)
    (here : fixup ∈ fixups) : aim labels fixups fixup.position = labels.lookup fixup.label := by
  induction fixups with
  | nil => cases here
  | cons first rest ih =>
    obtain ⟨after, orderedRest⟩ := pairwise_cons.mp ordered
    rcases mem_cons.mp here with rfl | inRest
    · exact aim_cons_self
    · rw [aim_cons_of_ne (after fixup inRest).ne, ih orderedRest inRest]

/-- Branches that stand in the code, one after the other, get their targets, and nothing else is
written to. -/
theorem resolveFixups_eq (ordered : fixups.Pairwise fun fixup other => fixup.position < other.position)
    {code : List Instruction} (inside : ∀ fixup ∈ fixups, fixup.position < code.length) :
    resolveFixups labels fixups code =
      .ok (code.mapIdx fun place instruction => instruction.redirect (aim labels fixups place),
        lacking labels fixups) := by
  induction fixups generalizing code with
  | nil =>
    have same : code.mapIdx (fun place instruction => instruction.redirect (aim labels [] place)) =
        code := by
      apply ext_getElem?
      intro place
      rw [getElem?_mapIdx]
      cases code[place]? <;> rfl
    rw [resolveFixups, same]
    rfl
  | cons fixup rest ih =>
    obtain ⟨after, orderedRest⟩ := pairwise_cons.mp ordered
    obtain ⟨isInside, insideRest⟩ := forall_mem_cons.mp inside
    have alone : aim labels rest fixup.position = none := aim_eq_none fun other here =>
      (after other here).ne'
    rw [resolveFixups]
    cases label : labels.lookup fixup.label with
    | none =>
      have same (place : Nat) : aim labels rest place = aim labels (fixup :: rest) place := by
        by_cases here : fixup.position = place
        · rw [← here, alone, aim_cons_self, label]
        · rw [aim_cons_of_ne here]
      have lacks : lacking labels (fixup :: rest) = .undefinedLabel fixup.label ::
          lacking labels rest := by
        simp [lacking, label]
      rw [lacks]
      simp only [ih orderedRest insideRest, same, bind, Except.bind, pure, Except.pure]
    | some target =>
      have lacks : lacking labels (fixup :: rest) = lacking labels rest := by simp [lacking, label]
      have insideStill : ∀ other ∈ rest, other.position <
          (code.modify fixup.position fun i => { i with operand := .target target }).length := by
        simpa using insideRest
      dsimp only
      rw [if_pos isInside, ih orderedRest insideStill, lacks]
      refine congrArg (fun code => Except.ok (code, _)) (ext_getElem? fun place => ?_)
      rw [getElem?_mapIdx, getElem?_mapIdx, getElem?_modify]
      by_cases here : fixup.position = place
      · subst here
        cases code[fixup.position]? <;> simp [alone, aim_cons_self, label, Instruction.redirect]
      · simp [here, aim_cons_of_ne here]

end Fixups

variable {g : Guard} {stand : Nat} {method later : MethodDraft}

/-- The branches that wait for their labels stand among the first instructions, each at a place of
its own. -/
structure Tethered (stand : Nat) (method : MethodDraft) : Prop where
  ordered : method.fixups.Pairwise fun fixup other => fixup.position < other.position
  branches : ∀ fixup ∈ method.fixups,
    fixup.position < stand ∧ method.code[fixup.position]? = some ⟨.br, .target 0⟩

theorem Tethered.mono {more : Nat} (tethered : method.Tethered stand) (le : stand ≤ more) :
    method.Tethered more :=
  ⟨tethered.ordered, fun fixup here => ⟨(tethered.branches fixup here).1.trans_le le,
    (tethered.branches fixup here).2⟩⟩

theorem Tethered.edits (tethered : method.Tethered g.keep) (edits : method.Edits g later) :
    later.Tethered g.keep := by
  refine ⟨edits.fixups ▸ tethered.ordered, fun fixup here => ?_⟩
  rw [edits.fixups] at here
  obtain ⟨inside, branch⟩ := tethered.branches fixup here
  refine ⟨inside, ?_⟩
  rw [← getElem?_take_of_lt inside, edits.stands, getElem?_take_of_lt inside, branch]

/-- The body of a method whose branches are tied to their labels. -/
def body (method : MethodDraft) : MethodBody where
  slot := method.slot
  params := method.params
  locals := method.locals.map (·.type)
  code := method.code.mapIdx fun place instruction =>
    instruction.redirect (aim method.labels method.fixups place)

theorem getElem?_body_code (method : MethodDraft) (place : Nat) : method.body.code[place]? =
    method.code[place]?.map (·.redirect (aim method.labels method.fixups place)) :=
  getElem?_mapIdx

theorem Tethered.finish_eq (tethered : method.Tethered stand) :
    method.finish = .ok (method.body, lacking method.labels method.fixups) := by
  have inside : ∀ fixup ∈ method.fixups, fixup.position < method.code.length := fun fixup here =>
    (List.getElem?_eq_some_iff.mp (tethered.branches fixup here).2).1
  rw [finish, resolveFixups_eq tethered.ordered inside]
  rfl

end MethodDraft

/-! ## Endings -/

/-- What is known of methods, of their bodies and of the labels that each of them lacks, in such a
way that it is passed on when a method is finished. -/
structure Ending where
  method : MethodDraft → Prop
  body : MethodBody → Prop
  lost : MethodSlot → List Problem
  finishes : ∀ draft, method draft →
    Resolves draft.finish fun (finished, problems) => body finished ∧
      undefinedIn problems = lost finished.slot

namespace Ending

variable {ending : Ending} {draft : TypeDraft}

/-! ### Types -/

/-- Some methods of a type are finished. -/
structure Closes (ending : Ending) (draft later : TypeDraft) (finished : List MethodBody)
    (problems : List Problem) : Prop where
  bodies : later.bodies = draft.bodies ++ finished
  slots : (finished.map (·.slot) ++ later.openMethods.map (·.slot)).Perm
    (draft.openMethods.map (·.slot))
  methods : ∀ method ∈ later.openMethods, ending.method method
  results : ∀ body ∈ finished, ending.body body
  problems : undefinedIn problems = finished.flatMap fun body => ending.lost body.slot

theorem resolves_finish {method : MethodDraft} (here : ending.method method) :
    Resolves method.finish fun (finished, problems) =>
      finished.slot = method.slot ∧ ending.body finished ∧
        undefinedIn problems = ending.lost finished.slot := by
  refine ((ending.finishes method here).and method.gives_finish).imp ?_
  rintro ⟨finished, problems⟩ ⟨⟨isBody, lost⟩, signature⟩
  exact ⟨congrArg Signature.slot signature, isBody, lost⟩

theorem resolves_finishAll {methods : List MethodDraft}
    (all : ∀ method ∈ methods, ending.method method) :
    Resolves (TypeDraft.finishAll methods) fun (finished, problems) =>
      finished.map (·.slot) = methods.map (·.slot) ∧ (∀ body ∈ finished, ending.body body) ∧
        undefinedIn problems = finished.flatMap fun body => ending.lost body.slot := by
  induction methods with
  | nil => exact ⟨rfl, forall_mem_nil _, rfl⟩
  | cons method rest ih =>
    obtain ⟨first, others⟩ := forall_mem_cons.mp all
    rw [TypeDraft.finishAll, resolves_bind]
    refine (resolves_finish first).imp ?_
    rintro ⟨body, problems⟩ ⟨slot, isBody, lost⟩
    rw [resolves_bind]
    refine (ih others).imp ?_
    rintro ⟨bodies, more⟩ ⟨slots, areBodies, lostMore⟩
    refine ⟨?_, forall_mem_cons.mpr ⟨isBody, areBodies⟩, ?_⟩
    · rw [map_cons, map_cons, slot, slots]
    · rw [undefinedIn_append, lost, lostMore, flatMap_cons]

theorem resolves_closeMethod (all : ∀ method ∈ draft.openMethods, ending.method method) :
    Resolves draft.closeMethod fun (later, problems) => ∃ finished,
      ending.Closes draft later finished problems := by
  rw [TypeDraft.closeMethod]
  split
  · exact ⟨[], (append_nil _).symm, .refl _, all, forall_mem_nil _, rfl⟩
  · rename_i method rest openMethods
    rw [openMethods] at all
    obtain ⟨first, others⟩ := forall_mem_cons.mp all
    rw [resolves_bind]
    refine (resolves_finish first).imp ?_
    rintro ⟨body, problems⟩ ⟨slot, isBody, lost⟩
    refine ⟨[body], rfl, ?_, others, forall_mem_singleton.mpr isBody, ?_⟩
    · rw [openMethods]
      simp [slot]
    · rw [lost, flatMap_singleton]

theorem resolves_resolveBase (id : TypeId) (namespaces : List String) (table : SymbolTable)
    (name : Option String) : Resolves (TypeDraft.resolveBase id namespaces table name)
      fun (_, problems) => undefinedIn problems = [] := by
  rw [TypeDraft.resolveBase.eq_def]
  split
  · rfl
  split
  · rfl
  rw [resolves_bind]
  refine (table.resolves_get _).imp fun type _ => ?_
  split
  · rfl
  · rw [resolves_bind]
    exact (table.resolves_update _ _).imp fun _ _ => rfl

theorem resolves_resolveInterfaces (id : TypeId) (namespaces : List String) (table : SymbolTable)
    (names : List String) :
    Resolves (TypeDraft.resolveInterfaces id namespaces table names) fun (_, problems) =>
      undefinedIn problems = [] := by
  induction names generalizing table with
  | nil => rfl
  | cons name rest ih =>
    rw [TypeDraft.resolveInterfaces]
    split
    · rw [resolves_bind]
      exact (ih table).imp fun _ none => none
    rw [resolves_bind]
    refine (table.resolves_get _).imp fun type _ => ?_
    split
    · rw [resolves_bind]
      exact (table.resolves_update _ _).imp fun next _ => ih next
    · rw [resolves_bind]
      exact (ih table).imp fun _ none => none

theorem resolves_close (all : ∀ method ∈ draft.openMethods, ending.method method)
    (table : SymbolTable) (namespaces : List String) :
    Resolves (draft.close table namespaces) fun (later, _, problems) =>
      ∃ finished, ending.Closes draft later finished problems := by
  rw [TypeDraft.close]
  split
  · exact ⟨[], (append_nil _).symm, .refl _, all, forall_mem_nil _, rfl⟩
  rw [TypeDraft.closeMethods, resolves_bind, resolves_bind]
  refine (resolves_finishAll all).imp ?_
  rintro ⟨finished, problems⟩ ⟨slots, areBodies, lost⟩
  rw [resolves_pure, resolves_bind]
  refine (resolves_resolveBase _ _ _ _).imp ?_
  rintro ⟨based, baseProblems⟩ noBase
  rw [resolves_bind]
  refine (resolves_resolveInterfaces _ _ _ _).imp ?_
  rintro ⟨last, interfaceProblems⟩ noInterface
  refine ⟨finished, rfl, ?_, forall_mem_nil _, areBodies, ?_⟩
  · simp [slots]
  · rw [undefinedIn_append, undefinedIn_append, lost, noBase, noInterface, append_nil, append_nil]

/-! ### Sessions -/

/-- Some methods of a session are finished. -/
structure Ends (ending : Ending) (session later : Session) (finished : List MethodBody)
    (problems : List Problem) : Prop where
  bodies : later.bodies.Perm (session.bodies ++ finished)
  slots : (finished.map (·.slot) ++ later.openMethods.map (·.slot)).Perm
    (session.openMethods.map (·.slot))
  methods : ∀ method ∈ later.openMethods, ending.method method
  results : ∀ body ∈ finished, ending.body body
  problems : undefinedIn problems = finished.flatMap fun body => ending.lost body.slot

variable {session later last : Session} {finished more : List MethodBody}
  {problems others : List Problem}

theorem Ends.refl (all : ∀ method ∈ session.openMethods, ending.method method) :
    ending.Ends session session [] [] :=
  ⟨by simp, .refl _, all, forall_mem_nil _, rfl⟩

theorem Ends.trans (first : ending.Ends session later finished problems)
    (second : ending.Ends later last more others) : ending.Ends session last (finished ++ more)
      (problems ++ others) where
  bodies := by
    rw [← append_assoc]
    exact second.bodies.trans (first.bodies.append_right _)
  slots := by
    rw [map_append, append_assoc]
    exact (second.slots.append_left _).trans first.slots
  methods := second.methods
  results := forall_mem_append.mpr ⟨first.results, second.results⟩
  problems := by rw [undefinedIn_append, first.problems, second.problems, flatMap_append]

theorem Ends.congr {same : Session} (ends : ending.Ends session later finished problems)
    (drafts : same.drafts = later.drafts) : ending.Ends session same finished problems := by
  have bodies : same.bodies = later.bodies := by rw [Session.bodies, Session.bodies, drafts]
  have openMethods : same.openMethods = later.openMethods := by rw [Session.openMethods,
    Session.openMethods, drafts]
  exact ⟨bodies ▸ ends.bodies, openMethods ▸ ends.slots, openMethods ▸ ends.methods, ends.results,
    ends.problems⟩

theorem Closes.ends {index : Nat} {draft changed : TypeDraft}
    (here : session.drafts[index]? = some draft)
    (all : ∀ method ∈ session.openMethods, ending.method method)
    (closes : ending.Closes draft changed finished problems) :
    ending.Ends session (session.setDraft index changed) finished problems := by
  obtain ⟨before, after, drafts, sets⟩ := Session.exists_around here
  have kept : ∀ method, method ∈ before.flatMap (·.openMethods) ∨
      method ∈ after.flatMap (·.openMethods) → ending.method method := by
    intro method isOther
    refine all method ?_
    rw [Session.openMethods, drafts, List.flatMap_append, List.flatMap_cons, List.mem_append,
      List.mem_append]
    exact isOther.imp_right .inr
  constructor
  · rw [Session.bodies, Session.bodies, Session.setDraft, sets, drafts]
    simp only [List.flatMap_append, List.flatMap_cons, closes.bodies, List.append_assoc]
    exact (List.perm_append_comm.append_left _).append_left _
  · rw [Session.openMethods, Session.openMethods, Session.setDraft, sets, drafts]
    simp only [List.flatMap_append, List.flatMap_cons, List.map_append]
    have slots := (closes.slots.append_right ((after.flatMap (·.openMethods)).map
      (·.slot))).append_left ((before.flatMap (·.openMethods)).map (·.slot))
    refine .trans ?_ slots
    simp only [List.append_assoc]
    exact List.perm_append_comm_assoc ..
  · intro method isOpen
    rw [Session.openMethods, Session.setDraft, sets, List.flatMap_append, List.flatMap_cons,
      List.mem_append, List.mem_append] at isOpen
    rcases isOpen with inBefore | inChanged | inAfter
    · exact kept method (.inl inBefore)
    · exact closes.methods method inChanged
    · exact kept method (.inr inAfter)
  · exact closes.results
  · exact closes.problems

theorem methods_of_draft {index : Nat} (here : session.drafts[index]? = some draft)
    (all : ∀ method ∈ session.openMethods, ending.method method) :
    ∀ method ∈ draft.openMethods, ending.method method :=
  fun method isOpen => all method (mem_flatMap.mpr ⟨draft, mem_of_getElem? here, isOpen⟩)

theorem resolves_closeCurrent (all : ∀ method ∈ session.openMethods, ending.method method) :
    Resolves session.closeMethod fun (later, problems) => ∃ finished,
      ending.Ends session later finished problems := by
  rw [closeMethod, resolves_bind]
  refine session.resolves_current.imp fun entry current => ?_
  cases entry with
  | none => exact ⟨[], .refl all⟩
  | some entry =>
    obtain ⟨index, draft⟩ := entry
    have here := current index draft rfl
    dsimp only
    rw [resolves_bind]
    refine (resolves_closeMethod (methods_of_draft here all)).imp ?_
    rintro ⟨closed, problems⟩ ⟨finished, closes⟩
    exact ⟨finished, closes.ends here all⟩

theorem resolves_closeAt (all : ∀ method ∈ session.openMethods, ending.method method) (index : Nat)
    (namespaces : List String) :
    Resolves (session.closeAt index namespaces) fun (later, problems) =>
      ∃ finished, ending.Ends session later finished problems := by
  rw [closeAt, resolves_bind]
  refine (session.resolves_draft index).imp fun draft here => ?_
  rw [resolves_bind]
  refine (resolves_close (methods_of_draft here all) _ namespaces).imp ?_
  rintro ⟨closed, table, problems⟩ ⟨finished, closes⟩
  exact ⟨finished, (closes.ends here all).congr rfl⟩

theorem resolves_closeType (all : ∀ method ∈ session.openMethods, ending.method method)
    (namespaces : List String) : Resolves (session.closeType namespaces) fun (later, problems) =>
      ∃ finished, ending.Ends session later finished problems := by
  rw [closeType]
  split
  · exact ⟨[], .refl all⟩
  · rename_i index rest _
    have popped : ∀ method ∈ ({ session with openTypes := rest } : Session).openMethods,
      ending.method method := all
    refine (resolves_closeAt popped index namespaces).imp ?_
    rintro _ ⟨finished, ends⟩
    exact ⟨finished, ends.bodies, ends.slots, ends.methods, ends.results, ends.problems⟩

theorem resolves_closeEach (namespaces : List String) (indices : List Nat)
    (all : ∀ method ∈ session.openMethods, ending.method method) :
    Resolves (closeEach namespaces indices session) fun (later, problems) =>
      ∃ finished, ending.Ends session later finished problems := by
  induction indices generalizing session with
  | nil => exact ⟨[], .refl all⟩
  | cons index rest ih =>
    rw [closeEach, resolves_bind]
    refine (resolves_closeAt all index namespaces).imp ?_
    rintro ⟨next, problems⟩ ⟨finished, ends⟩
    rw [resolves_bind]
    refine (ih ends.methods).imp ?_
    rintro ⟨later, others⟩ ⟨more, endsRest⟩
    exact ⟨finished ++ more, ends.trans endsRest⟩

/-! ### The end of a session -/

section Finish

variable (returns : ∀ method, ending.method method → ending.method (method.emit .ret))

include returns

theorem resolves_finishMain (all : ∀ method ∈ draft.openMethods, ending.method method) :
    Resolves (finishMain draft) fun (later, problems) =>
      ∃ finished, ending.Closes draft later finished problems := by
  have split : draft.openMethods.dropLast ++ draft.openMethods.getLast?.toList =
      draft.openMethods := by
    cases last : draft.openMethods.getLast? with
    | none => simp [getLast?_eq_none_iff.mp last]
    | some method => exact dropLast_append_getLast? method last
  have inner : ∀ method ∈ draft.openMethods.dropLast, ending.method method :=
    fun method here => all method (mem_of_mem_dropLast here)
  rw [finishMain, resolves_bind]
  refine (resolves_finishAll inner).imp ?_
  rintro ⟨finished, problems⟩ ⟨slots, areBodies, lost⟩
  refine ⟨finished, rfl, ?_, fun method here => ?_, areBodies, lost⟩
  · have same : (draft.openMethods.getLast?.toList.map (·.emit .ret)).map (·.slot) =
        draft.openMethods.getLast?.toList.map (·.slot) := map_map
    dsimp only
    rw [slots, same, ← map_append, split]
  · obtain ⟨main, isMain, rfl⟩ := mem_map.mp here
    exact returns main (all main (mem_of_getLast? (Option.mem_toList.mp isMain)))

theorem resolves_finishDefault (all : ∀ method ∈ session.openMethods, ending.method method)
    (namespaces : List String) :
    Resolves (session.finishDefault namespaces) fun (later, problems) =>
      ∃ finished, ending.Ends session later finished problems := by
  rw [finishDefault]
  split
  · exact ⟨[], .refl all⟩
  rename_i index _
  rw [resolves_bind]
  refine (session.resolves_draft index).imp fun draft here => ?_
  split
  · exact ⟨[], .refl all⟩
  rw [closeDefault]
  split
  · rw [resolves_bind]
    refine (resolves_finishMain returns (methods_of_draft here all)).imp ?_
    rintro ⟨prepared, problems⟩ ⟨finished, closes⟩
    have prepares := closes.ends here all
    rw [resolves_bind]
    refine (resolves_closeAt prepares.methods index namespaces).imp ?_
    rintro ⟨later, others⟩ ⟨more, ends⟩
    exact ⟨finished ++ more, prepares.trans ends⟩
  · have sets : (session.setDraft index draft).drafts = session.drafts := by
      obtain ⟨inRange, rfl⟩ := List.getElem?_eq_some_iff.mp here
      exact set_getElem_self inRange
    have same : ending.Ends session (session.setDraft index draft) [] [] := (Ends.refl all).congr sets
    rw [resolves_bind, resolves_ok, resolves_bind]
    refine (resolves_closeAt same.methods index namespaces).imp ?_
    rintro ⟨later, others⟩ ⟨more, ends⟩
    exact ⟨more, same.trans ends⟩

end Finish

end Ending

theorem Session.resolves_scanEntryPoint (table : SymbolTable) (drafts : List TypeDraft) :
    Resolves (scanEntryPoint table drafts) fun _ => True := by
  rw [scanEntryPoint]
  induction drafts with
  | nil => trivial
  | cons draft rest ih =>
    rw [findSomeM?, resolves_bind, resolves_bind]
    refine (table.resolves_get draft.id).imp fun type _ => ?_
    rw [resolves_pure]
    split
    · trivial
    · exact ih

/-- The finished methods of a module. -/
def CompiledModule.bodies (compiled : CompiledModule) : List MethodBody :=
  compiled.types.flatMap (·.bodies)

theorem Session.bodies_withoutDraft {dropped : Option Nat} {drafts : List TypeDraft}
    (unused : ∀ index ∈ dropped, ∀ draft, drafts[index]? = some draft → draft.bodies = []) :
    (withoutDraft dropped drafts).flatMap (·.bodies) = drafts.flatMap (·.bodies) := by
  have filtered (entries : List (TypeDraft × Nat)) (all : ∀ entry ∈ entries,
      entry ∈ drafts.zipIdx) : ((entries.filter (some ·.2 != dropped)).map (·.1)).flatMap
        (·.bodies) = (entries.map (·.1)).flatMap (·.bodies) := by
    induction entries with
    | nil => rfl
    | cons entry rest ih =>
      obtain ⟨first, others⟩ := forall_mem_cons.mp all
      by_cases isDropped : some entry.2 = dropped
      · have none : entry.1.bodies = [] :=
          unused entry.2 isDropped.symm entry.1 (mem_zipIdx_iff_getElem?.mp first)
        simp [isDropped, none, ih others]
      · simp [isDropped, ih others]
  have all := filtered drafts.zipIdx fun _ here => here
  rwa [zipIdx_map_fst] at all

theorem Session.Accounted.openMethods_eq_nil {session : Session} (accounted : session.Accounted)
    (closed : ∀ draft ∈ session.drafts, draft.isOpen = false) : session.openMethods = [] := by
  refine flatMap_eq_nil_iff.mpr fun draft here => ?_
  obtain ⟨type, -, accounts⟩ := accounted.accounts draft here
  exact accounts.closed (closed draft here)

/-- The methods that are still open are finished when the session is, and the module has the bodies
of all. -/
theorem Ending.resolves_finishSession {ending : Ending} {session : Session}
    (accounted : session.Accounted) (returns : ∀ method, ending.method method →
      ending.method (method.emit .ret))
    (all : ∀ method ∈ session.openMethods, ending.method method) (namespaces : List String) :
    Resolves (session.finish namespaces) fun (compiled, problems) => ∃ finished,
      compiled.bodies.Perm (session.bodies ++ finished) ∧
        (finished.map (·.slot)).Perm (session.openMethods.map (·.slot)) ∧
        (∀ body ∈ finished, ending.body body) ∧ undefinedIn problems = finished.flatMap fun body =>
          ending.lost body.slot := by
  have checks : Resolves session.unusedDefault? fun _ => True := by
    rw [unusedDefault?]
    split
    · trivial
    · rw [resolves_bind]
      exact (session.resolves_draft _).imp fun _ _ => trivial
  rw [Session.finish, resolves_bind]
  refine (checks.and session.gives_unusedDefault).imp ?_
  rintro dropped ⟨-, unused⟩
  rw [resolves_bind]
  refine ((resolves_finishDefault returns all namespaces).and
    (session.gives_finishDefault namespaces)).imp ?_
  rintro ⟨first, defaultProblems⟩ ⟨⟨inDefault, toFirst⟩, closesFirst⟩
  rw [resolves_bind]
  refine ((resolves_closeEach namespaces _ toFirst.methods).and
    (gives_closeEach namespaces _ first)).imp ?_
  rintro ⟨second, openProblems⟩ ⟨⟨inOpen, toSecond⟩, closesSecond, -⟩
  rw [resolves_bind]
  refine ((resolves_closeEach namespaces _ toSecond.methods).and
    (gives_closeEach namespaces _ second)).imp ?_
  rintro ⟨last, restProblems⟩ ⟨⟨inRest, toLast⟩, closesLast, closed⟩
  have ends := (toFirst.trans toSecond).trans toLast
  have closes := (closesFirst.trans closesSecond).trans closesLast
  have slots : ((inDefault ++ inOpen ++ inRest).map (·.slot)).Perm
      (session.openMethods.map (·.slot)) := by
    -- The last round closes what is at any position, and every draft is at one.
    have nothing : last.openMethods = [] := (closes.accounted accounted).openMethods_eq_nil
        fun draft here => by
      obtain ⟨index, place⟩ := mem_iff_getElem?.mp here
      obtain ⟨before, there, -⟩ := closesLast.drafts index draft place
      exact closed index (mem_range.mpr (List.getElem?_eq_some_iff.mp there).1) draft place
    have slots := ends.slots
    rwa [nothing, map_nil, append_nil] at slots
  -- The draft that is left out has no members, so it has no methods.
  have bodies : (Session.withoutDraft dropped last.drafts).flatMap (·.bodies) = last.bodies := by
    refine bodies_withoutDraft fun index isDropped draft place => ?_
    obtain ⟨before, there, members, -⟩ := closes.drafts index draft place
    have isEmpty : draft.isEmpty = true := by
      rw [TypeDraft.isEmpty, members]
      exact unused index isDropped before there
    obtain ⟨type, -, accounts⟩ := (closes.accounted accounted).accounts draft (mem_of_getElem? place)
    have none := accounts.empty isEmpty
    simp only [TypeDraft.signatures, append_eq_nil_iff, map_eq_nil_iff] at none
    exact none.1
  have outcome (compiled : CompiledModule)
      (types : compiled.types = (Session.withoutDraft dropped last.drafts).map fun draft =>
        ⟨draft.id, draft.bodies⟩) :
      compiled.bodies.Perm (session.bodies ++ (inDefault ++ inOpen ++ inRest)) := by
    rw [CompiledModule.bodies, types, flatMap_map, bodies]
    exact ends.bodies
  dsimp only
  split
  · rw [resolves_bind, resolves_ok]
    exact ⟨_, outcome _ rfl, slots, ends.results, ends.problems⟩
  · rw [resolves_bind]
    refine (resolves_scanEntryPoint _ _).imp fun _ _ => ?_
    exact ⟨_, outcome _ rfl, slots, ends.results, ends.problems⟩

end OnePass
