import OnePass.Proofs.Expression.Syntax
import OnePass.Proofs.FullNames
import OnePass.Proofs.Variables

/-! # Receivers of calls

An instance method is called on an object, which is loaded below the arguments. Where a call goes is
settled before its arguments are read, and which overload it means only afterwards, so the two can
disagree: a call that goes to a type has no receiver, but the overload that is found on the type or
on its supertypes may be an instance method.

* `Session.ImplicitStatic`, `Session.ScriptsStatic` — the implicit class is static and so are the
  free functions of a script, in every state of a build. Hence a call of a free function needs no
  receiver.
* `Session.ThroughType` — the calls that go to a type: those with a type as their owner, and those
  without an owner that mean a method of the enclosing type, unless they are made on the running
  object.

The main statement is `receiver_unless_through_type`: a call of an instance method loads a receiver
below its arguments, unless it goes through a type, and then it loads none. -/

namespace OnePass

open List SymbolTable Session

namespace Session

variable {including : Bool} {session later : Session}

/-! ## Free functions -/

/-- The implicit class is static. -/
def ImplicitStatic (session : Session) : Prop :=
  ∀ place ∈ session.defaultType, ∃ id type, (session.drafts.map (·.id))[place]? = some id ∧
    session.table.types[id]? = some type ∧ type.isStatic = true

/-- The free functions are static. -/
def ScriptsStatic (session : Session) : Prop :=
  ∀ ref ∈ session.scriptFunctions, ∃ attrs, session.table.marks? ref = some (true, attrs)

/-- Types and drafts are added, and those of before keep their places and kinds. -/
theorem ImplicitStatic.extend (isStatic : session.ImplicitStatic)
    (continues : session.table.Continues including later.table)
    (ids : session.drafts.map (·.id) <+: later.drafts.map (·.id))
    (sameDefault : later.defaultType = session.defaultType) : later.ImplicitStatic := by
  intro place isDefault
  obtain ⟨id, type, isThere, found, kind⟩ := isStatic place (sameDefault ▸ isDefault)
  obtain ⟨same, foundLater, head⟩ := continues.exists_later found
  have sameKind : same.head.isStatic = type.head.isStatic := congrArg TypeDef.isStatic head
  exact ⟨id, same, getElem?_extended ids isThere, foundLater, sameKind.trans kind⟩

theorem Moves.implicitStatic (moves : session.Moves including later)
    (isStatic : session.ImplicitStatic) : later.ImplicitStatic :=
  isStatic.extend moves.continues moves.ids moves.defaultType

section Unchanged

theorem scriptFunctions_modifyType (change : TypeDraft → TypeDraft) :
    Gives (session.modifyType change) fun later => later.scriptFunctions = session.scriptFunctions :=
  gives_of_modifyType (fun _ => rfl) fun _ _ _ => rfl

theorem scriptFunctions_declareType (name space : String) (kind : ClassKind)
    (visibility : Visibility) : Gives (session.declareType name space kind visibility)
      fun (_, later) =>
      later.scriptFunctions = session.scriptFunctions := by
  rw [declareType]
  exact gives_bind_ok fun _ _ => rfl

theorem scriptFunctions_openMethod (name : String) (result : TypeId) (kind : FuncKind)
    (visibility : Visibility) (attrs : MethodAttrs) :
    Gives (session.openMethod name result kind visibility attrs) fun (_, later) =>
      later.scriptFunctions = session.scriptFunctions :=
  gives_of_openMethod fun _ _ _ _ _ _ _ _ _ _ => rfl

theorem scriptFunctions_declareParam (name : String) (type : TypeId) :
    Gives (session.declareParam name type) fun (_, later) =>
      later.scriptFunctions = session.scriptFunctions :=
  gives_of_declareParam fun _ _ _ _ _ _ _ _ _ _ _ => rfl

theorem scriptFunctions_declareField (name : String) (type : TypeId) (isFinal : Bool) :
    Gives (session.declareField name type isFinal) fun (_, later) =>
      later.scriptFunctions = session.scriptFunctions :=
  gives_of_declareField fun _ _ _ _ _ _ _ => rfl

theorem scriptFunctions_closeMethod :
    Gives session.closeMethod fun (later, _) => later.scriptFunctions = session.scriptFunctions :=
  gives_of_closeMethod (fun _ => rfl) fun _ _ _ => gives_iff.mpr fun _ _ => rfl

theorem scriptFunctions_closeType (namespaces : List String) :
    Gives (session.closeType namespaces) fun (later, _) =>
      later.scriptFunctions = session.scriptFunctions := by
  rw [closeType]
  split
  · exact rfl
  · rw [closeAt]
    refine gives_bind_ok fun draft _ => ?_
    exact gives_bind_ok fun _ _ => rfl

end Unchanged

/-- Whether the implicit class is current can be told from the position of the current type. -/
theorem defaultType_of_isDefaultCurrent {place : Nat} {draft : TypeDraft}
    (current : session.current? = .ok (some (place, draft)))
    (isDefault : session.isDefaultCurrent = .ok true) : session.defaultType = some place := by
  simpa [isDefaultCurrent, current, bind, Except.bind, pure, Except.pure] using isDefault

/-- A function that was opened in the implicit class is static. -/
theorem marks_openMethod (isDefault : session.isDefaultCurrent = .ok true) (name : String)
    (result : TypeId) (kind : FuncKind) (visibility : Visibility) (attrs : MethodAttrs) :
    Gives (session.openMethod name result kind visibility attrs) fun (slot, later) =>
      later.ImplicitStatic → ∀ ref, slot = .method ref → later.table.marks? ref = some (true, attrs) := by
  refine gives_of_openMethod fun place draft type isStatic slot table current got hasKind added => ?_
  have here := (current?_eq_some current).2.1
  have atPlace := defaultType_of_isDefaultCurrent current isDefault
  have known := SymbolTable.gives_get.of_ok got
  obtain ⟨revises, marked⟩ := (gives_addFunction ..).of_ok added
  rintro implicit ref rfl
  -- The type that takes the function is the implicit class, and its kind is the same before and
  -- after.
  obtain ⟨id, definition, isThere, found, static⟩ := implicit place atPlace
  have continues : session.table.Continues false table := revises.fills.continues
  obtain ⟨same, foundLater, head⟩ := continues.exists_later known
  have sameId : draft.id = id := by
    have ids (method : MethodDraft) : (session.setDraft place
        (draft.addMember.openMethod method)).drafts.map (·.id) = session.drafts.map (·.id) :=
          ids_setDraft here rfl
    simpa [ids, here] using isThere
  obtain rfl : same = definition := Option.some.inj (foundLater.symm.trans (sameId ▸ found))
  have sameKind : same.head.isStatic = type.head.isStatic := congrArg TypeDef.isStatic head
  have typeStatic : type.isStatic = true := sameKind.symm.trans static
  rw [marked.2.2, hasKind, typeStatic, Bool.or_true]

theorem Acts.scriptFunctions (acts : session.Acts including later) :
    later.scriptFunctions = session.scriptFunctions ∨
      ∃ ref, later = session.addScriptFunction ref ∧
        (session.ImplicitStatic → ∃ attrs, session.table.marks? ref = some (true, attrs)) := by
  cases acts with
  | code same =>
    have outlined : later.outline.scriptFunctions = session.outline.scriptFunctions :=
      congrArg Session.scriptFunctions same
    exact .inl outlined
  | setConstant | setOutput | includeModule | amend => exact .inl rfl
  | addScriptFunction isDefault opened =>
    exact .inr ⟨_, rfl, fun isStatic => ⟨_, (marks_openMethod isDefault ..).of_ok opened
      isStatic _ rfl⟩⟩
  | declareType declared => exact .inl ((scriptFunctions_declareType ..).of_ok declared)
  | announce noted => exact .inl ((scriptFunctions_modifyType _).of_ok noted)
  | beginBody _ begun => exact .inl ((scriptFunctions_modifyType _).of_ok begun)
  | openMethod opened => exact .inl ((scriptFunctions_openMethod ..).of_ok opened)
  | declareParam declared => exact .inl ((scriptFunctions_declareParam ..).of_ok declared)
  | declareField declared => exact .inl ((scriptFunctions_declareField ..).of_ok declared)
  | closeMethod closed => exact .inl (scriptFunctions_closeMethod.of_ok closed)
  | closeType closed => exact .inl ((scriptFunctions_closeType _).of_ok closed)

theorem Becomes.scriptsStatic (becomes : session.Becomes including later)
    (accounted : session.Accounted) (implicit : session.ImplicitStatic)
    (scripts : session.ScriptsStatic) : later.ScriptsStatic := by
  -- All three are kept together: a move needs the account, and a new free function the kind of the
  -- implicit class.
  have kept : ∀ before after : Session, before.Acts including after →
      before.Accounted ∧ before.ImplicitStatic ∧ before.ScriptsStatic →
      after.Accounted ∧ after.ImplicitStatic ∧ after.ScriptsStatic := by
    rintro before after acts ⟨accounted, implicit, scripts⟩
    have moves := acts.moves accounted
    have retained : ∀ ref ∈ before.scriptFunctions, ∃ attrs,
        after.table.marks? ref = some (true, attrs) :=
      fun ref here => (scripts ref here).imp fun attrs => moves.retains ref (true, attrs)
    refine ⟨acts.accounted accounted, moves.implicitStatic implicit, ?_⟩
    rcases acts.scriptFunctions with same | ⟨ref, rfl, isStatic⟩
    · exact fun ref here => retained ref (same ▸ here)
    · exact forall_mem_append.mpr ⟨retained, forall_mem_singleton.mpr (isStatic implicit)⟩
  exact (becomes.keeps kept ⟨accounted, implicit, scripts⟩).2.2

/-! ### New sessions -/

theorem implicitStatic_openDefault (noDefault : session.defaultType = none) :
    session.openDefault.ImplicitStatic := by
  rw [openDefault, define]
  intro place isDefault
  split at isDefault
  · rw [noDefault] at isDefault
    cases isDefault
  · rename_i id table defined
    split at defined
    · cases defined
    · cases defined
      cases isDefault
      exact ⟨_, _, rfl, getElem?_concat_length, rfl⟩

theorem scriptFunctions_openDefault : session.openDefault.scriptFunctions =
      session.scriptFunctions := by
  rw [openDefault]
  split <;> rfl

theorem ImplicitStatic.gives_openMain (isStatic : session.ImplicitStatic) :
    Gives session.openMain fun later =>
    later.ImplicitStatic ∧ later.scriptFunctions = session.scriptFunctions := by
  rw [openMain]
  split
  · exact ⟨isStatic, rfl⟩
  · rename_i draft rest drafts
    rw [gives_bind]
    refine (gives_addMethod mainDef).imp ?_
    rintro ⟨ref, table⟩ ⟨revises, -⟩
    have continues : session.table.Continues false table := revises.fills.continues
    refine ⟨isStatic.extend continues ?_ rfl, rfl⟩
    rw [drafts]
    exact prefix_rfl

theorem scriptsStatic_create (options : BuildOptions) (autoName : Bool) :
    Gives (create options autoName) fun session => session.ImplicitStatic ∧
      session.scriptFunctions = [] := by
  let start := blank options autoName
  have opened : start.openDefault.ImplicitStatic := implicitStatic_openDefault rfl
  have none : start.openDefault.scriptFunctions = [] := scriptFunctions_openDefault
  rw [create]
  split
  · exact ⟨opened, none⟩
  · exact opened.gives_openMain.imp fun later here => ⟨here.1, here.2.trans none⟩
  · exact ⟨fun place isDefault => absurd isDefault (Option.not_mem_none place), rfl⟩

end Session

theorem Build.Reached.scriptsStatic {files : FileTree} {stream : TokenStream}
    {options : BuildOptions} {autoName : Bool} {state : Build}
    (reached : Build.Reached files stream options autoName state) :
    state.compiler.session.ScriptsStatic := by
  obtain ⟨session, created, becomes⟩ := reached.becomes
  obtain ⟨implicit, none⟩ := (Session.scriptsStatic_create _ _).of_ok created
  refine becomes.scriptsStatic ((gives_create _ _).of_ok created) implicit fun ref here => ?_
  rw [none] at here
  cases here

/-! ## Where a call goes -/

theorem SymbolTable.gives_findMethod (table : SymbolTable) (owner : TypeId) (name : String)
    (args : List (Option TypeId)) :
    Gives (table.findMethod owner name args) fun found => ∀ ref ∈ found, table.Has (.method ref) := by
  rw [findMethod]
  refine gives_bind_ok fun supertypes _ => ?_
  rw [gives_bind]
  have gathered (id : TypeId) : Gives (do return overloads (← table.get id) id name args.length)
      fun methods => ∀ candidate ∈ methods, table.Has (.method candidate.1) := by
    rw [gives_bind]
    exact gives_get.imp fun type found candidate => Sound.has_of_mem_overloads found
  refine (gives_mapM gathered).imp fun found all => ?_
  have has : ∀ candidate ∈ found.flatten, table.Has (.method candidate.1) := by
    intro candidate here
    obtain ⟨methods, inFound, inMethods⟩ := mem_flatten.mp here
    exact all methods inFound candidate inMethods
  dsimp only
  split
  · rename_i ref method exact_match
    simpa using has _ (mem_of_find?_eq_some exact_match)
  · rw [gives_bind]
    refine gives_findM?.imp fun accepted inFound ref at_ref => ?_
    obtain ⟨candidate, here, rfl⟩ := Option.map_eq_some_iff.mp at_ref
    exact has candidate (inFound candidate here)

namespace Session

variable {session : Session} {namespaces segments : List String} {type : TypeId}

/-- The calls that go to a type. -/
inductive ThroughType (session : Session) (namespaces : List String) : List String → TypeId → Prop
  /-- the owner is a type, and no variable hides it -/
  | owner {owner : List String} {name : String} {type : TypeId} (isOwned : owner ≠ [])
      (notHidden : ∀ single, owner = [single] → session.lookupVar single = .ok none)
      (resolved : session.table.resolveType (dotted owner) namespaces = some type) :
      session.ThroughType namespaces (owner ++ [name]) type
  /-- a method of the enclosing type or of its supertypes; the running object is no receiver, since
  there is none or since the type itself has no instance method of the name -/
  | enclosing {name : String} {draft : TypeDraft} {definition : TypeDef} {method : Option MethodDraft}
      (notScript : session.findScriptFunction name = .ok none)
      (current : session.currentType? = .ok (some draft))
      (named : session.table.hasMethodNamed draft.id name = .ok true)
      (within : session.currentMethod? = .ok method)
      (defined : session.table.get draft.id = .ok definition)
      (notRunning : method.any (!·.isStatic) = true → ∀ m ∈ definition.methods, m.name = name →
        m.isStatic = true) : session.ThroughType namespaces [name] draft.id

theorem ThroughType.resolveCallSite (through : session.ThroughType namespaces segments type) :
    ∃ name, session.resolveCallSite segments namespaces = .ok ⟨name, .static type⟩ := by
  cases through with
  | @owner owner name type isOwned notHidden resolved =>
    have target : session.ownedCallTarget owner namespaces = .ok (.static type) := by
      unfold ownedCallTarget
      dsimp only
      split
      · rename_i single
        simp [notHidden single rfl, resolved, bind, Except.bind, pure, Except.pure]
      · simp [resolved, bind, Except.bind, pure, Except.pure]
    refine ⟨name, ?_⟩
    rw [resolveCallSite, getLast?_concat, dropLast_concat]
    dsimp only
    split
    · exact absurd rfl isOwned
    · rw [target]
      rfl
  | @enclosing name draft definition method notScript current named within defined notRunning =>
    have notOnInstance : (method.any (!·.isStatic) &&
        definition.methods.any fun m => m.name == name && !m.isStatic) = false := by
      rw [Bool.and_eq_false_imp]
      intro inInstance
      simpa using notRunning inInstance
    have target : session.localCallTarget name = .ok (.static draft.id) := by
      simp [localCallTarget, notScript, current, named, within, defined, notOnInstance, bind,
        Except.bind, pure, Except.pure]
    exact ⟨name, by simp [resolveCallSite, target, bind, Except.bind, pure, Except.pure]⟩

theorem throughType_localCallTarget (name : String) :
    Gives (session.localCallTarget name) fun target =>
    ∀ type, target = .static type → session.ThroughType namespaces [name] type := by
  rw [localCallTarget]
  refine gives_bind_ok fun script notScript => ?_
  split
  · simp
  rename_i isNone
  refine gives_bind_ok fun draft current => ?_
  cases draft with
  | none => simp
  | some draft =>
    dsimp only
    refine gives_bind_ok fun known named => ?_
    split
    · simp
    rename_i isKnown
    refine gives_bind_ok fun method within => ?_
    refine gives_bind_ok fun definition defined => ?_
    split
    · simp
    rename_i notOnInstance
    rintro type isStatic
    cases isStatic
    obtain rfl : script = none := by simpa using isNone
    obtain rfl : known = true := by simpa using isKnown
    refine .enclosing notScript current named within defined fun inInstance => ?_
    simpa [inInstance] using notOnInstance

theorem throughType_namedCallTarget {owner : List String} (isOwned : owner ≠ [])
    (notHidden : ∀ single, owner = [single] → session.lookupVar single = .ok none) (name : String) :
    Gives (match session.table.resolveType (dotted owner) namespaces with
      | some type => return .static type
      | none => do
        match ← session.table.resolveField (dotted owner) namespaces with
        | some ref => return .onInstance (.field ref) (← session.table.field ref).type
        | none => return .unresolved (dotted owner) : Except Fault CallTarget) fun target =>
          ∀ type, target = .static type → session.ThroughType namespaces (owner ++ [name]) type := by
  split
  · rename_i type resolved
    intro type isStatic
    cases isStatic
    exact .owner isOwned notHidden resolved
  · refine gives_bind_ok fun field _ => ?_
    cases field with
    | none => simp
    | some ref =>
      dsimp only
      exact gives_bind_ok fun _ _ => by simp

theorem throughType_ownedCallTarget {owner : List String} (isOwned : owner ≠ []) (name : String) :
    Gives (session.ownedCallTarget owner namespaces) fun target =>
      ∀ type, target = .static type → session.ThroughType namespaces (owner ++ [name]) type := by
  unfold ownedCallTarget
  dsimp only
  split
  · rename_i single
    refine gives_bind_ok fun var looked => ?_
    cases var with
    | some var => simp
    | none =>
      exact throughType_namedCallTarget isOwned (fun other same => singleton_inj.mp same ▸ looked) name
  · rename_i notSingle
    exact throughType_namedCallTarget isOwned (fun single same => absurd same (notSingle single)) name

/-- A call site is that of a type if and only if the call goes to that type. -/
theorem target_eq_static_iff {site : CallSite}
    (sited : session.resolveCallSite segments namespaces = .ok site) : site.target = .static type ↔
      session.ThroughType namespaces segments type := by
  constructor
  · have gives : Gives (session.resolveCallSite segments namespaces) fun site =>
        ∀ type, site.target = .static type → session.ThroughType namespaces segments type := by
      rw [resolveCallSite]
      split
      · simp
      · rename_i name last
        have whole : segments.dropLast ++ [name] = segments := dropLast_append_getLast? name last
        split
        · rename_i alone
          rw [alone, nil_append] at whole
          rw [gives_bind, ← whole]
          exact throughType_localCallTarget name
        · rename_i isOwned
          rw [gives_bind]
          nth_rewrite 2 [← whole]
          exact throughType_ownedCallTarget isOwned name
    exact gives.of_ok sited type
  · intro through
    obtain ⟨name, resolved⟩ := through.resolveCallSite
    rw [resolved] at sited
    cases sited
    rfl

/-! ## Which method is called -/

end Session

/-- What is known of the method of a call from where the call goes. Through a type, any method is
found. -/
def CallTarget.Suits : CallTarget → MethodDef → Prop
  | static _, _ => True
  | onInstance receiver _, method => method.isStatic = true → receiver = .this
  | script, method => method.isStatic = true
  | unresolved _, _ => False

namespace Session

variable {session : Session}

theorem ScriptsStatic.gives_findScriptFunction (scripts : session.ScriptsStatic) (name : String) :
    Gives (session.findScriptFunction name) fun found =>
      ∀ ref ∈ found, ∃ method, session.table.method ref = .ok method ∧ method.isStatic = true := by
  rw [findScriptFunction]
  refine gives_findM?.imp fun found inside ref isFound => ?_
  obtain ⟨attrs, marked⟩ := scripts ref (inside ref isFound)
  obtain ⟨type, known, method, here, marks⟩ := marks?_eq_some.mp marked
  refine ⟨method, ?_, congrArg Prod.fst marks⟩
  simp [SymbolTable.method, SymbolTable.get, member, known, here, bind, Except.bind]

theorem gives_chosen {found : Option MemberRef} {problem : Problem} {post : MemberRef → Prop} :
    (∀ ref ∈ found, post ref) → Gives (match found with
      | some ref => return ref
      | none => throw (.problem problem) : Except Failure MemberRef) post := by
  intro met
  cases found with
  | none => exact gives_throw
  | some ref => exact met ref rfl

theorem ScriptsStatic.gives_resolveCallee (scripts : session.ScriptsStatic) (site : CallSite)
    (args : List (Option TypeId)) : Gives (session.resolveCallee site args) fun ref =>
      ∃ method, session.table.method ref = .ok method ∧ site.target.Suits method := by
  unfold resolveCallee
  split
  · rename_i type target
    rw [gives_fault_bind]
    refine (session.table.gives_findMethod ..).imp fun found has => gives_chosen fun ref isFound => ?_
    obtain ⟨method, known⟩ := (has ref isFound).exists_method
    exact ⟨method, known, target ▸ trivial⟩
  · rename_i receiver type target
    refine gives_fault_ok fun found _ => ?_
    cases found with
    | none => exact gives_throw
    | some ref =>
      dsimp only
      refine gives_fault_ok fun method known => ?_
      split
      · exact gives_fault_ok fun _ _ => gives_throw
      · rename_i allowed
        refine ⟨method, known, ?_⟩
        rw [target]
        simpa [CallTarget.Suits] using allowed
  · rename_i target
    rw [gives_fault_bind]
    refine (scripts.gives_findScriptFunction site.name).imp fun found isStatic =>
      gives_chosen fun ref isFound => ?_
    obtain ⟨method, known, suits⟩ := isStatic ref isFound
    exact ⟨method, known, target ▸ suits⟩
  · exact gives_throw

end Session

/-! ## What is loaded -/

/-- The instruction that loads an object. -/
def Receiver.Loads (table : SymbolTable) (load : Instruction) : Receiver → Prop
  | var held => load = held.load
  | field ref => ∃ field, table.field ref = .ok field ∧ load = field.load ref
  | this => load = ⟨.ldarg, .arg 0⟩

theorem MethodDraft.code_loadReceiver (draft : MethodDraft) (table : SymbolTable)
    (receiver : Receiver) : Gives (draft.loadReceiver table receiver) fun (_, later) =>
      ∃ load, receiver.Loads table load ∧ later.code = draft.code ++ [load] := by
  cases receiver with
  | var var => exact ⟨var.load, rfl, congrArg MethodDraft.code (draft.loadVar_eq_append var)⟩
  | field ref =>
    rw [loadReceiver, loadField]
    exact gives_bind_ok fun field known => ⟨_, ⟨field, known, rfl⟩, rfl⟩
  | this => exact ⟨_, rfl, rfl⟩

variable {method : MethodDef} {ref : MemberRef}

theorem MethodDraft.code_call (draft : MethodDraft) {table : SymbolTable}
    (known : table.method ref = .ok method) (discard : Bool) :
    Gives (draft.call table ref discard) fun (_, later) =>
      ∃ rest, later.code = draft.code ++ ⟨if method.isVirtual then .callvirt else .call,
        .method ref⟩ :: rest := by
  rw [call, known, gives_bind, gives_ok]
  dsimp only
  refine gives_bind_ok fun isVoid _ => ?_
  split
  · exact ⟨[], rfl⟩
  split
  · exact ⟨[⟨.pop, .none⟩], append_assoc ..⟩
  · exact ⟨[], rfl⟩

theorem Compile.code_callCode {table : SymbolTable}
    (known : table.method ref = .ok method) (receiver : Option Receiver) (start : Nat)
    (discard : Bool) (draft : MethodDraft) :
    Gives (callCode receiver (some start) ref discard table draft) fun (_, later) => ∃ load rest,
      later.code = draft.code.take start ++ load ++ draft.code.drop start ++
        ⟨if method.isVirtual then .callvirt else .call, .method ref⟩ :: rest ∧
      (load = [] ↔ receiver = none) ∧ ∀ instruction ∈ load, load = [instruction] ∧
        ∃ object ∈ receiver, object.Loads table instruction := by
  unfold callCode
  cases receiver with
  | none =>
    refine gives_lift_fault.mpr ((draft.code_call known discard).imp ?_)
    rintro ⟨_, later⟩ ⟨rest, code⟩
    refine ⟨[], rest, ?_, by simp, by simp⟩
    rw [code, append_nil, take_append_drop]
  | some object =>
    dsimp only
    rw [Option.getD_some, gives_fault_bind]
    refine ((draft.cut start).code_loadReceiver table object).imp ?_
    rintro ⟨_, loaded⟩ ⟨instruction, loads, before⟩
    refine gives_lift_fault.mpr (((loaded.append (draft.tail start)).code_call known discard).imp ?_)
    rintro ⟨_, later⟩ ⟨rest, code⟩
    refine ⟨[instruction], rest, ?_, by simp, ?_⟩
    · rw [code, MethodDraft.append, before]
      rfl
    · rw [forall_mem_singleton]
      exact ⟨rfl, object, rfl, loads⟩

theorem Compile.exists_callCode_eq (receiver : Option Receiver) (start : Option Nat)
    (ref : MemberRef) (discard : Bool) (table : SymbolTable) (draft : MethodDraft) :
    ∃ outcome : Except Fault (Option TypeId × MethodDraft),
      callCode receiver start ref discard table draft = liftM outcome := by
  unfold callCode
  cases receiver with
  | none => exact ⟨draft.call table ref discard, rfl⟩
  | some object =>
    dsimp only
    cases (draft.cut (start.getD 0)).loadReceiver table object with
    | error fault => exact ⟨.error fault, rfl⟩
    | ok loaded => exact ⟨(loaded.2.append (draft.tail (start.getD 0))).call table ref discard, rfl⟩

/-- The emitted call stands in the method, and behind it at most what is made of its result. -/
theorem Compile.does_emitCall_loads {c : Compiler} {draft : MethodDraft} {site : CallSite}
    {args : List (Option TypeId)} (current : c.session.currentMethod? = .ok (some draft))
    (called : c.session.resolveCallee site args = .ok ref)
    (known : c.session.table.method ref = .ok method) (start : Nat) :
    (emitCall site (some start) args).Does c fun _ after => ∃ later load rest,
      after.session.currentMethod? = .ok (some later) ∧
      later.code = draft.code.take start ++ load ++ draft.code.drop start ++
        ⟨if method.isVirtual then .callvirt else .call, .method ref⟩ :: rest ∧
      (load = [] ↔ (if method.isStatic then none else site.receiver?) = none) ∧
      ∀ instruction ∈ load, load = [instruction] ∧
        ∃ object ∈ if method.isStatic then none else site.receiver?,
          object.Loads c.session.table instruction := by
  rw [emitCall]
  refine does_get_bind ?_
  rw [called]
  refine does_pure_bind (does_lift_bind (gives_self _) fun found isFound => ?_)
  obtain rfl : method = found := by simpa using known.symm.trans isFound
  refine does_lift_bind (gives_self _) fun isVoid _ => ?_
  obtain ⟨outcome, works⟩ := exists_callCode_eq (if method.isStatic then none else site.receiver?)
    (some start) ref (c.frames.isEmpty && c.consume == .normal && c.base.isIdle) c.session.table draft
  refine (does_emitting_fault current works (gives_lift_fault.mp
    (works ▸ code_callCode known _ start _ draft))).bind ?_
  rintro _ next ⟨left, called, ⟨load, rest, code, loads⟩, rfl, isCalled⟩
  cases left with
  | none =>
    dsimp only
    split
    · exact does_modify ⟨called, load, rest, isCalled, code, loads⟩
    · exact does_pure ⟨called, load, rest, isCalled, code, loads⟩
  | some type =>
    refine (Keeps.grows (fun _ => keeps_pushOperand (some type)) isCalled).imp ?_
    rintro _ after ⟨-, -, later, isLater, more, grown⟩
    refine ⟨later, load, rest ++ more, isLater, ?_, loads⟩
    rw [← grown, code, append_assoc, cons_append]

/-- Calls of instance methods have receivers, unless they go through a type. Let a dotted name be
resolved to a call site in any state of a build, and the site to a method, for any types of
arguments. Then the method exists. If it is an instance method, there is no receiver if and only if
the call goes through a type; if it is static, there is none other than the running object. When the
call is emitted, with the same types and free functions, an instance method has its receiver loaded
right below its arguments, unless the call goes through a type, and nothing else is loaded. -/
theorem receiver_unless_through_type {files : FileTree} {stream : TokenStream}
    {options : BuildOptions} {autoName : Bool} {state : Build}
    (reached : Build.Reached files stream options autoName state)
    {segments namespaces : List String} {site : CallSite} {args : List (Option TypeId)}
    {ref : MemberRef} (sited : state.compiler.session.resolveCallSite segments namespaces =
      .ok site) (called : state.compiler.session.resolveCallee site args = .ok ref) :
    ∃ method, state.compiler.session.table.method ref = .ok method ∧
      (method.isStatic = false → (site.receiver? = none ↔
        ∃ type, state.compiler.session.ThroughType namespaces segments type)) ∧
      (method.isStatic = true → ∀ receiver ∈ site.receiver?, receiver = .this) ∧
      ∀ (start : Nat) (c after : Compiler) (problems : List Problem) (draft : MethodDraft),
        c.session.table = state.compiler.session.table →
        c.session.scriptFunctions = state.compiler.session.scriptFunctions →
        c.session.currentMethod? = .ok (some draft) →
        Compile.emitCall site (some start) args c = .ok ((), after, problems) →
          ∃ later load rest, after.session.currentMethod? = .ok (some later) ∧
            later.code = draft.code.take start ++ load ++ draft.code.drop start ++
              ⟨if method.isVirtual then .callvirt else .call, .method ref⟩ :: rest ∧
            (load = [] ↔ method.isStatic = true ∨
              ∃ type, state.compiler.session.ThroughType namespaces segments type) ∧
            ∀ instruction ∈ load, load = [instruction] ∧
              ∃ receiver ∈ site.receiver?, receiver.Loads state.compiler.session.table instruction := by
  obtain ⟨method, known, suits⟩ := (reached.scriptsStatic.gives_resolveCallee site args).of_ok called
  have needs : method.isStatic = false → (site.receiver? = none ↔
      ∃ type, state.compiler.session.ThroughType namespaces segments type) := by
    intro isInstance
    simp only [← Session.target_eq_static_iff sited]
    rw [CallSite.receiver?]
    cases target : site.target with
    | static type => simp
    | onInstance => simp
    | script => simp [target, CallTarget.Suits, isInstance] at suits
    | unresolved => simp [target, CallTarget.Suits] at suits
  refine ⟨method, known, needs, fun isStatic receiver isReceiver => ?_, ?_⟩
  · rw [CallSite.receiver?] at isReceiver
    cases target : site.target with
    | onInstance object type =>
      rw [target] at isReceiver suits
      cases isReceiver
      exact suits isStatic
    | _ => simp [target] at isReceiver
  · intro start c after problems draft sameTable sameScripts current emitted
    have calledThere : c.session.resolveCallee site args = .ok ref := by
      rw [← called]
      simp only [Session.resolveCallee, Session.findScriptFunction, sameTable, sameScripts]
    obtain ⟨⟨later, load, rest, isLater, code, nothing, loads⟩, -⟩ :=
      (Compile.does_emitCall_loads current calledThere (sameTable ▸ known) start).of_ok emitted
    refine ⟨later, load, rest, isLater, code, ?_, fun instruction inside =>
      ⟨(loads instruction inside).1, ?_⟩⟩
    · rw [nothing]
      cases isStatic : method.isStatic with
      | true => simp
      | false => simpa using needs isStatic
    · obtain ⟨-, receiver, isReceiver, isLoaded⟩ := loads instruction inside
      rw [Option.mem_def, Option.ite_none_left_eq_some] at isReceiver
      exact ⟨receiver, isReceiver.2, sameTable ▸ isLoaded⟩

/-- A class whose instance method calls itself, and then a method of `System.Object`. -/
def callsInherited : TokenStream where
  header := .library
  platform := 0
  tokens :=
    [.classOpen "A" .plain .everywhere, .block true, .function "f" "" .plain .everywhere,
      .block true, .literal "f", .statement true, .statement false, .expressionEnd,
        .literal "ToString", .statement true, .statement false,
      .expressionEnd, .block false, .block false]

/-- Inside the method, a call of the method itself is made on the running object, which is loaded
below whatever code stands for the arguments. -/
theorem callsInherited_own_receiver :
    ∃ state : Build, Build.Reached (.empty []) callsInherited {} false state ∧
      state.compiler.session.resolveCallSite ["f"] [] = .ok ⟨"f", .onInstance .this 18⟩ ∧
      state.compiler.session.resolveCallee ⟨"f", .onInstance .this 18⟩ [] = .ok ⟨18, 0⟩ ∧
      ∃ after problems, Compile.emitCall ⟨"f", .onInstance .this 18⟩ (some 0) [] state.compiler =
          .ok ((), after, problems) ∧
        ∃ later rest, after.session.currentMethod? = .ok (some later) ∧
          later.code = ⟨.ldarg, .arg 0⟩ :: ⟨.call, .method ⟨18, 0⟩⟩ :: rest := by
  obtain ⟨state, draft, after, problems, reached, sited, called, marks, current, empty, emitted⟩ :
      ∃ (state : Build) (draft : MethodDraft) (after : Compiler) (problems : List Problem),
        Build.Reached (.empty []) callsInherited {} false state ∧
        state.compiler.session.resolveCallSite ["f"] [] = .ok ⟨"f", .onInstance .this 18⟩ ∧
        state.compiler.session.resolveCallee ⟨"f", .onInstance .this 18⟩ [] = .ok ⟨18, 0⟩ ∧
        (state.compiler.session.table.method ⟨18, 0⟩).map
          (fun method => (method.isStatic, method.isVirtual)) = .ok (false, false) ∧
        state.compiler.session.currentMethod? = .ok (some draft) ∧ draft.code = [] ∧
        Compile.emitCall ⟨"f", .onInstance .this 18⟩ (some 0) [] state.compiler =
            .ok ((), after, problems) :=
    ⟨_, _, _, _, .step (.step (.step (.step (.start rfl) rfl rfl) rfl rfl) rfl rfl) rfl rfl, rfl, rfl,
      rfl, rfl, rfl, rfl⟩
  obtain ⟨method, known, needs, -, loads⟩ := receiver_unless_through_type reached sited called
  obtain ⟨isInstance, isPlain⟩ : method.isStatic = false ∧ method.isVirtual = false := by
    simpa [known, Except.map] using marks
  obtain ⟨later, load, rest, isLater, code, nothing, single⟩ :=
    loads 0 _ after problems draft rfl rfl current emitted
  rw [← needs isInstance, isInstance] at nothing
  refine ⟨state, reached, sited, called, after, problems, emitted, later, rest, isLater, ?_⟩
  cases load with
  | nil => simp [CallSite.receiver?] at nothing
  | cons instruction more =>
    obtain ⟨alone, receiver, isReceiver, isLoaded⟩ := single instruction List.mem_cons_self
    cases isReceiver
    rw [alone, show instruction = _ from isLoaded, isPlain, empty] at code
    exact code

/-- An inherited method is called without an owner and without a receiver, although it is an
instance method. In the code of the method, the call of the method itself has its receiver, and the
other call has none. Nothing is reported. -/
theorem inherited_called_without_receiver :
    (∃ state : Build, Build.Reached (.empty []) callsInherited {} false state ∧ ∃ site ref,
      state.compiler.session.resolveCallSite ["ToString"] [] = .ok site ∧
        state.compiler.session.resolveCallee site [] = .ok ref ∧
        (state.compiler.session.table.method ref).map (·.isStatic) = .ok false ∧ site.receiver? = none) ∧
      (build (.empty []) callsInherited {} false).map (fun result =>
          (result.diagnostics, result.compiled.bodies.map (·.code))) =
        .ok ([], [[⟨.ldarg, .arg 0⟩, ⟨.call, .method ⟨18, 0⟩⟩, ⟨.callvirt, .method ⟨0, 0⟩⟩,
          ⟨.pop, .none⟩]]) := by
  refine ⟨⟨_, .step (.step (.step (.step (.start rfl) rfl rfl) rfl rfl) rfl rfl) rfl rfl, _, _, rfl,
    rfl, rfl, rfl⟩, ?_⟩
  decide +kernel

end OnePass
