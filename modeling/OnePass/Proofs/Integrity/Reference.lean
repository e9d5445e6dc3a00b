import OnePass.Proofs.Integrity.Session

/-! # Names mean what exists

What a dotted name means in a sound session, as a value or as a call, holds symbols of the session's
table only. Loading it to a method of the session adds no other symbols. -/

namespace OnePass

open SymbolTable (holds_nil holds_cons)

namespace Session.Sound

variable {session : Session} (sound : session.Sound)

include sound

/-! ## Values -/

theorem ensures_lookupVar [Stops Fault] (name : String) :
    Ensures (session.lookupVar name) fun found => ∀ var ∈ found, session.table.Holds var.symbols := by
  rw [lookupVar, ensures_bind]
  refine sound.ensures_currentMethod.imp fun found holds var here => ?_
  obtain ⟨method, isCurrent, inMethod⟩ := Option.bind_eq_some_iff.mp here
  exact MethodDraft.holds_get (holds method isCurrent) inMethod

theorem ensures_ownField [Stops Fault] (name : String) :
    Ensures (session.ownField? name) fun found =>
      ∀ reference ∈ found, session.table.Holds (Reference.symbols reference) := by
  rw [ownField?, ensures_bind]
  refine sound.ensures_currentType.imp fun found holds => ?_
  split
  · simp
  · rename_i type
    have owner := TypeDraft.id_inRange (holds type rfl)
    rw [ensures_bind]
    refine (sound.table.ensures_fieldOn owner name).imp fun field? has => ?_
    split
    · simp
    · rename_i ref
      have here := has ref rfl
      rw [ensures_bind]
      refine (sound.table.ensures_field here).imp fun field _ => ?_
      split
      · simpa [Reference.symbols] using here
      · rw [ensures_bind]
        refine sound.ensures_currentMethod.imp fun method? _ => ?_
        split
        · simpa [Reference.symbols, Receiver.symbols] using here
        · simp

theorem ensures_resolveSingle [Stops Fault] (name : String) :
    Ensures (session.resolveSingle name) fun reference => session.table.Holds reference.symbols := by
  rw [resolveSingle, ensures_bind]
  refine (sound.ensures_lookupVar name).imp fun var? holds => ?_
  split
  · rename_i var
    exact holds var rfl
  · split
    · exact holds_nil
    · rw [ensures_bind]
      refine (sound.ensures_ownField name).imp fun field? known => ?_
      cases field? with
      | none => exact holds_nil
      | some reference => exact known reference rfl

theorem ensures_resolvePath [Stops Fault] (segments namespaces : List String) :
    Ensures (session.resolvePath segments namespaces) fun reference =>
      session.table.Holds reference.symbols := by
  rw [resolvePath, ensures_bind]
  refine (sound.table.ensures_resolveField _ namespaces).imp fun field? has => ?_
  split
  · rename_i ref
    simpa [Reference.symbols] using has ref rfl
  · exact holds_nil

theorem ensures_resolveReference [Stops Fault] (segments namespaces : List String) :
    Ensures (session.resolveReference segments namespaces) fun reference =>
      session.table.Holds reference.symbols := by
  unfold resolveReference
  split
  · exact sound.ensures_resolveSingle _
  · rw [ensures_bind]
    refine (sound.ensures_lookupVar _).imp fun var? holds => ?_
    split
    · exact sound.ensures_resolvePath _ namespaces
    -- The name of a variable hides types, and the field is one of the variable's type.
    · rename_i var
      have inVar := holds var rfl
      have type : var.type < session.table.types.length := by simpa [LocalVar.symbols] using inVar
      rw [ensures_bind]
      refine (sound.table.ensures_fieldOn type _).imp fun field? has => ?_
      split
      · rename_i ref
        simpa [Reference.symbols, Receiver.symbols] using ⟨inVar, has ref rfl⟩
      · exact holds_nil
  · exact sound.ensures_resolvePath _ namespaces

/-! ## Calls -/

theorem ensures_localCallTarget (name : String) :
    Ensures (session.localCallTarget name) fun target => session.table.Holds target.symbols := by
  rw [localCallTarget, ensures_bind]
  refine (sound.ensures_findScriptFunction name).imp fun script? _ => ?_
  split
  · exact holds_nil
  · rw [ensures_bind]
    refine sound.ensures_currentType.imp fun type? holds => ?_
    split
    · exact holds_nil
    · rename_i type
      have owner := TypeDraft.id_inRange (holds type rfl)
      rw [ensures_bind]
      refine (sound.table.ensures_hasMethodNamed owner name).imp fun named _ => ?_
      split
      · exact holds_nil
      · rw [ensures_bind]
        refine sound.ensures_currentMethod.imp fun method? _ => ?_
        dsimp only
        rw [ensures_bind]
        refine (SymbolTable.ensures_get owner).imp fun definition _ => ?_
        split
        · simpa [CallTarget.symbols, Receiver.symbols] using owner
        · simpa [CallTarget.symbols] using owner

theorem ensures_namedCallTarget (owner namespaces : List String) :
    Ensures (match session.table.resolveType (dotted owner) namespaces with
      | some type => return .static type
      | none => do
        match ← session.table.resolveField (dotted owner) namespaces with
        | some ref => return .onInstance (.field ref) (← session.table.field ref).type
        | none => return .unresolved (dotted owner) : Except Fault CallTarget)
      fun target => session.table.Holds target.symbols := by
  split
  · rename_i type found
    simpa [CallTarget.symbols] using sound.table.resolveType_inRange found
  · rw [ensures_bind]
    refine (sound.table.ensures_resolveField _ namespaces).imp fun field? has => ?_
    split
    · rename_i ref
      have here := has ref rfl
      rw [ensures_bind]
      refine (sound.table.ensures_field here).imp fun field type => ?_
      simpa [CallTarget.symbols, Receiver.symbols] using ⟨here, type⟩
    · exact holds_nil

theorem ensures_ownedCallTarget (owner namespaces : List String) :
    Ensures (session.ownedCallTarget owner namespaces) fun target =>
      session.table.Holds target.symbols := by
  unfold ownedCallTarget
  dsimp only
  split
  · rw [ensures_bind]
    refine (sound.ensures_lookupVar _).imp fun var? holds => ?_
    cases var? with
    | none => exact sound.ensures_namedCallTarget _ namespaces
    | some var =>
      have inVar := holds var rfl
      simpa [CallTarget.symbols, Receiver.symbols, LocalVar.symbols] using inVar
  · exact sound.ensures_namedCallTarget _ namespaces

theorem ensures_resolveCallSite (segments namespaces : List String) :
    Ensures (session.resolveCallSite segments namespaces) fun site =>
      session.table.Holds site.symbols := by
  rw [resolveCallSite]
  split
  · exact holds_nil
  · split
    · rw [ensures_bind]
      exact (sound.ensures_localCallTarget _).imp fun _ here => here
    · rw [ensures_bind]
      exact (sound.ensures_ownedCallTarget _ namespaces).imp fun _ here => here

omit sound in
theorem ensures_chosen (found : Option MemberRef) (problem : Problem) :
    (∀ ref ∈ found, session.table.Has (.method ref)) → Ensures (match found with
      | some ref => return ref
      | none => throw (.problem problem) : Except Failure MemberRef) fun ref =>
      session.table.Has (.method ref) := by
  intro has
  cases found with
  | none => exact ensures_throw_problem
  | some ref => exact has ref rfl

theorem ensures_resolveCallee {site : CallSite} (holds : session.table.Holds site.symbols)
    {args : List (Option TypeId)} (known : session.table.Holds (args.flatMap typeSymbols)) :
    Ensures (session.resolveCallee site args) fun ref => session.table.Has (.method ref) := by
  rw [CallSite.symbols] at holds
  unfold resolveCallee
  split
  · rename_i type target
    rw [target] at holds
    have inRange : type < session.table.types.length := by simpa [CallTarget.symbols] using holds
    rw [ensures_fault_bind]
    exact (sound.table.ensures_findMethod inRange _ known).imp fun found has => ensures_chosen _ _ has
  · rename_i receiver type target
    rw [target] at holds
    simp only [CallTarget.symbols, SymbolTable.holds_append, holds_cons] at holds
    have inRange : type < session.table.types.length := holds.2.1
    simp only [ensures_fault_bind]
    refine (sound.table.ensures_findMethod inRange _ known).imp fun found has => ?_
    cases found with
    | none => exact ensures_chosen _ _ has
    | some ref =>
      rw [ensures_fault_bind]
      refine (sound.table.ensures_method (has ref rfl)).imp fun method _ => ?_
      split
      · rw [ensures_fault_bind]
        exact (SymbolTable.ensures_typeName inRange).imp fun _ _ => ensures_throw_problem
      · exact has ref rfl
  · rw [ensures_fault_bind]
    exact (sound.ensures_findScriptFunction _).imp fun found has => ensures_chosen _ _ has
  · exact ensures_throw_problem

end Session.Sound

/-! ## Loading -/

namespace MethodDraft

variable {table : SymbolTable} {draft : MethodDraft} (holds : table.Holds draft.symbols)
  (sound : table.Sound)

include holds sound

theorem ensures_loadReceiver {receiver : Receiver} (known : table.Holds receiver.symbols) :
    Ensures (draft.loadReceiver table receiver) fun (type, later) =>
      type < table.types.length ∧ table.Holds later.symbols := by
  cases receiver with
  | var var =>
    exact ⟨by simpa [Receiver.symbols, LocalVar.symbols] using known, holds_loadVar holds var⟩
  | field ref => exact ensures_loadField holds sound (by simpa [Receiver.symbols] using known)
  | this => exact ⟨sound.object_inRange, holds_loadThis holds⟩

theorem ensures_loadReference {reference : Reference} (known : table.Holds reference.symbols) :
    Ensures (draft.loadReference table reference) fun (type, later) =>
      type < table.types.length ∧ table.Holds later.symbols := by
  cases reference with
  | var var =>
    exact ⟨by simpa [Reference.symbols, LocalVar.symbols] using known, holds_loadVar holds var⟩
  | field receiver ref =>
    simp only [Reference.symbols, SymbolTable.holds_append, SymbolTable.holds_flatMap,
      holds_cons] at known
    obtain ⟨inReceiver, has, -⟩ := known
    cases receiver with
    | none =>
      rw [loadReference, ensures_lift_fault]
      exact ensures_loadField holds sound has
    | some receiver =>
      rw [loadReference, ensures_fault_bind]
      refine (ensures_loadReceiver holds sound (inReceiver receiver (by simp))).imp ?_
      rintro ⟨_, loaded⟩ post
      rw [ensures_lift_fault]
      exact ensures_loadField post.2 sound has
  | constant value => exact holds_loadConstant holds sound value
  | missing name => trivial

end MethodDraft

end OnePass
