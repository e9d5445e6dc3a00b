import OnePass.Proofs.Finals.Frames

/-! # Targets of assignments

A target is kept from the token that names it to the end of the expression. It says how the variable
was declared, and the store that comes later relies on that: only a final is checked and marked. So
the target has to fit the method that the store goes to. -/

namespace OnePass

open Option List

/-- What a store to the target changes. A parameter is neither a local nor a field. -/
def AssignTarget.stored? : AssignTarget → Option Stored
  | .field ref => some (.field ref)
  | .var changed =>
    match changed.slot with
    | .mutable index | .final index => some (.loc index)
    | .param _ => none

/-- A target that is taken for a variable that can be stored to again and again is one. -/
def AssignTarget.Fits (method : MethodDraft) : AssignTarget → Prop
  | .field _ => True
  | .var changed => ∀ index, changed.slot = .mutable index → ¬ method.Limits index

namespace MethodDraft

variable {method later : MethodDraft}

theorem locals_add (draft : MethodDraft) (new : LocalDef) :
    locals { draft with declared := draft.declared.add new } = draft.locals ++ [new] :=
  draft.declared.defs_add new

theorem locals_markAssigned (draft : MethodDraft) (position : Nat) :
    locals { draft with declared := draft.declared.markAssigned position } =
      draft.locals.modify position fun found => { found with assigned := true } :=
  draft.declared.defs_markAssigned position

/-- The variable that a name means fits, unless there are too many locals to be numbered. -/
theorem fits_of_get? (small : method.locals.length ≤ 65536) {name : String} {var : LocalVar}
    (found : method.get? name = some var) : (AssignTarget.var var).Fits method := by
  intro index isMutable
  rw [get?, or_eq_some_iff] at found
  rcases found with isLocal | ⟨-, isParam⟩
  · simp only [getLocal?, bind_eq_bind, bind_eq_some_iff, Option.pure_def, Option.some.injEq] at isLocal
    obtain ⟨position, -, declared, here, stored, -, rfl⟩ := isLocal
    have inRange := (List.getElem?_eq_some_iff.mp here).1
    dsimp only [localSlot] at isMutable
    split at isMutable
    · cases isMutable
    · rename_i notFinal
      cases isMutable
      intro limits
      -- The number is the position itself, since it did not wrap around.
      refine notFinal (limits declared ?_)
      rwa [UInt16.toNat_ofNat', Nat.mod_eq_of_lt (by omega)]
  · simp only [getParam?, bind_eq_bind, bind_eq_some_iff, Option.pure_def, Option.some.injEq] at isParam
    obtain ⟨position, -, declared, -, rfl⟩ := isParam
    cases isMutable

/-- A store is appended. The place is none that is limited, or its mark is set by now. -/
theorem grows_stloc {marked : MethodDraft} {index : UInt16} (slot : marked.slot = method.slot)
    (code : marked.code = method.code)
    (finality : marked.locals.map (·.isFinal) = method.locals.map (·.isFinal))
    (spent : ∀ place, method.Limits place →
      (if place = index then 1 else 0) + method.spent place ≤ marked.spent place) :
    method.Grows [.loc index] (marked.emit .stloc (.loc index)) where
  slot := slot
  stores := by
    rw [emit, append, storesIn_append, code]
    exact perm_append_comm.subperm
  spent place limits := by
    have limitsBefore : method.Limits place := (limits_iff_of_finality finality place).mp limits
    have counted : [Stored.loc index].count (.loc place) = if place = index then 1 else 0 := by
      by_cases same : place = index
      · subst same
        simp
      · have apart : Stored.loc index ≠ .loc place := fun equal => same (Stored.loc.inj equal).symm
        rw [if_neg same, count_cons_of_ne apart, count_nil]
    rw [counted]
    exact ⟨limitsBefore, spent place limitsBefore⟩
  final place final := (hasFinal_iff_of_finality finality place).mpr final
  longer := by simp [position, emit, append, code]
  finality := finality

/-- A store to a variable. A final must not be marked, and is marked then. -/
theorem grows_storeVar {var : LocalVar} (fits : (AssignTarget.var var).Fits method) :
    Gives (method.storeVar var) fun later => method.Grows (AssignTarget.var var).stored?.toList
      later := by
  unfold storeVar AssignTarget.stored?
  dsimp only
  cases isSlot : var.slot with
  | param index => exact method.grows_emit rfl
  | mutable index =>
    refine grows_stloc rfl rfl rfl fun place limits => ?_
    have other : place ≠ index := fun same => fits index isSlot (same ▸ limits)
    rw [if_neg other, Nat.zero_add]
  | final index =>
    rw [gives_bind, markAssigned]
    split
    · exact gives_error
    rename_i found here
    split
    · -- The final is marked: the store is refused.
      exact gives_error
    rename_i unmarked
    refine grows_stloc rfl rfl ?_ fun place _ => ?_
    · refine ext_getElem? fun place => ?_
      rw [locals_markAssigned, getElem?_map, getElem?_modify, getElem?_map]
      split <;> simp [Option.map_map, Function.comp_def]
    · rw [MethodDraft.spent, MethodDraft.spent, locals_markAssigned, getElem?_modify]
      by_cases same : place = index
      · subst same
        simp [here, unmarked]
      · have apart : index.toNat ≠ place.toNat := fun equal => same (UInt16.toNat_inj.mp equal).symm
        simp [same, apart]

theorem grows_storeField (method : MethodDraft) (table : SymbolTable) (ref : MemberRef) :
    Gives (method.storeField table ref) fun later => method.Grows [.field ref] later := by
  rw [storeField]
  refine gives_bind_ok fun field _ => ?_
  have stored : storesIn [⟨if field.isStatic then .stsfld else .stfld, .field ref⟩] =
      [.field ref] := by
    split <;> rfl
  -- No local is stored to, so the marks say what they said.
  refine ⟨⟨rfl, ?_, fun place limits => ⟨limits, ?_⟩, fun _ final => final⟩, by simp [position,
    emit, append], rfl⟩
  · rw [emit, append, storesIn_append, stored]
    exact perm_append_comm.subperm
  · exact Nat.le_of_eq (Nat.zero_add _)

theorem evolves_declareLocal (method : MethodDraft) (table : SymbolTable) (name typeName : String)
    (namespaces : List String) (isFinal : Bool) :
    Gives (method.declareLocal table name typeName namespaces isFinal) fun (var, later) =>
      method.Evolves [] later ∧ later.position = method.position ∧
        (∀ target : AssignTarget, target.Fits method → target.Fits later) ∧
        (later.locals.length ≤ 65536 → (AssignTarget.var var).Fits later) := by
  rw [declareLocal]
  split
  · exact gives_error
  rename_i type _
  split
  · exact gives_error
  -- The locals before the new one stay, and have the numbers that they had.
  have before {place : UInt16} {found : LocalDef} (new : LocalDef)
      (here : method.locals[place.toNat]? = some found) :
          (locals { method with declared := method.declared.add new })[place.toNat]? = some found := by
    rw [locals_add]
    exact (getElem?_append_left (List.getElem?_eq_some_iff.mp here).1).trans here
  have limited {place : UInt16}
      (limits : Limits { method with declared := method.declared.add ⟨name, type, isFinal, false⟩ }
        place) :
      method.Limits place := fun found here => limits found (before _ here)
  refine ⟨⟨rfl, .refl _, fun place limits => ⟨limited limits, ?_⟩, ?_⟩, rfl, fun target fits => ?_,
    fun small => ?_⟩
  · rw [count_nil, Nat.zero_add, MethodDraft.spent, MethodDraft.spent]
    cases here : method.locals[place.toNat]? with
    | none => exact Nat.zero_le _
    | some found => rw [before _ here]
  · rintro place ⟨found, here, final⟩
    exact ⟨found, before _ here, final⟩
  · cases target with
    | field ref => trivial
    | var var => exact fun place isMutable limits => fits place isMutable (limited limits)
  · intro place isMutable limits
    dsimp only [localSlot] at isMutable
    split at isMutable
    · cases isMutable
    · rename_i notFinal
      cases isMutable
      have inRange : method.locals.length < 65536 := by simpa using small
      refine notFinal (limits ⟨name, type, isFinal, false⟩ ?_)
      rw [LocalTable.count_eq_length, defs_declared, UInt16.toNat_ofNat',
        Nat.mod_eq_of_lt inRange, locals_add]
      exact getElem?_concat_length

end MethodDraft

/-! ## Names -/

/-- What an assignment to a name would change. -/
def Reference.target? : Reference → Option AssignTarget
  | .var changed => some (.var changed)
  | .field _ ref => some (.field ref)
  | .constant _ | .missing _ => none

namespace Session

/-- What a name means does not depend on the code of the current method. -/
theorem resolveReference_setMethod {session : Session} {method : MethodDraft}
    (current : session.currentMethod? = .ok (some method)) (changed : MethodDraft)
    (names : changed.get? = method.get?) (isStatic : changed.isStatic = method.isStatic) :
    Gives (session.setMethod changed) fun later =>
      later.resolveReference = session.resolveReference := by
  obtain ⟨index, draft, rest, found, openMethods⟩ := currentMethod?_eq_some current
  obtain ⟨-, -, isOpen⟩ := current?_eq_some found
  rw [setMethod, modifyType, found]
  refine gives_ok.mpr ?_
  have isCurrent := current?_setDraft found (draft.setMethod changed) isOpen
  have type : session.currentType? = .ok (some draft) := by rw [currentType?, found]; rfl
  have typeAfter : (session.setDraft index (draft.setMethod changed)).currentType? =
      .ok (some (draft.setMethod changed)) := by rw [currentType?, isCurrent]; rfl
  have methodAfter : (session.setDraft index (draft.setMethod changed)).currentMethod? =
      .ok (some changed) := by
    rw [currentMethod?, typeAfter]; rfl
  have lookups : (session.setDraft index (draft.setMethod changed)).lookupVar = session.lookupVar := by
    funext name
    rw [lookupVar, lookupVar, methodAfter, current]
    simp only [bind, Except.bind, bind_some, names]
  have own : (session.setDraft index (draft.setMethod changed)).ownField? = session.ownField? := by
    funext name
    rw [ownField?, ownField?, methodAfter, current, typeAfter, type]
    simp only [bind, Except.bind, any_some, isStatic]
    rfl
  funext segments namespaces
  simp only [resolveReference, resolveSingle, lookups, own]
  rfl

end Session

end OnePass
