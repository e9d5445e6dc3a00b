import OnePass.Proofs.Layout.Method

/-! # Names mean variables that are there

A name is looked up in the current method, so the variable that it means is one of that method, and
so is the variable that a field or a call is taken from. The number of a local is below the number
of locals even where numbers of two bytes have come round, since the number decides which local is
meant; the number of a parameter only gets smaller then.

The plans of operators work on the stack alone. -/

namespace OnePass

open Option

/-! ## Variables -/

namespace MethodDraft

variable {method : MethodDraft} {name : String} {var : LocalVar}

theorem has_of_getLocal? (found : method.getLocal? name = some var) : method.Has var.slot := by
  simp only [getLocal?, bind_eq_bind, bind_eq_some_iff, pure_def, Option.some.injEq] at found
  obtain ⟨position, -, declared, -, stored, here, rfl⟩ := found
  obtain ⟨inRange, -⟩ := List.getElem?_eq_some_iff.mp here
  dsimp only [localSlot]
  split <;> exact inRange

/-- The receiver comes first, and only in an instance method. -/
theorem paramIndex_lt {position : Nat} (inRange : position < method.params.length) :
    (method.paramIndex position).toNat < method.arity := by
  have small : (UInt16.ofNat position).toNat ≤ position := by
    rw [UInt16.toNat_ofNat']
    exact Nat.mod_le _ _
  rw [paramIndex, arity, UInt16.toNat_add]
  refine (Nat.mod_le _ _).trans_lt ?_
  split
  · rw [UInt16.toNat_zero]
    omega
  · rw [UInt16.toNat_one]
    omega

theorem has_of_getParam? (found : method.getParam? name = some var) : method.Has var.slot := by
  simp only [getParam?, bind_eq_bind, bind_eq_some_iff, pure_def, Option.some.injEq] at found
  obtain ⟨position, -, declared, here, rfl⟩ := found
  exact paramIndex_lt (List.getElem?_eq_some_iff.mp here).1

theorem has_of_get? (found : method.get? name = some var) : method.Has var.slot := by
  rw [get?, or_eq_some_iff] at found
  rcases found with isLocal | ⟨-, isParam⟩
  · exact has_of_getLocal? isLocal
  · exact has_of_getParam? isParam

/-- What a name can mean in a method. -/
def Means (method : MethodDraft) : Reference → Prop
  | .var var => ∃ name, method.get? name = some var
  | .field (some receiver) _ => method.HasReceiver receiver
  | .field none _ | .constant _ | .missing _ => True

theorem Means.has {reference : Reference} (means : method.Means reference) :
    method.HasReference reference := by
  cases reference with
  | var var =>
    obtain ⟨name, found⟩ := means
    exact has_of_get? found
  | field receiver ref =>
    cases receiver with
    | none => trivial
    | some receiver => exact means
  | constant | missing => trivial

theorem arity_pos (isInstance : method.isStatic = false) : 0 < method.arity := by
  rw [arity, isInstance]
  exact Nat.succ_pos _

end MethodDraft

/-! ## References and calls -/

namespace Session

variable (session : Session)

/-- The current method, if there is one, meets the condition. -/
def Here (session : Session) (p : MethodDraft → Prop) : Prop :=
  ∀ method, session.currentMethod? = .ok (some method) → p method

theorem gives_lookupVar (name : String) : Gives (session.lookupVar name) fun found => ∀ var,
      found = some var →
    ∃ method, session.currentMethod? = .ok (some method) ∧ method.get? name = some var := by
  rw [lookupVar]
  refine gives_bind_ok fun current here var isFound => ?_
  cases current with
  | none => cases isFound
  | some method => exact ⟨method, here, isFound⟩

theorem here_lookupVar (name : String) :
    Gives (session.lookupVar name) fun found => ∀ var ∈ found,
      session.Here (·.get? name = some var) := by
  refine (session.gives_lookupVar name).imp fun found known var isFound method current => ?_
  obtain ⟨other, isCurrent, here⟩ := known var isFound
  obtain rfl : method = other := by simpa using current.symm.trans isCurrent
  exact here

/-- The running object is a receiver in instance methods only. -/
theorem here_this {found : Option MethodDraft} (current : session.currentMethod? = .ok found)
    (isInstance : found.any (!·.isStatic) = true) : session.Here (·.HasReceiver .this) := by
  intro method isCurrent
  obtain rfl : found = some method := by simpa using current.symm.trans isCurrent
  exact MethodDraft.arity_pos (by simpa using isInstance)

theorem means_ownField (name : String) :
    Gives (session.ownField? name) fun found => ∀ reference ∈ found,
      session.Here (·.Means reference) := by
  rw [ownField?]
  refine gives_bind_ok fun type _ => ?_
  cases type with
  | none => simp
  | some type =>
    dsimp only
    refine gives_bind_ok fun found _ => ?_
    cases found with
    | none => simp
    | some ref =>
      dsimp only
      refine gives_bind_ok fun field _ => ?_
      split
      · rintro reference isFound
        cases isFound
        exact fun _ _ => trivial
      · refine gives_bind_ok fun method current => ?_
        split
        · rename_i isInstance
          rintro reference isFound
          cases isFound
          exact session.here_this current isInstance
        · simp

theorem means_resolveSingle (name : String) :
    Gives (session.resolveSingle name) fun reference => session.Here (·.Means reference) := by
  rw [resolveSingle, gives_bind]
  refine (session.here_lookupVar name).imp fun found known => ?_
  cases found with
  | some var => exact fun method current => ⟨name, known var rfl method current⟩
  | none =>
    dsimp only
    split
    · exact fun _ _ => trivial
    · rw [gives_bind]
      refine (session.means_ownField name).imp fun own has => ?_
      cases own with
      | none => exact fun _ _ => trivial
      | some reference => exact has reference rfl

theorem means_resolvePath (segments namespaces : List String) :
    Gives (session.resolvePath segments namespaces) fun reference =>
      session.Here (·.Means reference) := by
  rw [resolvePath]
  refine gives_bind_ok fun found _ => ?_
  cases found <;> exact fun _ _ => trivial

theorem means_resolveReference (segments namespaces : List String) :
    Gives (session.resolveReference segments namespaces) fun reference =>
      session.Here (·.Means reference) := by
  unfold resolveReference
  split
  · exact session.means_resolveSingle _
  · rw [gives_bind]
    refine (session.here_lookupVar _).imp fun found known => ?_
    cases found with
    | none => exact session.means_resolvePath _ _
    | some var =>
      dsimp only
      refine gives_bind_ok fun field _ => ?_
      cases field with
      | none => exact fun _ _ => trivial
      | some ref =>
        exact fun method current => MethodDraft.has_of_get? (known var rfl method current)
  · exact session.means_resolvePath _ _

/-- The receiver of a call, if it has one, can be loaded in the current method. -/
def HasSite (session : Session) (site : CallSite) : Prop :=
  ∀ receiver ∈ site.receiver?, session.Here (·.HasReceiver receiver)

theorem has_localCallTarget (name : String) :
    Gives (session.localCallTarget name) fun target => session.HasSite ⟨name, target⟩ := by
  rw [localCallTarget]
  refine gives_bind_ok fun script _ => ?_
  split
  · simp [HasSite, CallSite.receiver?]
  refine gives_bind_ok fun type _ => ?_
  cases type with
  | none => simp [HasSite, CallSite.receiver?]
  | some type =>
    dsimp only
    refine gives_bind_ok fun isKnown _ => ?_
    split
    · simp [HasSite, CallSite.receiver?]
    refine gives_bind_ok fun method current => ?_
    refine gives_bind_ok fun definition _ => ?_
    split
    · rename_i inInstance
      rintro receiver isReceiver
      cases isReceiver
      exact session.here_this current (Bool.and_eq_true _ _ ▸ inInstance).1
    · simp [HasSite, CallSite.receiver?]

theorem has_namedCallTarget (name : String) (owner namespaces : List String) :
    Gives (match session.table.resolveType (dotted owner) namespaces with
      | some type => return .static type
      | none => do
        match ← session.table.resolveField (dotted owner) namespaces with
        | some ref => return .onInstance (.field ref) (← session.table.field ref).type
        | none => return .unresolved (dotted owner) : Except Fault CallTarget) fun target =>
          session.HasSite ⟨name, target⟩ := by
  split
  · simp [HasSite, CallSite.receiver?]
  · refine gives_bind_ok fun found _ => ?_
    cases found with
    | none => simp [HasSite, CallSite.receiver?]
    | some ref =>
      dsimp only
      refine gives_bind_ok fun field _ => ?_
      rintro receiver isReceiver
      cases isReceiver
      exact fun _ _ => trivial

theorem has_ownedCallTarget (name : String) (owner namespaces : List String) :
    Gives (session.ownedCallTarget owner namespaces) fun target => session.HasSite ⟨name, target⟩ := by
  unfold ownedCallTarget
  dsimp only
  split
  · rw [gives_bind]
    refine (session.here_lookupVar _).imp fun found known => ?_
    cases found with
    | none => exact session.has_namedCallTarget name _ namespaces
    | some var =>
      rintro receiver isReceiver
      cases isReceiver
      exact fun method current => MethodDraft.has_of_get? (known var rfl method current)
  · exact session.has_namedCallTarget name _ namespaces

theorem has_resolveCallSite (segments namespaces : List String) :
    Gives (session.resolveCallSite segments namespaces) session.HasSite := by
  rw [resolveCallSite]
  split
  · simp [HasSite, CallSite.receiver?]
  · split
    · rw [gives_bind]
      exact session.has_localCallTarget _
    · rw [gives_bind]
      exact session.has_ownedCallTarget _ _ namespaces

theorem yields_resolveCallee (site : CallSite) (args : List (Option TypeId)) :
    Yields (session.resolveCallee site args) fun _ => True := by
  have picks (found : Option MemberRef) : Yields (match found with
      | some ref => return ref
      | none => throw (.problem (.noOverload site.name args.length)) : Except Failure MemberRef)
        fun _ => True := by
    cases found <;> trivial
  unfold resolveCallee
  split
  · exact yields_fault_ok fun found _ => picks found
  · refine yields_fault_ok fun found _ => ?_
    cases found with
    | none => exact picks none
    | some ref =>
      dsimp only
      refine yields_fault_ok fun method _ => ?_
      split
      · exact yields_fault_ok fun _ _ => rfl
      · exact picks (some ref)
  · exact yields_fault_ok fun found _ => picks found
  · rfl

end Session

/-! ## Operators -/

namespace SymbolTable

variable (table : SymbolTable)

theorem plain_call {op : Operator} {ref : MemberRef} {result : Option TypeId} :
    OperatorPlan.Plain ⟨op, .call ref, result⟩ :=
  List.forall_mem_singleton.mpr rfl

theorem plain_nativePlan {op : Operator} {opcodes : List OpCode}
    (native : op.native? = some opcodes) (lhs : Option TypeId) :
    (table.nativePlan lhs op opcodes).Plain := by
  intro instruction here
  obtain ⟨opcode, inOpcodes, rfl⟩ := List.mem_map.mp here
  exact Operator.plain_native native opcode inOpcodes

theorem plain_methodPlan (lhs : TypeId) (op : Operator) :
    Yields (table.methodPlan lhs op) OperatorPlan.Plain := by
  rw [methodPlan]
  split
  · rfl
  · refine yields_fault_ok fun found _ => ?_
    cases found with
    | none =>
      dsimp only
      exact yields_fault_ok fun _ _ => rfl
    | some ref =>
      dsimp only
      exact yields_fault_ok fun _ _ => plain_call

theorem plain_typedPlan (lhs : TypeId) {op : Operator} {opcodes : List OpCode}
    (native : op.native? = some opcodes) : Yields (table.typedPlan lhs op opcodes)
      OperatorPlan.Plain := by
  have plain := table.plain_nativePlan native (some lhs)
  have refuses (problem : String → Problem) (other : ∀ name,
      (problem name).isUndefinedLabel = false) : Yields
        (do throw (.problem (problem (← table.typeName lhs))) : Except Failure OperatorPlan)
            OperatorPlan.Plain := by
    exact yields_fault_ok fun name _ => other name
  rw [typedPlan]
  refine yields_fault_ok fun category _ => ?_
  dsimp only
  split
  · split
    · exact plain
    · exact refuses .modOfNonNumber fun _ => rfl
  · split
    · exact plain
    · exact refuses (.logicOfNonBoolean _) fun _ => rfl
  · split
    · exact plain
    · exact refuses (.logicOfNonBoolean _) fun _ => rfl
  · exact plain
  · split
    · exact plain
    · split
      · refine yields_fault_ok fun found _ => ?_
        cases found with
        | none => rfl
        | some concat => exact plain_call
      · split
        · exact plain
        · exact table.plain_methodPlan lhs _

theorem plain_planOperator (lhs : Option TypeId) (op : Operator) :
    Yields (table.planOperator lhs op) OperatorPlan.Plain := by
  unfold planOperator
  split
  · exact List.forall_mem_nil _
  · exact List.forall_mem_nil _
  · dsimp only
    refine yields_fault_ok fun found _ => ?_
    cases found with
    | none => rfl
    | some pow => exact plain_call
  · split
    · rfl
    · rename_i opcodes native
      cases lhs with
      | none => exact table.plain_nativePlan native none
      | some type => exact table.plain_typedPlan type native

end SymbolTable

end OnePass
