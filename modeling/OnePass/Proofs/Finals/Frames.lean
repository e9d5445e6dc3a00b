import OnePass.Proofs.Finals.Ledger

/-! # Brackets and the code between them

The open brackets of an expression remember positions in the code of the current method: where the
arguments of a call begin, and where the elements of an array literal begin and end. `Stacked` says
that these positions lie in the order of the brackets. Then the code of the elements can be wrapped,
and the code of a call that fails be cut off, without repeating a store.

Emission makes a method grow (`MethodDraft.Grows`): the code gets longer and the locals stay what
they are. -/

namespace OnePass

/-! ## Growing methods -/

namespace MethodDraft

variable {method later last : MethodDraft} {extra more : List Stored}

theorem limits_iff_of_finality (same : later.locals.map (·.isFinal) = method.locals.map (·.isFinal))
    (index : UInt16) : later.Limits index ↔ method.Limits index := by
  have limits (draft : MethodDraft) : draft.Limits index ↔
      ∀ isFinal, (draft.locals.map (·.isFinal))[index.toNat]? = some isFinal → isFinal = true := by
    simp only [Limits, List.getElem?_map, Option.map_eq_some_iff]
    constructor
    · rintro all _ ⟨found, here, rfl⟩
      exact all found here
    · exact fun all found here => all _ ⟨found, here, rfl⟩
  rw [limits, limits, same]

theorem hasFinal_iff_of_finality (same : later.locals.map (·.isFinal) = method.locals.map (·.isFinal))
    (index : UInt16) : later.HasFinal index ↔ method.HasFinal index := by
  have hasFinal (draft : MethodDraft) : draft.HasFinal index ↔
      (draft.locals.map (·.isFinal))[index.toNat]? = some true := by
    simp [HasFinal]
  rw [hasFinal, hasFinal, same]

/-- The method gets more code, with some stores in it. Which locals are final does not change. -/
structure Grows (extra : List Stored) (method later : MethodDraft) :
    Prop extends method.Evolves extra later where
  longer : method.position ≤ later.position
  finality : later.locals.map (·.isFinal) = method.locals.map (·.isFinal)

theorem Grows.trans (first : method.Grows extra later) (second : later.Grows more last) :
    method.Grows (more ++ extra) last where
  slot := second.slot.trans first.slot
  stores := by
    refine second.stores.trans ?_
    rw [List.append_assoc, List.subperm_append_left]
    exact first.stores
  spent index limits := by
    obtain ⟨limitsLater, toLast⟩ := second.spent index limits
    obtain ⟨limitsFirst, toLater⟩ := first.spent index limitsLater
    rw [List.count_append]
    exact ⟨limitsFirst, by omega⟩
  final index final := second.final index (first.final index final)
  longer := first.longer.trans second.longer
  finality := second.finality.trans first.finality

theorem grows_append (method : MethodDraft) {code : List Instruction} (none : storesIn code = []) :
    method.Grows [] (method.append code) where
  toEvolves := .of_locals_eq rfl rfl (by rw [append, storesIn_append, none, List.append_nil])
  longer := by simp [position, append]
  finality := rfl

theorem grows_emit (method : MethodDraft) {opcode : OpCode} {operand : Operand}
    (none : Instruction.stored? ⟨opcode, operand⟩ = none) :
    method.Grows [] (method.emit opcode operand) :=
  method.grows_append (by simp [storesIn, none])

theorem Grows.refl (method : MethodDraft) : method.Grows [] method :=
  ⟨.of_locals_eq rfl rfl (.refl _), le_refl _, rfl⟩

theorem storesIn_cut_append_tail (method : MethodDraft) (start : Nat) :
    storesIn (method.cut start).code ++ storesIn (method.tail start) = storesIn method.code := by
  rw [← storesIn_append, cut, tail, List.take_append_drop]

theorem Grows.insert {start : Nat} (grows : (method.cut start).Grows extra later) :
    method.Grows extra (later.append (method.tail start)) where
  slot := grows.slot
  stores := by
    rw [append, storesIn_append, ← method.storesIn_cut_append_tail start, ← List.append_assoc,
      List.subperm_append_right]
    exact grows.stores
  spent := grows.spent
  final := grows.final
  longer := by
    have longer := grows.longer
    simp only [position, append, cut, tail, List.length_append, List.length_take,
      List.length_drop] at longer ⊢
    omega
  finality := grows.finality

/-! ### Loads -/

theorem grows_loadConstant (method : MethodDraft) (table : SymbolTable) (value : Literal) :
    method.Grows [] (method.loadConstant table value).2 := by
  refine method.grows_append ?_
  cases value with
  | bool value => cases value <;> rfl
  | _ => rfl

theorem grows_loadVar (method : MethodDraft) (var : LocalVar) :
    method.Grows [] (method.loadVar var) := by
  unfold loadVar
  split <;> exact method.grows_emit rfl

theorem grows_loadField (method : MethodDraft) (table : SymbolTable) (ref : MemberRef) :
    Gives (method.loadField table ref) fun (_, later) => method.Grows [] later := by
  rw [loadField]
  refine gives_bind_ok fun field _ => method.grows_emit ?_
  split <;> rfl

theorem grows_loadReceiver (method : MethodDraft) (table : SymbolTable) (receiver : Receiver) :
    Gives (method.loadReceiver table receiver) fun (_, later) => method.Grows [] later := by
  cases receiver with
  | var var => exact method.grows_loadVar var
  | field ref => exact method.grows_loadField table ref
  | this => exact method.grows_emit rfl

theorem grows_loadReference (method : MethodDraft) (table : SymbolTable) (reference : Reference) :
    Gives (method.loadReference table reference) fun (_, later) => method.Grows [] later := by
  unfold loadReference
  split
  · exact method.grows_loadVar _
  · rw [gives_lift_fault]
    exact method.grows_loadField table _
  · rw [gives_fault_bind]
    refine (method.grows_loadReceiver table _).imp fun (_, loaded) first => ?_
    rw [gives_lift_fault]
    exact (loaded.grows_loadField table _).imp fun _ second => first.trans second
  · exact method.grows_loadConstant table _
  · exact gives_error

/-! ### Calls and operators -/

theorem grows_call (method : MethodDraft) (table : SymbolTable) (ref : MemberRef) (discard : Bool) :
    Gives (method.call table ref discard) fun (_, later) => method.Grows [] later := by
  rw [call]
  refine gives_bind_ok fun callee _ => ?_
  have called : method.Grows [] (method.emit (if callee.isVirtual then .callvirt else .call)
      (.method ref)) := by
    refine method.grows_emit ?_
    split <;> rfl
  refine gives_bind_ok fun isVoid _ => ?_
  split
  · exact called
  · split
    · exact called.trans (grows_emit _ rfl)
    · exact called

theorem grows_constructFrom (method : MethodDraft) (table : SymbolTable) (type : TypeId)
    (args : List (Option TypeId)) :
    Gives (method.constructFrom table type args) fun (_, later) => method.Grows [] later := by
  rw [constructFrom]
  refine gives_fault_ok fun found _ => ?_
  cases found with
  | none => exact gives_throw
  | some ref => exact method.grows_emit rfl

theorem grows_apply (method : MethodDraft) (plan : OperatorPlan) :
    method.Grows [] (method.apply plan) := by
  refine method.grows_append ?_
  -- Machine operations have no operands, so they are no stores.
  have plain (opcode : OpCode) : Instruction.stored? ⟨opcode, .none⟩ =
    none := by cases opcode <;> rfl
  cases plan.lowering with
  | native opcodes => simp [storesIn, Lowering.code, plain]
  | call ref => rfl
  | nothing => rfl

theorem grows_negate (method : MethodDraft) : method.Grows [] method.negate :=
  (method.grows_emit rfl).trans (grows_emit _ rfl)

theorem grows_step (method : MethodDraft) (op : Operator) : method.Grows [] (method.step op) := by
  refine (method.grows_emit rfl).trans (grows_emit _ ?_)
  split <;> rfl

theorem grows_label (method : MethodDraft) (name : String) :
    Gives (method.label name) fun later => method.Grows [] later := by
  rw [label]
  split
  · exact gives_error
  · exact ⟨.of_locals_eq rfl rfl (.refl _), le_refl _, rfl⟩

theorem grows_branch (method : MethodDraft) (name : String) :
    method.Grows [] (method.branch name) := by
  have waits : method.Grows [] { method with fixups := method.fixups ++ [⟨method.position, name⟩] } :=
    ⟨.of_locals_eq rfl rfl (.refl _), le_refl _, rfl⟩
  exact waits.trans (grows_emit _ rfl)

end MethodDraft

namespace Compile

theorem grows_applyPending (neg not : Bool) (plan : Option OperatorPlan) (type : Option TypeId)
    (table : SymbolTable) (method : MethodDraft) :
    method.Grows [] (applyPending neg not plan type table method).2 := by
  have negated : method.Grows [] (if neg then method.emit .neg else method) := by
    cases neg with
    | true => exact method.grows_emit rfl
    | false => exact .refl method
  have inverted (draft : MethodDraft) : draft.Grows []
      (if not then (some table.wellKnown.boolean, draft.negate) else (type, draft)).2 := by
    cases not with
    | true => exact draft.grows_negate
    | false => exact .refl draft
  cases plan with
  | none => exact negated.trans (inverted _)
  | some plan => exact (negated.trans (inverted _)).trans (MethodDraft.grows_apply _ plan)

theorem grows_loadTarget (target : AssignTarget) (table : SymbolTable) (method : MethodDraft) :
    Gives (loadTarget target table method) fun (_, later) => method.Grows [] later := by
  cases target with
  | var var => exact method.grows_loadVar var
  | field ref =>
    rw [loadTarget]
    refine gives_bind_ok fun field _ => ?_
    rw [gives_lift_fault]
    split
    · exact method.grows_loadField table ref
    · exact ((method.emit .dup).grows_loadField table ref).imp fun _ loaded =>
        (method.grows_emit rfl).trans loaded

theorem grows_callCode (receiver : Option Receiver) (start : Option Nat) (ref : MemberRef)
    (discard : Bool) (table : SymbolTable) (method : MethodDraft) :
    Gives (callCode receiver start ref discard table method) fun (_, later) =>
      method.Grows [] later := by
  unfold callCode
  cases receiver with
  | none =>
    dsimp only
    rw [gives_bind, gives_pure, gives_lift_fault]
    exact method.grows_call table ref discard
  | some receiver =>
    dsimp only
    rw [gives_fault_bind]
    refine ((method.cut (start.getD 0)).grows_loadReceiver table receiver).imp
      fun (_, loaded) first => ?_
    dsimp only
    rw [gives_bind, gives_pure, gives_lift_fault]
    exact ((loaded.append _).grows_call table ref discard).imp fun _ called =>
      first.insert.trans called

end Compile

/-! ## Array literals -/

namespace MethodDraft

/-- The elements lie one after the other, between two positions. -/
def Ordered : (start : Nat) → List Element → (stop : Nat) → Prop
  | start, [], stop => start ≤ stop
  | start, element :: rest, stop =>
    start ≤ element.start ∧ element.start ≤ element.stop ∧ Ordered element.stop rest stop

variable {start stop : Nat} {elements : List Element}

theorem Ordered.le (ordered : Ordered start elements stop) : start ≤ stop := by
  induction elements generalizing start with
  | nil => exact ordered
  | cons element rest ih =>
    obtain ⟨first, inside, others⟩ := ordered
    exact (first.trans inside).trans (ih others)

theorem Ordered.mono (ordered : Ordered start elements stop) {further : Nat} (le : stop ≤ further) :
    Ordered start elements further := by
  induction elements generalizing start with
  | nil => exact Nat.le_trans ordered le
  | cons element rest ih =>
    obtain ⟨first, inside, others⟩ := ordered
    exact ⟨first, inside, ih others⟩

theorem Ordered.concat (ordered : Ordered start elements stop) {further : Nat} (le : stop ≤ further)
    (type : Option TypeId) : Ordered start (elements ++ [⟨stop, further, type⟩]) further := by
  induction elements generalizing start with
  | nil => exact ⟨ordered, le, le_refl _⟩
  | cons element rest ih =>
    obtain ⟨first, inside, others⟩ := ordered
    exact ⟨first, inside, ih others⟩

/-- What follows the start of an element is its own code and what follows its end. -/
theorem elementCode_append_drop {element : Element} (inside : element.start ≤ element.stop)
    (origin : Nat) (tail : List Instruction) :
    elementCode origin tail element ++ tail.drop (element.stop - origin) =
      tail.drop (element.start - origin) := by
  have further : element.stop - origin = element.start - origin + (element.stop - origin -
      (element.start - origin)) := by omega
  rw [elementCode, List.drop_take, further, ← List.drop_drop, ← further, List.take_append_drop]

/-- The code of elements that lie in order is part of the code, each instruction once. -/
theorem Ordered.sublist_drop {origin : Nat} (ordered : Ordered start elements stop)
    (le : origin ≤ start) (tail : List Instruction) :
    (elements.flatMap (elementCode origin tail)).Sublist (tail.drop (start - origin)) := by
  induction elements generalizing start with
  | nil => exact List.nil_sublist _
  | cons element rest ih =>
    obtain ⟨first, inside, others⟩ := ordered
    rw [List.flatMap_cons]
    calc (elementCode origin tail element ++ rest.flatMap (elementCode origin tail)).Sublist
          (elementCode origin tail element ++ tail.drop (element.stop - origin)) :=
          (ih others (by omega)).append_left _
      _ = tail.drop (element.start - origin) := elementCode_append_drop inside origin tail
      List.Sublist _ (tail.drop (start - origin)) := List.drop_sublist_drop_left _ (by omega)

/-- The instructions around an element store to the array, which is no place of the ledger. -/
theorem storesIn_storeElements (type : TypeId) (origin : Nat) (tail : List Instruction)
    (elements : List Element) : storesIn (elements.zipIdx.flatMap fun (element, index) =>
      storeElement type index (elementCode origin tail element)) =
        storesIn (elements.flatMap (elementCode origin tail)) := by
  have wrapped (index : Nat) (code : List Instruction) : storesIn (storeElement type index code) =
      storesIn code := by
    simp [storeElement, storesIn, Instruction.stored?]
  have places : elements = elements.zipIdx.map (·.1) := by simp
  conv_rhs => rw [places, List.flatMap_map]
  simp only [storesIn, List.filterMap_flatMap] at wrapped ⊢
  simp only [wrapped]

theorem storesIn_lowerSequence (method : MethodDraft) (table : SymbolTable)
    (ordered : Ordered start elements stop) :
    (storesIn (method.lowerSequence table start elements).2.code).Sublist
    (storesIn method.code) := by
  have part := ordered.sublist_drop (le_refl start) (method.tail start)
  rw [Nat.sub_self, List.drop_zero] at part
  simp only [lowerSequence, append, storesIn_append,
    storesIn_storeElements, ← method.storesIn_cut_append_tail start]
  exact (storesIn_sublist part).append_left _

theorem start_le_lowerSequence (method : MethodDraft) (table : SymbolTable)
    (elements : List Element) (le : start ≤ method.position) :
    start ≤ (method.lowerSequence table start elements).2.position := by
  simp only [lowerSequence, position, append, cut, List.length_append, List.length_take] at le ⊢
  omega

end MethodDraft

/-! ## Open brackets -/

/-- What a bracket remembers lies below a position, the elements of an array literal in order. -/
def FrameKind.Below (position : Nat) : FrameKind → Prop
  | .sequence (some start) elementStart elements =>
    MethodDraft.Ordered start elements elementStart ∧ elementStart ≤ position
  | kind => ∀ start ∈ kind.start?, start ≤ position

/-- The positions that open brackets remember lie in the order of the brackets, below the end of the
code. The innermost bracket comes first. -/
def Stacked : (position : Nat) → List FrameKind → Prop
  | _, [] => True
  | position, kind :: rest => kind.Below position ∧ Stacked (kind.start?.getD position) rest

theorem FrameKind.Below.start_le {kind : FrameKind} {position : Nat} (below : kind.Below position)
    {start : Nat} (starts : kind.start? = some start) : start ≤ position := by
  cases kind with
  | base | group => cases starts
  | call | construct => exact below start starts
  | sequence place elementStart elements =>
    cases place with
    | none => cases starts
    | some place =>
      cases starts
      exact below.1.le.trans below.2

theorem FrameKind.Below.mono {kind : FrameKind} {position further : Nat}
    (below : kind.Below position) (le : position ≤ further) : kind.Below further := by
  cases kind with
  | base | group | call | construct => exact fun start starts => (below start starts).trans le
  | sequence place elementStart elements =>
    cases place with
    | none => exact fun start starts => (below start starts).trans le
    | some place => exact ⟨below.1, below.2.trans le⟩

namespace Stacked

variable {position further : Nat} {kind : FrameKind} {kinds : List FrameKind}

theorem mono (stacked : Stacked position kinds) (le : position ≤ further) :
    Stacked further kinds := by
  induction kinds generalizing position further with
  | nil => trivial
  | cons kind rest ih =>
    refine ⟨stacked.1.mono le, ?_⟩
    have below := stacked.2
    cases starts : kind.start? with
    | some start => rwa [starts] at below
    | none =>
      rw [starts] at below
      exact ih below le

theorem tail (stacked : Stacked position (kind :: kinds)) : Stacked position kinds := by
  have below := stacked.2
  cases starts : kind.start? with
  | some start =>
    rw [starts] at below
    exact below.mono (stacked.1.start_le starts)
  | none => rwa [starts] at below

theorem push (stacked : Stacked position kinds) (below : kind.Below position)
    (starts : ∀ start ∈ kind.start?, start = position) : Stacked position (kind :: kinds) := by
  refine ⟨below, ?_⟩
  cases place : kind.start? with
  | some start => rwa [Option.getD_some, starts start place]
  | none => exact stacked

end Stacked

end OnePass
