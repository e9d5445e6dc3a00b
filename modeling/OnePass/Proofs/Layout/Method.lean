import Mathlib.Data.Nat.Basic
import Mathlib.Order.Basic
import OnePass.Proofs.Outline.Action

/-! # Code that stands

Positions in the code of a method are remembered for later: where a label stands, and where a branch
waits for its target. They mean what they meant only if the code before them is never touched again.
`MethodDraft.Edits` says of two drafts of a method that their first instructions are the same, as
many as a `Guard` asks for. After them, code may be appended, cut off, moved and wrapped, but what
is new there is no branch. -/

namespace OnePass

open List

/-- What actions on the current method are held to. -/
structure Guard where
  /-- the number of instructions that stand -/
  keep : Nat
  /-- the outer ones of the open brackets, which may begin before them and stay as they are -/
  outer : List FrameKind := []
  /-- whether what is new loads and stores only variables that the method has
  (`Instruction.InRange`) -/
  checked : Prop := False
  /-- whether the outline stays as it is -/
  alike : Prop := False

/-- The outline may change. -/
class Guard.Loose (g : Guard) : Prop where
  elim : ¬ g.alike

instance (keep : Nat) (outer : List FrameKind) (checked : Prop) :
    Guard.Loose { keep, outer, checked } := ⟨id⟩

theorem Guard.loose {g : Guard} [g.Loose] {p : Prop} (isAlike : g.alike) : p :=
  absurd isAlike Loose.elim

/-! ## Instructions -/

/-- Whether an operation loads or stores a local or an argument. -/
def OpCode.isVariable : OpCode → Bool
  | ldloc | stloc | ldarg | starg => true
  | _ => false

/-- Where an instruction branches to. -/
def Instruction.target? (instruction : Instruction) : Option UInt32 :=
  match instruction.operand with
  | .target position => some position
  | _ => none

/-- An instruction that loads or stores a variable names one of so many locals or arguments. -/
structure Instruction.InRange (locals arguments : Nat) (instruction : Instruction) : Prop where
  loc : instruction.opcode = .ldloc ∨ instruction.opcode = .stloc →
    ∃ index, instruction.operand = .loc index ∧ index.toNat < locals
  arg : instruction.opcode = .ldarg ∨ instruction.opcode = .starg →
    ∃ index, instruction.operand = .arg index ∧ index.toNat < arguments

theorem Instruction.InRange.mono {locals arguments moreLocals moreArguments : Nat}
    {instruction : Instruction} (inRange : instruction.InRange locals arguments)
    (locals_le : locals ≤ moreLocals) (arguments_le : arguments ≤ moreArguments) :
    instruction.InRange moreLocals moreArguments where
  loc isLocal := by
    obtain ⟨index, operand, lt⟩ := inRange.loc isLocal
    exact ⟨index, operand, lt.trans_le locals_le⟩
  arg isArgument := by
    obtain ⟨index, operand, lt⟩ := inRange.arg isArgument
    exact ⟨index, operand, lt.trans_le arguments_le⟩

theorem Instruction.inRange_of_not_variable {instruction : Instruction}
    (other : instruction.opcode.isVariable = false) (locals arguments : Nat) :
    instruction.InRange locals arguments where
  loc := by rintro (isLoad | isStore) <;> simp_all [OpCode.isVariable]
  arg := by rintro (isLoad | isStore) <;> simp_all [OpCode.isVariable]

/-- Whether an instruction neither branches nor works on a variable. -/
def Instruction.isPlain (instruction : Instruction) : Bool :=
  instruction.target?.isNone && !instruction.opcode.isVariable

/-- A plan that works on the stack alone, as all plans do that are made for an operator. -/
def OperatorPlan.Plain (plan : OperatorPlan) : Prop := ∀ instruction ∈ plan.lowering.code,
      instruction.isPlain = true

theorem Operator.plain_native {op : Operator} {opcodes : List OpCode}
    (native : op.native? = some opcodes) : ∀ opcode ∈ opcodes,
      (Instruction.mk opcode .none).isPlain = true := by
  cases op <;> cases native <;> decide

/-! ## Methods -/

namespace MethodDraft

variable {g : Guard} {method later last : MethodDraft}
variable {start : Nat} {instruction : Instruction} {opcode : OpCode} {code : List Instruction}

/-- The number of arguments: an instance method takes its receiver before its parameters. -/
def arity (method : MethodDraft) : Nat := method.params.length + if method.isStatic then 0 else 1

/-- The method has a variable with the number. -/
def Has (method : MethodDraft) : VarSlot → Prop
  | .mutable index | .final index => index.toNat < method.locals.length
  | .param index => index.toNat < method.arity

/-- What the receiver is loaded from is there. -/
def HasReceiver (method : MethodDraft) : Receiver → Prop
  | .var var => method.Has var.slot
  | .field _ => True
  | .this => 0 < method.arity

/-- The variables that a reference needs are there. -/
def HasReference (method : MethodDraft) : Reference → Prop
  | .var var => method.Has var.slot
  | .field (some receiver) _ => method.HasReceiver receiver
  | .field none _ | .constant _ | .missing _ => True

/-- The variable of a target is there. -/
def HasTarget (method : MethodDraft) : AssignTarget → Prop
  | .var var => method.Has var.slot
  | .field _ => True

variable {receiver : Receiver}

section Mono

variable (locals : method.locals.length ≤ later.locals.length) (arity : method.arity ≤ later.arity)

include locals arity

theorem Has.mono {slot : VarSlot} (has : method.Has slot) : later.Has slot := by
  cases slot with
  | mutable index | final index => exact Nat.lt_of_lt_of_le has locals
  | param index => exact Nat.lt_of_lt_of_le has arity

theorem HasReceiver.mono (has : method.HasReceiver receiver) : later.HasReceiver receiver := by
  cases receiver with
  | var var => exact Has.mono locals arity has
  | field ref => trivial
  | this => exact Nat.lt_of_lt_of_le has arity

theorem HasTarget.mono {target : AssignTarget} (has : method.HasTarget target) :
    later.HasTarget target := by
  cases target with
  | var var => exact Has.mono locals arity has
  | field ref => trivial

end Mono

/-- What an instruction needs that is put into a method: it is no branch, and the variable that it
works on is there. -/
structure Admits (g : Guard) (method : MethodDraft) (instruction : Instruction) : Prop where
  target : instruction.target? = none
  inRange : g.checked → instruction.InRange method.locals.length method.arity

theorem admits_of_isPlain (method : MethodDraft) (plain : instruction.isPlain = true) :
    method.Admits g instruction := by
  simp only [Instruction.isPlain, Bool.and_eq_true, Option.isNone_iff_eq_none,
    Bool.not_eq_true'] at plain
  exact ⟨plain.1, fun _ => Instruction.inRange_of_not_variable plain.2 _ _⟩

/-- A method is changed after its first instructions, which stand. Variables may be declared. -/
structure Edits (g : Guard) (method later : MethodDraft) : Prop where
  outline : g.alike → later.outline = method.outline
  slot : later.slot = method.slot
  isStatic : later.isStatic = method.isStatic
  params : method.params.length ≤ later.params.length
  locals : method.locals.length ≤ later.locals.length
  labels : later.labels = method.labels
  fixups : later.fixups = method.fixups
  le : g.keep ≤ later.position
  stands : later.code.take g.keep = method.code.take g.keep
  fresh : ∀ instruction ∈ later.code.drop g.keep,
    instruction ∈ method.code.drop g.keep ∨ later.Admits g instruction

namespace Edits

theorem arity (edits : method.Edits g later) : method.arity ≤ later.arity := by
  have params := edits.params
  rw [MethodDraft.arity, MethodDraft.arity, edits.isStatic]
  omega

theorem admits (edits : method.Edits g later)
    (admits : method.Admits g instruction) : later.Admits g instruction :=
  ⟨admits.target, fun isChecked => (admits.inRange isChecked).mono edits.locals edits.arity⟩

theorem has (edits : method.Edits g later) {slot : VarSlot} (has : method.Has slot) :
    later.Has slot :=
  has.mono edits.locals edits.arity

theorem hasReceiver (edits : method.Edits g later)
    (has : method.HasReceiver receiver) : later.HasReceiver receiver :=
  has.mono edits.locals edits.arity

theorem refl (le : g.keep ≤ method.position) : method.Edits g method where
  outline _ := rfl
  slot := rfl
  isStatic := rfl
  params := le_rfl
  locals := le_rfl
  labels := rfl
  fixups := rfl
  le := le
  stands := rfl
  fresh _ here := .inl here

theorem trans (first : method.Edits g later) (second : later.Edits g last) :
    method.Edits g last where
  outline isAlike := (second.outline isAlike).trans (first.outline isAlike)
  slot := second.slot.trans first.slot
  isStatic := second.isStatic.trans first.isStatic
  params := first.params.trans second.params
  locals := first.locals.trans second.locals
  labels := second.labels.trans first.labels
  fixups := second.fixups.trans first.fixups
  le := second.le
  stands := second.stands.trans first.stands
  fresh instruction here := by
    rcases second.fresh instruction here with inLater | admits
    · exact (first.fresh instruction inLater).imp_right second.admits
    · exact .inr admits

end Edits

theorem edits_of_code (le : g.keep ≤ code.length)
    (stands : code.take g.keep = method.code.take g.keep)
    (fresh : ∀ instruction ∈ code.drop g.keep, instruction ∈ method.code.drop g.keep ∨
      method.Admits g instruction) :
    method.Edits g { method with code := code } where
  outline _ := rfl
  slot := rfl
  isStatic := rfl
  params := le_rfl
  locals := le_rfl
  labels := rfl
  fixups := rfl
  le := le
  stands := stands
  fresh instruction here := (fresh instruction here).imp_right fun admits =>
    ⟨admits.target, admits.inRange⟩

/-! ### Changes of the code -/

theorem edits_append (le : g.keep ≤ method.position)
    (admits : ∀ instruction ∈ code, method.Admits g instruction) :
    method.Edits g (method.append code) := by
  rw [position] at le
  refine edits_of_code (by simp only [length_append]; omega) (take_append_of_le_length le) ?_
  intro instruction here
  rw [drop_append_of_le_length le, mem_append] at here
  exact here.imp_right (admits instruction)

theorem edits_emit (le : g.keep ≤ method.position) {operand : Operand}
    (admits : method.Admits g ⟨opcode, operand⟩) : method.Edits g (method.emit opcode operand) :=
  edits_append le (forall_mem_singleton.mpr admits)

theorem edits_emit_plain (le : g.keep ≤ method.position) {operand : Operand}
    (plain : Instruction.isPlain ⟨opcode, operand⟩ = true) :
    method.Edits g (method.emit opcode operand) :=
  edits_emit le (method.admits_of_isPlain plain)

theorem edits_append_plain (le : g.keep ≤ method.position)
    (plain : ∀ instruction ∈ code, instruction.isPlain = true) :
    method.Edits g (method.append code) :=
  edits_append le fun instruction here => method.admits_of_isPlain (plain instruction here)

theorem edits_cut (le : g.keep ≤ method.position) (start_le : g.keep ≤ start) :
    method.Edits g (method.cut start) := by
  rw [position] at le
  refine edits_of_code (by simp only [length_take]; omega) ?_ fun instruction here => .inl ?_
  · rw [take_take, Nat.min_eq_left start_le]
  · rw [drop_take] at here
    exact mem_of_mem_take here

theorem edits_dropLast (le : g.keep ≤ method.position - 1) : method.Edits g method.dropLast := by
  rw [position] at le
  refine edits_of_code (by simp only [length_dropLast]; omega) ?_ fun instruction here => .inl ?_
  · rw [dropLast_eq_take, take_take, Nat.min_eq_left (by omega)]
  · rw [dropLast_eq_take, drop_take] at here
    exact mem_of_mem_take here

theorem mem_drop_of_mem_tail (start_le : g.keep ≤ start)
    (here : instruction ∈ method.tail start) : instruction ∈ method.code.drop g.keep := by
  have moved : method.tail start = (method.code.drop g.keep).drop (start - g.keep) := by
    rw [tail, drop_drop, Nat.add_sub_cancel' start_le]
  exact mem_of_mem_drop (moved ▸ here)

/-- Code is put in at a position, before some of the code that is there. -/
theorem Edits.insert (edits : (method.cut start).Edits g later) (start_le : g.keep ≤ start) :
    method.Edits g (later.append (method.tail start)) where
  outline := edits.outline
  slot := edits.slot
  isStatic := edits.isStatic
  params := edits.params
  locals := edits.locals
  labels := edits.labels
  fixups := edits.fixups
  le := edits.le.trans (by simp [position, append])
  stands := by
    have le : g.keep ≤ later.code.length := edits.le
    rw [append, take_append_of_le_length le, edits.stands, cut, take_take, Nat.min_eq_left start_le]
  fresh instruction here := by
    have le : g.keep ≤ later.code.length := edits.le
    rw [append, drop_append_of_le_length le, mem_append] at here
    rcases here with inLater | inTail
    · refine (edits.fresh instruction inLater).imp (fun inCut => ?_) fun admits =>
        ⟨admits.target, admits.inRange⟩
      rw [cut, drop_take] at inCut
      exact mem_of_mem_take inCut
    · exact .inl (mem_drop_of_mem_tail start_le inTail)

theorem mem_storeElements {type : TypeId} {tail : List Instruction} {elements : List Element}
    (here : instruction ∈ elements.zipIdx.flatMap fun (element, index) =>
      storeElement type index (elementCode start tail element)) :
    instruction ∈ tail ∨ instruction.isPlain = true := by
  obtain ⟨⟨element, index⟩, -, inElement⟩ := mem_flatMap.mp here
  simp only [storeElement, mem_append, mem_cons, not_mem_nil, or_false] at inElement
  rcases inElement with ((rfl | rfl) | inCode) | rfl
  · exact .inr rfl
  · exact .inr rfl
  · exact .inl (mem_of_mem_take (mem_of_mem_drop inCode))
  · exact .inr rfl

theorem edits_lowerSequence (le : g.keep ≤ method.position) (start_le : g.keep ≤ start)
    (table : SymbolTable) (elements : List Element) :
    method.Edits g (method.lowerSequence table start elements).2 := by
  have cut : method.Edits g (method.cut start) := edits_cut le start_le
  have cut_le : g.keep ≤ (method.cut start).code.length := cut.le
  refine edits_of_code ?_ ?_ fun instruction here => ?_
  · rw [length_append]
    omega
  · rw [take_append_of_le_length cut_le]
    exact cut.stands
  · rw [drop_append_of_le_length cut_le, mem_append, mem_append] at here
    rcases here with inCut | inHeader | inStores
    · exact (cut.fresh instruction inCut).imp_right fun admits => ⟨admits.target, admits.inRange⟩
    · refine .inr (method.admits_of_isPlain ?_)
      simp only [mem_cons, not_mem_nil, or_false] at inHeader
      rcases inHeader with rfl | rfl <;> rfl
    · exact (mem_storeElements inStores).imp (mem_drop_of_mem_tail start_le) method.admits_of_isPlain

/-! ### Loads -/

theorem edits_loadConstant (le : g.keep ≤ method.position) (table : SymbolTable) (value : Literal) :
    method.Edits g (method.loadConstant table value).2 := by
  refine edits_append_plain le (forall_mem_singleton.mpr ?_)
  cases value with
  | bool value => cases value <;> rfl
  | _ => rfl

theorem admits_loc (isLocal : opcode = .ldloc ∨ opcode = .stloc) {index : UInt16}
    (has : g.checked → index.toNat < method.locals.length) :
    method.Admits g ⟨opcode, .loc index⟩ where
  target := rfl
  inRange isChecked :=
    { loc := fun _ => ⟨index, rfl, has isChecked⟩
      arg := by rcases isLocal with rfl | rfl <;> simp }

theorem admits_arg (isArgument : opcode = .ldarg ∨ opcode = .starg) {index : UInt16}
    (has : g.checked → index.toNat < method.arity) : method.Admits g ⟨opcode, .arg index⟩ where
  target := rfl
  inRange isChecked :=
    { loc := by rcases isArgument with rfl | rfl <;> simp
      arg := fun _ => ⟨index, rfl, has isChecked⟩ }

theorem edits_loadVar (le : g.keep ≤ method.position) {var : LocalVar}
    (has : g.checked → method.Has var.slot) : method.Edits g (method.loadVar var) := by
  unfold loadVar
  split
  · rename_i index slot
    rw [slot] at has
    exact edits_emit le (admits_loc (.inl rfl) has)
  · rename_i index slot
    rw [slot] at has
    exact edits_emit le (admits_loc (.inl rfl) has)
  · rename_i index slot
    rw [slot] at has
    exact edits_emit le (admits_arg (.inl rfl) has)

theorem edits_loadField (g : Guard) (le : g.keep ≤ method.position) (table : SymbolTable)
    (ref : MemberRef) : Gives (method.loadField table ref) fun (_, later) => method.Edits g later := by
  rw [loadField]
  refine gives_bind_ok fun field _ => edits_emit_plain le ?_
  split <;> rfl

theorem edits_storeField (g : Guard) (le : g.keep ≤ method.position) (table : SymbolTable)
    (ref : MemberRef) : Gives (method.storeField table ref) fun later => method.Edits g later := by
  rw [storeField]
  refine gives_bind_ok fun field _ => edits_emit_plain le ?_
  split <;> rfl

theorem edits_loadReceiver (le : g.keep ≤ method.position) (table : SymbolTable)
    (has : g.checked → method.HasReceiver receiver) :
    Gives (method.loadReceiver table receiver) fun (_, later) => method.Edits g later := by
  cases receiver with
  | var var => exact edits_loadVar le has
  | field ref => exact edits_loadField g le table ref
  | this => exact edits_emit le (admits_arg (.inl rfl) has)

theorem edits_loadReference (le : g.keep ≤ method.position) (table : SymbolTable)
    {reference : Reference} (has : g.checked → method.HasReference reference) :
    Yields (method.loadReference table reference) fun (_, later) => method.Edits g later := by
  unfold loadReference
  split
  · exact edits_loadVar le has
  · rw [yields_lift_fault]
    exact edits_loadField g le table _
  · rw [yields_fault_bind]
    refine (edits_loadReceiver le table has).imp fun (_, loaded) first => ?_
    rw [yields_lift_fault]
    exact (edits_loadField g first.le table _).imp fun _ second => first.trans second
  · exact edits_loadConstant le table _
  · rfl

/-! ### Stores, calls and operators -/

theorem edits_markAssigned (g : Guard) (le : g.keep ≤ method.position) (slot : VarSlot) :
    Yields (method.markAssigned slot) fun later => method.Edits g later := by
  cases slot with
  | mutable | param => exact Edits.refl le
  | final index =>
    rw [markAssigned]
    split
    · trivial
    · split
      · rfl
      · exact ⟨fun _ => rfl, rfl, rfl, le_rfl, by simp, rfl, rfl, le, rfl, fun _ here => .inl here⟩

theorem edits_storeVar (le : g.keep ≤ method.position) {var : LocalVar}
    (has : g.checked → method.Has var.slot) : Yields (method.storeVar var) fun later =>
      method.Edits g later := by
  rw [storeVar, yields_bind]
  refine (edits_markAssigned g le var.slot).imp fun marked first => ?_
  have stillHas (isChecked : g.checked) : marked.Has var.slot := first.has (has isChecked)
  split
  · rename_i index slot
    rw [slot] at stillHas
    exact first.trans (edits_emit first.le (admits_loc (.inr rfl) stillHas))
  · rename_i index slot
    rw [slot] at stillHas
    exact first.trans (edits_emit first.le (admits_loc (.inr rfl) stillHas))
  · rename_i index slot
    rw [slot] at stillHas
    exact first.trans (edits_emit first.le (admits_arg (.inr rfl) stillHas))

theorem edits_call (g : Guard) (le : g.keep ≤ method.position) (table : SymbolTable)
    (ref : MemberRef) (discard : Bool) :
    Gives (method.call table ref discard) fun (_, later) =>
      method.Edits g later ∧ g.keep < later.position := by
  rw [call]
  refine gives_bind_ok fun callee _ => ?_
  have called : method.Edits g (method.emit (if callee.isVirtual then .callvirt else .call)
      (.method ref)) := by
    refine edits_emit_plain le ?_
    split <;> rfl
  have longer : g.keep < (method.emit (if callee.isVirtual then .callvirt else .call)
      (.method ref)).position := by
    simp only [position, emit, append, length_append, length_singleton] at le ⊢
    omega
  refine gives_bind_ok fun isVoid _ => ?_
  split
  · exact ⟨called, longer⟩
  · split
    · refine ⟨called.trans (edits_emit_plain called.le rfl), longer.trans_le ?_⟩
      simp [position, emit, append]
    · exact ⟨called, longer⟩

theorem edits_constructFrom (g : Guard) (le : g.keep ≤ method.position) (table : SymbolTable)
    (type : TypeId) (args : List (Option TypeId)) :
    Yields (method.constructFrom table type args) fun (_, later) => method.Edits g later := by
  rw [constructFrom]
  refine yields_fault_ok fun found _ => ?_
  cases found with
  | none => rfl
  | some ref => exact edits_emit_plain le rfl

/-- Machine operations and method calls are no branches. -/
theorem edits_apply (le : g.keep ≤ method.position) {plan : OperatorPlan}
    (plain : g.checked → plan.Plain) : method.Edits g (method.apply plan) := by
  refine edits_append le fun instruction here => ⟨?_, fun isChecked => ?_⟩
  · cases lowering : plan.lowering with
    | native opcodes =>
      rw [lowering] at here
      obtain ⟨opcode, -, rfl⟩ := mem_map.mp here
      rfl
    | call ref =>
      rw [lowering] at here
      obtain rfl := mem_singleton.mp here
      rfl
    | nothing =>
      rw [lowering] at here
      cases here
  · exact (method.admits_of_isPlain (plain isChecked instruction here)).inRange isChecked

theorem edits_negate (le : g.keep ≤ method.position) : method.Edits g method.negate := by
  have loaded : method.Edits g (method.emit .ldcI4Zero) := edits_emit_plain le rfl
  exact loaded.trans (edits_emit_plain loaded.le rfl)

theorem edits_step (le : g.keep ≤ method.position) (op : Operator) :
    method.Edits g (method.step op) := by
  have loaded : method.Edits g (method.emit .ldcI4One) := edits_emit_plain le rfl
  refine loaded.trans (edits_emit_plain loaded.le ?_)
  split <;> rfl

end MethodDraft

/-! ## Work on the current method -/

namespace Compile

variable {g : Guard} {method : MethodDraft}

theorem edits_applyPending (le : g.keep ≤ method.position) (neg not : Bool)
    {plan : Option OperatorPlan} (plain : g.checked → ∀ held ∈ plan, held.Plain)
    (type : Option TypeId) (table : SymbolTable) :
    method.Edits g (applyPending neg not plan type table method).2 := by
  have negated : method.Edits g (if neg then method.emit .neg else method) := by
    cases neg with
    | true => exact MethodDraft.edits_emit_plain le rfl
    | false => exact .refl le
  have inverted {draft : MethodDraft} (le : g.keep ≤ draft.position) : draft.Edits g
      (if not then (some table.wellKnown.boolean, draft.negate) else (type, draft)).2 := by
    cases not with
    | true => exact MethodDraft.edits_negate le
    | false => exact .refl le
  have both := negated.trans (inverted negated.le)
  cases plan with
  | none => exact both
  | some plan =>
    exact both.trans (MethodDraft.edits_apply both.le fun isChecked => plain isChecked plan rfl)

theorem edits_loadTarget (le : g.keep ≤ method.position) {target : AssignTarget}
    (has : g.checked → method.HasTarget target) (table : SymbolTable) :
    Yields (loadTarget target table method) fun (_, later) => method.Edits g later := by
  cases target with
  | var var => exact MethodDraft.edits_loadVar le has
  | field ref =>
    rw [loadTarget]
    refine yields_fault_ok fun field _ => ?_
    rw [yields_lift_fault]
    split
    · exact MethodDraft.edits_loadField g le table ref
    · have doubled : method.Edits g (method.emit .dup) := MethodDraft.edits_emit_plain le rfl
      exact (MethodDraft.edits_loadField g doubled.le table ref).imp fun _ loaded => doubled.trans loaded

theorem edits_callCode (le : g.keep ≤ method.position) {receiver : Option Receiver}
    (has : g.checked → ∀ held ∈ receiver, method.HasReceiver held) {start : Option Nat}
    (start_le : g.keep ≤ start.getD 0)
    (ref : MemberRef) (discard : Bool) (table : SymbolTable) :
    Yields (callCode receiver start ref discard table method) fun (_, later) =>
      method.Edits g later ∧ g.keep < later.position := by
  unfold callCode
  cases receiver with
  | none =>
    dsimp only
    rw [yields_bind, yields_pure, yields_lift_fault]
    exact MethodDraft.edits_call g le table ref discard
  | some receiver =>
    have cut : method.Edits g (method.cut (start.getD 0)) := MethodDraft.edits_cut le start_le
    dsimp only
    rw [yields_fault_bind]
    refine (MethodDraft.edits_loadReceiver cut.le table
      fun isChecked => cut.hasReceiver (has isChecked receiver rfl)).imp fun (_, loaded) first => ?_
    have inserted := first.insert start_le
    dsimp only
    rw [yields_bind, yields_pure, yields_lift_fault]
    exact (MethodDraft.edits_call g inserted.le table ref discard).imp fun _ ⟨called, longer⟩ =>
      ⟨inserted.trans called, longer⟩

theorem edits_stepLoaded (op : Operator) (ref : MemberRef) (table : SymbolTable)
    {loaded : MethodDraft} (toLoaded : method.Edits g loaded) :
    Yields (do
      let (_, method) ← loaded.loadField table ref
      let method ← (method.step op).storeField table ref
      return ((), method) : Except Failure (Unit × MethodDraft)) fun (_, later) =>
        method.Edits g later := by
  rw [yields_fault_bind]
  refine (MethodDraft.edits_loadField g toLoaded.le table ref).imp fun (_, field) toField => ?_
  have stepped := toField.trans (MethodDraft.edits_step toField.le op)
  rw [yields_fault_bind]
  exact (MethodDraft.edits_storeField g stepped.le table ref).imp fun _ toLater =>
    toLoaded.trans (stepped.trans toLater)

theorem edits_stepField (le : g.keep ≤ method.position) (op : Operator) {receiver : Option Receiver}
    (has : g.checked → ∀ held ∈ receiver, method.HasReceiver held) (ref : MemberRef)
    (table : SymbolTable) : Yields (stepField op receiver ref table method) fun (_, later) =>
      method.Edits g later := by
  unfold stepField
  cases receiver with
  | none => exact edits_stepLoaded op ref table (.refl le)
  | some receiver =>
    dsimp only
    rw [yields_fault_bind]
    refine (MethodDraft.edits_loadReceiver le table fun isChecked => has isChecked receiver rfl).imp ?_
    rintro ⟨_, loaded⟩ toLoaded
    exact edits_stepLoaded op ref table (toLoaded.trans (MethodDraft.edits_emit_plain toLoaded.le rfl))

end Compile

end OnePass
