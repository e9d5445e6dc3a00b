import OnePass.Proofs.Expression.Brackets

/-! # Arguments and elements

The values between two brackets. A call collects the types of its arguments; an array literal
collects where the code of each element starts and stops, and wraps that code when it is closed.
Both are read in the same way, so that one relation, `Collects`, says what a frame has collected. -/

namespace OnePass

open Compile OnePass.Frame
open MethodDraft (Element append cut elementCode elementType)

/-! ## The code of an array -/

/-- Where the codes of values lie that follow each other from `start` on. -/
def spans : (start : Nat) → List Value → List Element
  | _, [] => []
  | start, value :: rest =>
    ⟨start, start + value.code.length, value.type⟩ :: spans (start + value.code.length) rest

/-- The number of instructions of some values. -/
def totalLength (values : List Value) : Nat := (values.flatMap (·.code)).length

theorem spans_append (start : Nat) (values : List Value) (value : Value) :
    spans start (values ++ [value]) =
      spans start values ++
        [⟨start + totalLength values, start + totalLength values + value.code.length, value.type⟩] := by
  induction values generalizing start with
  | nil => rfl
  | cons first values ih =>
    simp only [List.cons_append, spans, ih, totalLength, List.flatMap_cons, List.length_append,
      Nat.add_assoc]

theorem elementCode_span (start : Nat) (before code after : List Instruction)
    (type : Option TypeId) : elementCode start (before ++ (code ++ after))
      ⟨start + before.length, start + before.length + code.length, type⟩ = code := by
  have stop : start + before.length + code.length - start = before.length + code.length := by omega
  simp only [elementCode, stop, Nat.add_sub_cancel_left, List.take_length_add_append]
  simp

/-- The values of an array literal whose code starts at some position. -/
def elementValues (start : Nat) (tail : List Instruction) (elements : List Element) : List Value :=
  elements.map fun element => ⟨elementCode start tail element, element.type⟩

theorem elementValues_spans (start : Nat) (before : List Instruction) (values : List Value) :
    elementValues start (before ++ values.flatMap (·.code)) (spans (start + before.length) values) =
      values := by
  induction values generalizing before with
  | nil => rfl
  | cons value values ih =>
    -- The code of the first element belongs to what stands before the others.
    have rest := ih (before ++ value.code)
    simp only [List.length_append, ← Nat.add_assoc, List.append_assoc, elementValues] at rest
    simp only [spans, elementValues, List.map_cons, List.flatMap_cons, elementCode_span, rest]

theorem elementType_eq (table : SymbolTable) (elements : List Element) :
    elementType table elements = commonType table (elements.map (·.type)) := by
  obtain _ | ⟨⟨start, stop, _ | type⟩, rest⟩ := elements
  · rfl
  · rfl
  · simp [elementType, commonType, Function.comp_def]

/-- Wrapping the elements one after the other fills the places one after the other. -/
theorem storeElements_eq (type : TypeId) (start index : Nat) (tail : List Instruction)
    (elements : List Element) : (elements.zipIdx index).flatMap (fun (element, index) =>
        MethodDraft.storeElement type index (elementCode start tail element)) =
      fillCode type index (elementValues start tail elements) := by
  induction elements generalizing index with
  | nil => rfl
  | cons element rest ih =>
    rw [List.zipIdx_cons, List.flatMap_cons, ih]
    rfl

/-- An array literal becomes the code of an array of the values of its elements. -/
theorem lowerSequence_eq (draft : MethodDraft) (table : SymbolTable) (start : Nat)
    (elements : List Element) : draft.lowerSequence table start elements = (table.wellKnown.array,
      (draft.cut start).append (arrayCode table (elementValues start (draft.tail start) elements))) := by
  simp [MethodDraft.lowerSequence, arrayCode, elementType_eq, storeElements_eq, elementValues,
    Function.comp_def]

theorem OpenBody.lowerSequence_spans (body : OpenBody) (code : List Instruction)
    (values : List Value) : (body.methodWith (code ++ values.flatMap (·.code))).lowerSequence
      body.session.table code.length
        (spans code.length values) =
      (body.session.table.wellKnown.array,
        body.methodWith (code ++ arrayCode body.session.table values)) := by
  have same := elementValues_spans code.length [] values
  simp only [List.length_nil, Nat.add_zero, List.nil_append] at same
  simp [lowerSequence_eq, methodWith, MethodDraft.tail, cut, append, same]

/-! ## What a frame has collected -/

/-- The frame of a bracket, by the kind with which it was opened, has collected some values, and
their code ends at some position. No value is under way. -/
inductive Collects (values : List Value) (position : Nat) : FrameKind → Frame → Prop where
  | call (site : CallSite) (start : Option Nat) :
    Collects values position (.call site start)
      { kind := .call site start, args := values.map (·.type) }
  | construct (type : Option TypeId) (name : String) (start : Option Nat) :
    Collects values position (.construct type name start)
      { kind := .construct type name start, args := values.map (·.type) }
  | sequence (start : Nat) (here : position = start + totalLength values) :
    Collects values position (.sequence (some start) start [])
      { kind := .sequence (some start) position (spans start values) }

/-- The frame after the value under way, if there is one, was added to the collected ones. -/
def Frame.finished (position : Nat) (frame : Frame) : Frame :=
  match frame.kind with
  | .sequence .. => finishElementAt position frame
  | _ => frame.finishArg

namespace Frame

variable (frame : Frame) (position : Nat)

theorem kind_finishArg : frame.finishArg.kind = frame.kind := by
  unfold finishArg
  split <;> rfl

theorem finished_eq_finishArg (outside : frame.isSequence = false) :
    frame.finished position = frame.finishArg := by
  unfold isSequence at outside
  unfold finished
  split <;> simp_all

theorem finished_eq_finishElementAt (inside : frame.isSequence = true) :
    frame.finished position = finishElementAt position frame := by
  unfold isSequence at inside
  unfold finished
  split <;> simp_all

theorem isSequence_finished : (frame.finished position).isSequence = frame.isSequence := by
  cases kind : frame.kind with
  | sequence start elementStart elements =>
    cases start <;> simp [finished, isSequence, finishElementAt, kind, resetOperand]
  | base | group | call | construct => simp [finished, isSequence, kind, kind_finishArg]

end Frame

namespace Collects

variable {values : List Value} {position : Nat} {kind : FrameKind} {frame : Frame}

theorem isIdle (collects : Collects values position kind frame) : frame.isIdle = true := by
  cases collects <;> rfl

/-- Without a value under way nothing is added. -/
theorem finished (collects : Collects values position kind frame) :
    frame.finished position = frame := by
  cases collects <;> rfl

theorem finished_taking (collects : Collects values position kind frame) (value : Value) :
    Collects (values ++ [value]) (position + value.code.length) kind
      ((frame.taking value.type).finished (position + value.code.length)) := by
  cases collects with
  | call site start =>
    have added := @Collects.call (values ++ [value]) (position + value.code.length) site start
    simpa [Frame.finished, taking, Frame.finishArg, hasValue, Frame.resetOperand] using added
  | construct type name start =>
    have added := @Collects.construct (values ++ [value]) (position + value.code.length)
      type name start
    simpa [Frame.finished, taking, Frame.finishArg, hasValue, Frame.resetOperand] using added
  | sequence start here =>
    -- An element ends where the code of all values so far ends.
    have stop : position + value.code.length = start + totalLength (values ++ [value]) := by
      simp only [here, totalLength, List.flatMap_append, List.flatMap_singleton, List.length_append,
        Nat.add_assoc]
    have added := Collects.sequence start stop
    rw [spans_append, ← here] at added
    simpa [Frame.finished, taking, finishElementAt, hasValue, Frame.resetOperand] using added

theorem kind_ne (collects : Collects values position kind frame) : frame.kind ≠ .base ∧
      frame.kind ≠ .group := by
  cases collects <;> exact ⟨nofun, nofun⟩

theorem finishArg_eq (collects : Collects values position kind (frame.finished position))
    (noArray : Frame.isSequence { kind := kind } = false) :
    frame.kind = kind ∧ frame.finishArg.args = values.map (·.type) := by
  have outside : frame.isSequence = false := by
    rw [← frame.isSequence_finished position]
    generalize frame.finished position = done at collects
    cases collects with
    | call | construct => rfl
    | sequence => cases noArray
  rw [frame.finished_eq_finishArg position outside] at collects
  rw [← frame.kind_finishArg]
  generalize frame.finishArg = done at collects
  cases collects with
  | call | construct => exact ⟨rfl, rfl⟩
  | sequence => cases noArray

theorem finishElementAt_eq {start : Nat}
    (collects : Collects values position (.sequence (some start) start []) (frame.finished position)) :
    frame.isSequence = true ∧ finishElementAt position frame =
      { kind := .sequence (some start) position (spans start values) } := by
  have inside : frame.isSequence = true := by
    rw [← frame.isSequence_finished position]
    generalize frame.finished position = done at collects
    cases collects
    rfl
  rw [frame.finished_eq_finishElementAt position inside] at collects
  refine ⟨inside, ?_⟩
  generalize finishElementAt position frame = done at collects
  cases collects
  rfl

theorem isCounted_eq (collects : Collects values position kind (frame.finished position)) :
    frame.isCounted = false := by
  cases counted : frame.kind with
  | sequence start elementStart elements =>
    cases start with
    | some start => simp only [isCounted, counted]
    | none =>
      -- A literal that is only counted stays so, and collects nothing.
      have finished : (frame.finished position).kind = .sequence none elementStart elements := by
        simp [Frame.finished, counted, finishElementAt, Frame.resetOperand]
      generalize frame.finished position = done at collects finished
      cases collects <;> cases finished
  | base | group | call | construct => simp only [isCounted, counted]

end Collects

/-- Inside a bracket that collects values another operand may begin. -/
theorem OpenBody.awaits_collecting {body : OpenBody} {code : List Instruction} {c : Compiler}
    {frame last : Frame} {rest : List Frame} (next : List Instruction) (awaits : c.Awaits body code)
    (frames : c.frames = frame :: rest) (counted : last.isCounted = false) :
    ({ c with session := body.sessionWith next, frames := last :: rest } : Compiler).Awaits
      body next := by
  have counting := awaits.counting
  simp only [Compiler.countingOnly, frames, List.any_cons, Bool.or_eq_false_iff] at counting
  refine { awaits with session := rfl, counting := ?_ }
  simp only [Compiler.countingOnly, List.any_cons, counted, counting.2, Bool.or_self]

/-! ## Commas and brackets -/

theorem OpenBody.step_openArray {body : OpenBody} {code : List Instruction} {c : Compiler}
    (awaits : c.Awaits body code) :
    step (.sequence true) c =
      .ok ((), c.entered c.nesting.inSequence (.sequence (some code.length) code.length []), []) := by
  rw [step_eq_dispatch awaits.toQuiet awaits.retractable rfl, dispatch]
  simp only [openSequence, modify_bind_apply]
  refine (bind_eq (flushReference_nil ?_)).trans ?_
  · exact awaits.literals
  have counting : ({ c with nesting := c.nesting.inSequence } : Compiler).countingOnly = false :=
    awaits.counting
  simp only [Nesting.inSequence] at counting
  simp only [get_bind_apply, counting, Bool.false_eq_true, if_false]
  refine (bind_eq (position_eq body code ?_)).trans ?_
  · exact awaits.session
  rfl

namespace Settled

variable {body : OpenBody} {target c : Compiler} {code : List Instruction} {frame : Frame}
  {rest : List Frame}
variable {values : List Value}

theorem step_comma (settled : Settled body target c) (awaits : target.Awaits body code)
    (frames : target.frames = frame :: rest) {kind : FrameKind}
    (collects : Collects values code.length kind (frame.finished code.length)) :
    step (.separator .statement) c =
      .ok ((), { target with frames := frame.finished code.length :: rest }, []) := by
  have inside : target.frames ≠ [] ∨ target.consume ≠ .normal := .inl (by simp [frames])
  obtain ⟨quiet, retractable, -, -, kinds⟩ := settled.facts awaits inside
  have flushed := settled.flush awaits inside
  rw [OpenBody.step_eq_dispatch quiet retractable rfl, dispatch]
  simp only [separate, get_bind_apply, kinds, frames, List.head?_cons, Option.map_some]
  have isList := collects.kind_ne
  -- A comma is read by the kind of the frame, which is that of a list.
  cases kind_eq : frame.kind with
  | base => simp [Frame.finished, kind_eq, frame.kind_finishArg] at isList
  | group => simp [Frame.finished, kind_eq, frame.kind_finishArg] at isList
  | call | construct =>
    simp only [bind_eq flushed, modify_apply, Compiler.modifyFrame, frames, Frame.finished, kind_eq]
  | sequence =>
    simp only [bind_eq flushed, finishElement,
      bind_eq (OpenBody.position_eq body code awaits.session), Option.getD_some, modify_apply,
      frames, Frame.finished, kind_eq]

theorem reads_comma (settled : Settled body target c) (awaits : target.Awaits body code)
    (frames : target.frames = frame :: rest) {kind : FrameKind}
    (collects : Collects values code.length kind (frame.finished code.length)) :
    Reads [.separator .statement] c { target with frames := frame.finished code.length :: rest } :=
  .single nofun fun stream => (settled.withStream stream).step_comma (awaits.withStream stream)
    frames collects

theorem step_closeArray (settled : Settled body target c)
    (awaits : target.Awaits body (code ++ values.flatMap (·.code)))
    (frames : target.frames = frame :: rest) (collects : Collects values
      (code ++ values.flatMap (·.code)).length (.sequence (some code.length) code.length [])
      (frame.finished (code ++ values.flatMap (·.code)).length))
    {outside : Nesting} (nesting : target.nesting = outside.inSequence) :
    step (.sequence false) c =
      .ok ((), body.pushed (code ++ arrayCode body.session.table values)
        (some body.session.table.wellKnown.array)
        { target with nesting := outside, frames := rest }, []) := by
  have inside : target.frames ≠ [] ∨ target.consume ≠ .normal := .inl (by simp [frames])
  obtain ⟨quiet, retractable, same, -, kinds⟩ := settled.facts awaits inside
  obtain ⟨isArray, finished⟩ := collects.finishElementAt_eq
  have flushed := (settled.withNesting outside).flush { awaits with } inside
  have opened : (c.nesting.sequences == 0) = false := by simp [same, nesting, Nesting.inSequence]
  have closed : { c.nesting with sequences := c.nesting.sequences - 1 } = outside := by
    simp [same, nesting, Nesting.inSequence]
  have innermost : c.frames.head?.any (·.isSequence) = true := by
    simpa [any_isSequence_congr kinds, frames] using isArray
  rw [OpenBody.step_eq_dispatch quiet retractable rfl, dispatch]
  simp only [closeSequence, get_bind_apply, opened, innermost, Bool.not_true, Bool.false_eq_true,
    if_false, modify_bind_apply, closed]
  rw [bind_eq flushed]
  simp only [finishElement, bind_bind_apply]
  refine (bind_eq (OpenBody.position_eq body (code ++ values.flatMap (·.code)) ?_)).trans ?_
  · exact awaits.session
  simp only [Option.getD_some, modify_bind_apply, get_bind_apply, frames, finished]
  refine (bind_eq (OpenBody.emitting_eq ?_ (congrArg Except.ok
    (body.lowerSequence_spans code values)))).trans ?_
  · exact awaits.session
  exact OpenBody.pushOperand_eq rfl _

end Settled

end OnePass
