import OnePass.Proofs.Layout.Brackets

/-! # Expressions keep the outline

Whatever happens to an expression, its operands, operators, calls and ends only change the code of
the current method and the expression under way. The brackets of an expression change the outline in
one way only: a bracket that opens is counted and put in front of the open ones, and a bracket that
closes is taken away again. -/

namespace OnePass

namespace MethodDraft

variable (method : MethodDraft) (table : SymbolTable)

theorem gives_label (name : String) : Gives (method.label name) fun later =>
      later.outline = method.outline := by
  rw [label]
  split
  · exact gives_error
  · rfl

theorem gives_declareLocal (name typeName : String) (namespaces : List String) (isFinal : Bool) :
    Gives (method.declareLocal table name typeName namespaces isFinal) fun (_, later) =>
      later.outline = method.outline := by
  rw [declareLocal]
  split
  · exact gives_error
  · split
    · exact gives_error
    · rfl

end MethodDraft

namespace Compile

theorem alike_operator (op : Operator) (retract : Option TypeId) : (operator op retract).Alike :=
  Keeps.alike fun _ guarded => does_operator guarded op fun _ _ _ => Nat.zero_le _

theorem alike_separate : separate.Alike :=
  Keeps.alike fun _ guarded => does_separate guarded List.length_pos_iff.mpr

theorem alike_emitCall (site : CallSite) (start : Option Nat) (args : List (Option TypeId)) :
    (emitCall site start args).Alike := by
  intro c
  have sits : c.session.Here fun method =>
      (FrameKind.call site start).SitsAt { keep := 0, alike := True } method :=
    fun _ _ => ⟨Nat.zero_le _, fun isChecked => isChecked.elim⟩
  exact Gives.imp (does_emitCall (guarded_zero c) sits args) fun _ here => here.1.1.alike trivial

theorem alike_emitConstruct (type : Option TypeId) (name : String) (start : Option Nat)
    (args : List (Option TypeId)) : (emitConstruct type name start args).Alike :=
  Keeps.alike fun _ guarded => does_emitConstruct guarded type name
    (fun _ _ _ _ => Nat.zero_le _) args

/-! ## Brackets -/

theorem Within.leads_bind {α : Type} {action : Compile α} {next : α → Compile Unit} {c : Compiler}
    {change : Outline → Outline} (first : action.Alike)
    (second : ∀ a later, (next a).Leads later fun _ last => last.outline = change later.outline) :
    (action >>= next).Leads c fun _ last => last.outline = change c.outline := by
  rw [Compile.leads_bind]
  refine (first c).imp fun a later alike => (second a later).imp fun _ last changed => ?_
  rw [changed, alike]

theorem any_isSequence_iff (c : Compiler) :
    c.frames.head?.any (·.isSequence) = true ↔ c.outline.brackets.head? = some .sequence := by
  cases frames : c.frames with
  | nil => simp [Compiler.outline, frames]
  | cons frame rest =>
    by_cases isSequence : frame.isSequence <;>
      simp [Compiler.outline, frames, Frame.bracket, isSequence]

theorem leads_pushFrame (c : Compiler) {kind : FrameKind} {bracket : Bracket}
    (opens : ({ kind := kind } : Frame).bracket = bracket) :
    (modify (·.pushFrame kind)).Leads c fun _ later => later.outline = c.outline.push bracket := by
  subst opens
  rfl

theorem leads_openStatement (c : Compiler) : openStatement.Leads c fun _ later =>
    later.outline =
      (c.outline.count { c.nesting with statements := c.nesting.statements + 1 }).push .statement := by
  rw [openStatement, leads_modify_bind, leads_get_bind, leads_modify_bind]
  dsimp only
  split
  · split
    · rw [leads_bind, leads_report]
      exact leads_pushFrame _ rfl
    · exact leads_pushFrame _ rfl
  · refine keeps_takeName.alike.leads_bind fun segments named => ?_
    refine alike_position.leads_bind fun start last => ?_
    split
    · exact leads_pushFrame _ rfl
    · exact leads_lift_ok fun site _ => leads_pushFrame _ rfl

theorem leads_popFrame_bind {c : Compiler} {next : Unit → Compile Unit} {frame : Frame}
    {rest : List Frame} (frames : c.frames = frame :: rest) (follows : (next ()).Alike) :
    (modify ({ · with frames := rest }) >>= next).Leads c fun _ later =>
      later.outline = c.outline.pop := by
  rw [leads_modify_bind]
  refine (follows _).imp fun _ later alike => ?_
  rw [alike]
  simp [Compiler.outline, Outline.pop, frames]

theorem leads_closeStatement (c : Compiler) : closeStatement.Leads c fun _ later =>
    later.outline =
      if c.nesting.statements = 0 ∨ c.outline.brackets.head? = some .sequence then c.outline
      else (c.outline.count { c.nesting with statements := c.nesting.statements - 1 }).pop := by
  rw [closeStatement, leads_get_bind]
  by_cases none : c.nesting.statements = 0
  · rw [if_pos (by simpa using none), if_pos (.inl none)]
    exact leads_report.mpr rfl
  by_cases inArray : c.outline.brackets.head? = some .sequence
  · rw [if_neg (by simpa using none), if_pos ((any_isSequence_iff c).mpr inArray),
      if_pos (.inr inArray)]
    exact leads_report.mpr rfl
  rw [if_neg (by simpa using none), if_neg (mt (any_isSequence_iff c).mp inArray),
    if_neg (not_or.mpr ⟨none, inArray⟩)]
  rw [leads_modify_bind]
  refine keeps_flushReference.alike.leads_bind fun _ flushed => ?_
  rw [leads_get_bind]
  -- That a frame is open when something is counted is not known here; without one there is nothing
  -- to pop.
  split
  · rename_i frames
    rw [leads_pure]
    simp [Compiler.outline, Outline.pop, frames]
  · rename_i frame rest frames
    refine leads_popFrame_bind frames ?_
    split
    · exact (keeps_finishGroup frame).alike
    · exact (keeps_finishGroup frame).alike
    · exact (keeps_finishGroup frame).alike
    · exact alike_emitCall _ _ _
    · exact alike_emitConstruct _ _ _ _

theorem leads_openSequence (c : Compiler) : openSequence.Leads c fun _ later =>
    later.outline =
      (c.outline.count { c.nesting with sequences := c.nesting.sequences + 1 }).push .sequence := by
  rw [openSequence, leads_modify_bind]
  refine keeps_flushReference.alike.leads_bind fun _ flushed => ?_
  rw [leads_get_bind]
  dsimp only
  split
  · rw [leads_bind, leads_pure]
    exact leads_pushFrame _ rfl
  · exact alike_position.leads_bind fun start later => leads_pushFrame _ rfl

theorem leads_closeSequence (c : Compiler) : closeSequence.Leads c fun _ later =>
    later.outline =
      if c.nesting.sequences = 0 ∨ c.outline.brackets.head? ≠ some .sequence then c.outline
      else (c.outline.count { c.nesting with sequences := c.nesting.sequences - 1 }).pop := by
  rw [closeSequence, leads_get_bind]
  by_cases none : c.nesting.sequences = 0
  · rw [if_pos (by simpa using none), if_pos (.inl none)]
    exact leads_report.mpr rfl
  by_cases inArray : c.outline.brackets.head? = some .sequence
  · rw [if_neg (by simpa using none), if_neg (by simpa using (any_isSequence_iff c).mpr inArray),
      if_neg (not_or.mpr ⟨none, fun outside => outside inArray⟩)]
    rw [leads_modify_bind]
    refine keeps_flushReference.alike.leads_bind fun _ flushed => ?_
    refine alike_finishElement.leads_bind fun _ finished => ?_
    rw [leads_get_bind]
    split
    · rename_i frames
      rw [leads_pure]
      simp [Compiler.outline, Outline.pop, frames]
    · rename_i frame rest frames
      refine leads_popFrame_bind frames ?_
      split
      · refine Keeps.alike (Keeps.bind (keeps_emitting fun _ method le => ?_) fun emitted => ?_)
        · exact MethodDraft.edits_lowerSequence le (Nat.zero_le _) _ _
        · cases emitted with
          | done type => exact keeps_pushOperand (some type)
          | refused | outside => exact keeps_pure ()
      · exact within_pure ()
  · rw [if_neg (by simpa using none), if_pos (by simpa using mt (any_isSequence_iff c).mp inArray),
      if_pos (.inr inArray)]
    exact leads_report.mpr rfl

end Compile

end OnePass
