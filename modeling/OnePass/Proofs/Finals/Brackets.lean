import OnePass.Proofs.Finals.Expression

/-! # Brackets book no stores

A bracket that opens remembers the end of the code, and a bracket that closes is the innermost one.
So what is cut off, moved or wrapped when it closes is the code inside of it, and the brackets
around it keep their order. -/

namespace OnePass

namespace Compile

variable {c : Compiler} {start : Option Nat}

/-! ## Calls and groups -/

/-- A bracket that closes can give up its code: what the brackets around it remember lies before. -/
def Room (c : Compiler) (start : Option Nat) : Prop :=
  ∀ method, c.session.currentMethod? = .ok (some method) →
    ∀ place, start = some place → place ≤ method.position ∧ Stacked place c.kinds

theorem leads_abandonCall (grounded : c.Grounded) (room : Room c start) :
    (abandonCall start).Leads c fun _ later => c.Calm later := by
  unfold abandonCall
  cases start with
  | none => exact steady_failOperand.calm grounded
  | some start =>
    dsimp only
    rw [leads_get_bind]
    refine leads_lift_ok fun found current => ?_
    cases found with
    | none => exact steady_failOperand.calm grounded
    | some method =>
      obtain ⟨le, stacked⟩ := room method current start rfl
      -- The arguments are cut off, and the brackets around the call remember nothing in them.
      refine leads_calm_bind (Compiler.calm_setMethod grounded current rfl rfl ?_ ?_) steady_failOperand
      · exact (storesIn_sublist (List.take_sublist _ _)).subperm
      · have cut : (method.cut start).position = start := by
          simpa [MethodDraft.position, MethodDraft.cut] using le
        rwa [cut]

theorem leads_emitCall (grounded : c.Grounded) (site : CallSite) (room : Room c start)
    (args : List (Option TypeId)) : (emitCall site start args).Leads c fun _ later =>
      c.Calm later := by
  rw [emitCall, leads_get_bind, leads_bind]
  refine leads_attempt (gives_iff.mpr fun ref _ => ?_) (leads_abandonCall grounded room)
  dsimp only
  refine leads_lift_ok fun callee _ => ?_
  refine leads_lift_ok fun isVoid _ => ?_
  rw [leads_bind]
  refine (follows_emitting grounded fun method _ => grows_callCode _ start ref _ _ method).imp
    fun emitted next outcome => ?_
  rcases outcome with ⟨type?, rfl, follows, consume⟩ | ⟨rfl | rfl, rfl⟩
  · have toNext : c.Calm next := ⟨follows, fun _ => consume ▸ id⟩
    cases type? with
    | some type => exact (steady_pushOperand (some type)).trans_calm toNext
    | none =>
      dsimp only
      split
      · exact Within.trans_calm (steady_modify fun _ => rfl) toNext
      · exact leads_pure.mpr toNext
  · exact leads_pure.mpr (.refl grounded)
  · exact leads_abandonCall grounded room

theorem leads_emitConstruct (grounded : c.Grounded) (type : Option TypeId) (name : String)
    (room : Room c start) (args : List (Option TypeId)) :
    (emitConstruct type name start args).Leads c fun _ later => c.Calm later := by
  unfold emitConstruct
  cases type with
  | none =>
    dsimp only
    rw [leads_bind, leads_report]
    exact leads_abandonCall grounded room
  | some type =>
    dsimp only
    rw [leads_bind]
    refine (follows_emitting grounded fun method _ => method.grows_constructFrom _ type args).imp
      fun emitted next outcome => ?_
    rcases outcome with ⟨type, rfl, follows, consume⟩ | ⟨rfl | rfl, rfl⟩
    · have toNext : c.Calm next := ⟨follows, fun _ => consume ▸ id⟩
      exact (steady_pushOperand (some type)).trans_calm toNext
    · exact leads_pure.mpr (.refl grounded)
    · exact leads_abandonCall grounded room

theorem steady_finishGroup (frame : Frame) : (finishGroup frame).Steady := by
  have valued : (if frame.depth > 0 then pushOperand frame.operand
      else if frame.failed then failOperand else pure () : Compile Unit).Steady := by
    split
    · exact steady_pushOperand _
    · split
      · exact steady_failOperand
      · exact within_pure ()
  rw [finishGroup]
  dsimp only
  split
  · exact (within_report _).bind fun _ => valued
  · exact valued

theorem calm_pushFrame (grounded : c.Grounded) {kind : FrameKind}
    (below : ∀ method, c.session.currentMethod? = .ok (some method) →
      kind.Below method.position ∧ ∀ start, kind.start? = some start → start = method.position) :
    c.Calm (c.pushFrame kind) := by
  refine ⟨⟨fun method current => ?_, refl_of _ _, rfl, fun _ suits => suits⟩, fun _ same => same⟩
  have sits := grounded method current
  obtain ⟨isBelow, atEnd⟩ := below method current
  exact ⟨sits.small, sits.stacked.push isBelow atEnd, sits.fits⟩

theorem calm_popFrame (grounded : c.Grounded) {frame : Frame} {rest : List Frame}
    (frames : c.frames = frame :: rest) : c.Calm { c with frames := rest } := by
  refine ⟨⟨fun method current => ?_, refl_of _ _, rfl, fun _ suits => suits⟩, fun _ same => same⟩
  have sits := grounded method current
  exact ⟨sits.small, (sits.stacked_cons frames).tail, sits.fits⟩

/-- What the closed bracket remembers lies after what the brackets around it do. -/
theorem room_popFrame (grounded : c.Grounded) {frame : Frame} {rest : List Frame}
    (frames : c.frames = frame :: rest) : Room { c with frames := rest } frame.kind.start? := by
  intro method current start starts
  have stacked := (grounded method current).stacked_cons frames
  refine ⟨stacked.1.start_le starts, ?_⟩
  have rests := stacked.2
  rwa [starts] at rests

theorem leads_position : position?.Leads c fun position later => later = c ∧
    ∀ method, c.session.currentMethod? = .ok (some method) → position = some method.position :=
  Gives.imp does_position fun _ here => here.1

/-- Only a call, a construction or an array literal remembers where it begins. -/
theorem steady_pushGroup : (modify (·.pushFrame .group)).Steady :=
  within_steady fun _ grounded => leads_modify.mpr
    (calm_pushFrame grounded fun _ _ => ⟨fun _ starts => (nomatch starts), fun _ starts =>
      (nomatch starts)⟩)

theorem steady_openStatement : openStatement.Steady := by
  rw [openStatement]
  refine Within.bind (steady_modify fun _ => rfl) fun _ => within_get.bind fun opened => ?_
  refine Within.bind (steady_modify fun _ => rfl) fun _ => ?_
  dsimp only
  split
  · split
    · exact (within_report _).bind fun _ => steady_pushGroup
    · exact steady_pushGroup
  · refine steady_takeName.bind fun segments => within_steady fun c grounded => ?_
    rw [leads_bind]
    refine leads_position.imp ?_
    rintro start here ⟨same, atEnd⟩
    subst same
    -- A call and a construction alike begin at the end of the code.
    have begins {kind : FrameKind} (below : ∀ position,
        (∀ place, start = some place → place ≤ position) → kind.Below position)
            (starts : kind.start? = start) : here.Calm (here.pushFrame kind) := by
      refine calm_pushFrame grounded fun method current => ?_
      have isEnd {place : Nat} (isStart : start = some place) : place = method.position :=
        Option.some.inj (isStart.symm.trans (atEnd method current))
      exact ⟨below _ fun place isStart => (isEnd isStart).le, fun place isStart =>
        isEnd (starts.symm.trans isStart)⟩
    split
    · exact leads_modify.mpr (begins (fun _ below => below) rfl)
    · exact leads_lift_ok fun site _ => leads_modify.mpr (begins (fun _ below => below) rfl)

theorem steady_closeStatement : closeStatement.Steady := by
  rw [closeStatement]
  refine within_get.bind fun c => ?_
  split
  · exact within_report _
  split
  · exact within_report _
  refine Within.bind (steady_modify fun _ => rfl) fun _ => steady_flushReference.bind fun _ => ?_
  refine within_steady fun c grounded => ?_
  rw [leads_get_bind]
  split
  · exact leads_pure.mpr (.refl grounded)
  · rename_i frame rest frames
    rw [leads_modify_bind]
    have toRest := calm_popFrame grounded frames
    have room := room_popFrame grounded frames
    split
    · exact (steady_finishGroup frame).trans_calm toRest
    · exact (steady_finishGroup frame).trans_calm toRest
    · exact (steady_finishGroup frame).trans_calm toRest
    · rename_i site start kind
      rw [kind] at room
      exact (leads_emitCall toRest.grounded site room _).imp fun _ _ => toRest.trans
    · rename_i type name start kind
      rw [kind] at room
      exact (leads_emitConstruct toRest.grounded type name room _).imp fun _ _ => toRest.trans

/-! ## Array literals -/

theorem stacked_finishElementAt {frame : Frame} {kinds : List FrameKind} {position : Nat}
    (stacked : Stacked position (frame.kind :: kinds)) :
    Stacked position ((finishElementAt position frame).kind :: kinds) := by
  unfold finishElementAt
  split
  · rename_i start elementStart elements kind
    rw [kind] at stacked
    obtain ⟨⟨ordered, le⟩, rests⟩ := stacked
    refine ⟨⟨?_, le_refl _⟩, rests⟩
    split
    · exact ordered.concat le _
    · exact ordered.mono le
  · exact stacked

theorem steady_finishElement : finishElement.Steady := by
  refine within_steady fun c grounded => ?_
  rw [finishElement, leads_bind]
  refine leads_position.imp ?_
  rintro position here ⟨same, atEnd⟩
  subst same
  refine leads_modify.mpr ?_
  split
  · exact .refl grounded
  · rename_i frame rest frames
    refine ⟨⟨fun method current => ?_, refl_of _ _, rfl, fun _ suits => suits⟩, fun _ same => same⟩
    have sits := grounded method current
    refine ⟨sits.small, ?_, sits.fits⟩
    rw [Compiler.kinds, List.map_cons, atEnd method current]
    exact stacked_finishElementAt (sits.stacked_cons frames)

theorem steady_separate : separate.Steady := by
  rw [separate]
  refine within_get.bind fun c => ?_
  dsimp only
  split
  · exact steady_flushReference.bind fun _ => steady_modifyFrame kind_finishArg
  · exact steady_flushReference.bind fun _ => steady_modifyFrame kind_finishArg
  · exact steady_flushReference.bind fun _ => steady_finishElement
  · exact steady_modify fun _ => rfl

theorem steady_openSequence : openSequence.Steady := by
  rw [openSequence]
  refine Within.bind (steady_modify fun _ => rfl) fun _ => steady_flushReference.bind fun _ => ?_
  refine within_steady fun c grounded => ?_
  rw [leads_get_bind]
  split
  · rw [leads_bind, leads_pure]
    refine leads_modify.mpr (calm_pushFrame grounded fun _ _ => ?_)
    simp [FrameKind.Below, FrameKind.start?]
  · rw [leads_bind]
    refine leads_position.imp ?_
    rintro start here ⟨same, atEnd⟩
    subst same
    refine leads_modify.mpr (calm_pushFrame grounded fun method current => ?_)
    rw [atEnd method current]
    exact ⟨⟨le_refl _, le_refl _⟩, fun _ starts => (Option.some.inj starts).symm⟩

theorem leads_lowerSequence (grounded : c.Grounded) {start stop : Nat}
    {elements : List MethodDraft.Element} (ordered : ∀ method, c.session.currentMethod? =
      .ok (some method) → MethodDraft.Ordered start elements stop)
    (room : Room c (some start)) :
    (emitting fun table method => .ok (method.lowerSequence table start elements)).Leads c
      fun _ later => c.Calm later := by
  refine leads_emitting (.refl grounded) (.refl grounded) fun method current => gives_ok.mpr ?_
  obtain ⟨le, stacked⟩ := room method current start rfl
  refine Compiler.calm_setMethod grounded current rfl rfl ?_ ?_
  · exact (method.storesIn_lowerSequence _ (ordered method current)).subperm
  · exact stacked.mono (method.start_le_lowerSequence _ elements le)

theorem steady_closeSequence : closeSequence.Steady := by
  rw [closeSequence]
  refine within_get.bind fun c => ?_
  split
  · exact within_report _
  split
  · exact within_report _
  refine Within.bind (steady_modify fun _ => rfl) fun _ => steady_flushReference.bind fun _ => ?_
  refine steady_finishElement.bind fun _ => within_steady fun c grounded => ?_
  rw [leads_get_bind]
  split
  · exact leads_pure.mpr (.refl grounded)
  · rename_i frame rest frames
    rw [leads_modify_bind]
    have toRest := calm_popFrame grounded frames
    have room := room_popFrame grounded frames
    split
    · rename_i start elementStart elements kind
      rw [kind] at room
      have ordered (method : MethodDraft) (current : c.session.currentMethod? = .ok (some method)) :
          MethodDraft.Ordered start elements elementStart := by
        have stacked := (grounded method current).stacked_cons frames
        rw [kind] at stacked
        exact stacked.1.1
      rw [leads_bind]
      refine (leads_lowerSequence toRest.grounded ordered room).imp fun emitted next toNext => ?_
      cases emitted with
      | done type => exact (steady_pushOperand (some type)).trans_calm (toRest.trans toNext)
      | refused | outside => exact leads_pure.mpr (toRest.trans toNext)
    · exact leads_pure.mpr toRest

end Compile

end OnePass
