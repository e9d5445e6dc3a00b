import OnePass.Proofs.Layout.Expression

/-! # Brackets open and close behind the code that stands

A bracket begins at the end of the code and remembers that place. When it closes, the code from
there on may be cut off, moved or wrapped, and the code before it is left alone. -/

namespace OnePass

open List Compiler

namespace Compile

variable {g : Guard} {c : Compiler}

/-! ## Frames -/

section Frames

variable [g.Loose]

theorem works_pushFrame (guarded : c.Guarded g) {kind : FrameKind}
    (sits : c.session.Here fun method => kind.SitsAt g method) : c.Works g (c.pushFrame kind) := by
  refine ⟨⟨fun method current => ?_, fun isChecked => ?_⟩, (Session.Untouched.refl _).reworks, rfl,
    Guard.loose⟩
  · have here := guarded.sits method current
    obtain ⟨inner, all, each⟩ := here.kinds
    exact ⟨here.le, ⟨kind :: inner, congrArg (kind :: ·) all,
      forall_mem_cons.mpr ⟨sits method current, each⟩⟩, here.targets⟩
  · obtain ⟨base, frames⟩ := forall_mem_cons.mp (guarded.plain isChecked)
    exact forall_mem_cons.mpr ⟨base, forall_mem_cons.mpr ⟨nofun, frames⟩⟩

variable {frame : Frame} {rest : List Frame} (frames : c.frames = frame :: rest)
  (inside : g.outer.length ≤ rest.length)

include frames inside

omit [g.Loose] in
/-- The innermost bracket is none of the outer ones. -/
theorem exists_inner {method : MethodDraft} (sits : c.SitsAt g method) :
    frame.kind.SitsAt g method ∧ ∃ inner, rest.map (·.kind) = inner ++ g.outer ∧ ∀ kind ∈ inner,
      kind.SitsAt g method := by
  obtain ⟨inner, all, each⟩ := sits.kinds
  rw [kinds, frames, map_cons] at all
  cases inner with
  | nil =>
    have lengths := congrArg length all
    rw [length_cons, length_map, nil_append] at lengths
    omega
  | cons kind inner =>
    obtain ⟨rfl, others⟩ := List.cons.inj all
    obtain ⟨here, later⟩ := forall_mem_cons.mp each
    exact ⟨here, inner, others, later⟩

theorem works_popFrame (guarded : c.Guarded g) : c.Works g { c with frames := rest } := by
  refine ⟨⟨fun method current => ?_, fun isChecked => ?_⟩, (Session.Untouched.refl _).reworks, rfl,
    Guard.loose⟩
  · have sits := guarded.sits method current
    exact ⟨sits.le, (exists_inner frames inside sits).2, sits.targets⟩
  · have plain := guarded.plain isChecked
    rw [Compiler.Plain, frames] at plain
    obtain ⟨base, others⟩ := forall_mem_cons.mp plain
    exact forall_mem_cons.mpr ⟨base, (forall_mem_cons.mp others).2⟩

end Frames

/-! ## Calls and groups -/

theorem does_abandonCall (guarded : c.Guarded g) {start : Option Nat}
    (room : c.session.Here fun _ => ∀ place ∈ start, g.keep ≤ place) :
    (abandonCall start).Does c fun _ later => c.Works g later := by
  unfold abandonCall
  cases start with
  | none => exact keeps_failOperand c guarded
  | some start =>
    refine does_get_bind (does_lift_bind (gives_self _) fun found current => ?_)
    cases found with
    | none => exact keeps_failOperand c guarded
    | some method =>
      have cut : method.Edits g (method.cut start) :=
        MethodDraft.edits_cut (guarded.sits method current).le (room method current start rfl)
      exact does_setMethod_bind guarded current cut keeps_failOperand

end Compile

/-- The current method is edited behind the code that stands, and a result that was dropped there
may be left to be taken back. -/
def Compiler.Leaves (g : Guard) (c later : Compiler) : Prop :=
  c.Works g { later with retractable := c.retractable } ∧
    (later.retractable = c.retractable ∨ Compile.Beyond g.keep later)

theorem Compiler.Works.leaves {g : Guard} {c later : Compiler} (works : c.Works g later) :
    c.Leaves g later := by
  refine ⟨?_, .inl works.retractable⟩
  rw [← works.retractable]
  exact works

theorem Compiler.Works.trans_leaves {g : Guard} {c later last : Compiler}
    (works : c.Works g later) (leaves : later.Leaves g last) : c.Leaves g last := by
  rw [Compiler.Leaves, ← works.retractable]
  exact ⟨works.trans leaves.1, leaves.2⟩

namespace Compile

variable {g : Guard} {c : Compiler}

theorem does_emitCall (guarded : c.Guarded g) {site : CallSite} {start : Option Nat}
    (sits : c.session.Here fun method => (FrameKind.call site start).SitsAt g method)
    (args : List (Option TypeId)) :
    (emitCall site start args).Does c fun _ later => c.Leaves g later := by
  have room : c.session.Here fun _ => ∀ place ∈ start, g.keep ≤ place := by
    rintro method current place ⟨⟩
    exact (sits method current).1
  have abandons : (abandonCall start).Does c fun _ later => c.Leaves g later :=
    (does_abandonCall guarded room).imp fun _ _ works => works.leaves
  rw [emitCall]
  refine does_get_bind (does_attempt_bind (Session.yields_resolveCallee _ _ _)
    (fun ref _ => ?_) abandons)
  dsimp only
  refine does_lift_bind (gives_self _) fun callee _ => does_lift_bind (gives_self _)
    fun isVoid _ => ?_
  -- The call itself lies behind the code that stands, so a result that is dropped after it can be
  -- taken back.
  have calls (receiver : Option Receiver) (part : ∀ held ∈ receiver, held ∈ site.receiver?)
      (discard : Bool) : (emitting (callCode receiver start ref discard)).Does c fun emitted later =>
        c.Works g later ∧ (∀ type?, emitted = .done type? → Beyond g.keep later) ∧
          (emitted = .refused → later = c) := by
    refine does_emitting ⟨.refl guarded, by simp, by simp⟩ ⟨.refl guarded, by simp, by simp⟩
      fun method current => ?_
    have here := sits method current
    have has (isChecked : g.checked) (held : Receiver) (isHeld : held ∈ receiver) :
        method.HasReceiver held :=
      here.2 isChecked held (part held isHeld)
    refine (edits_callCode (guarded.sits method current).le has here.1 ref discard _).imp ?_
    rintro ⟨type?, changed⟩ ⟨edits, longer⟩
    refine ((works_setMethod guarded current edits).and
      (Session.gives_setMethod_reworks current edits)).imp ?_
    rintro session ⟨works, -, isCurrent⟩
    refine ⟨works, fun _ _ other otherCurrent => ?_, by simp⟩
    obtain rfl : changed = other := by simpa using isCurrent.symm.trans otherCurrent
    exact Nat.le_sub_one_of_lt longer
  have part : ∀ held ∈ (if callee.isStatic then none else site.receiver?), held ∈ site.receiver? := by
    split
    · exact fun _ isHeld => by cases isHeld
    · exact fun _ isHeld => isHeld
  refine (calls _ part _).bind ?_
  rintro emitted later ⟨works, beyond, same⟩
  cases emitted with
  | outside => exact does_pure works.leaves
  | refused =>
    obtain rfl := same rfl
    exact abandons
  | done type? =>
    cases type? with
    | some type =>
      exact ((keeps_pushOperand (some type)).does works).imp fun _ _ toLast => toLast.leaves
    | none =>
      dsimp only
      split
      · refine does_modify ⟨?_, .inr (beyond _ rfl)⟩
        exact works.leaves.1
      · exact does_pure works.leaves

theorem does_emitConstruct (guarded : c.Guarded g) (type : Option TypeId) (name : String)
    {start : Option Nat} (room : c.session.Here fun _ => ∀ place ∈ start, g.keep ≤ place)
    (args : List (Option TypeId)) :
    (emitConstruct type name start args).Does c fun _ later => c.Works g later := by
  have abandons := does_abandonCall guarded room
  unfold emitConstruct
  cases type with
  | none => exact does_report_bind rfl abandons
  | some type =>
    have constructs : (emitting fun table method => method.constructFrom table type args).Does c
        fun emitted later => c.Works g later ∧ (emitted = .refused → later = c) := by
      refine does_emitting ⟨.refl guarded, by simp⟩ ⟨.refl guarded, fun _ => rfl⟩ fun method current => ?_
      refine (MethodDraft.edits_constructFrom g (guarded.sits method current).le _ type args).imp
        fun _ edits => ?_
      exact (works_setMethod guarded current edits).imp fun _ works => ⟨works, by simp⟩
    refine constructs.bind ?_
    rintro emitted later ⟨works, same⟩
    cases emitted with
    | done type => exact (keeps_pushOperand (some type)).does works
    | outside => exact does_pure works
    | refused =>
      obtain rfl := same rfl
      exact abandons

theorem keeps_finishGroup (frame : Frame) : (finishGroup frame).Keeps g := by
  have valued : (if frame.depth > 0 then pushOperand frame.operand
      else if frame.failed then failOperand else pure () : Compile Unit).Keeps g := by
    split
    · exact keeps_pushOperand _
    · split
      · exact keeps_failOperand
      · exact keeps_pure ()
  rw [finishGroup]
  dsimp only
  split
  · exact (keeps_report rfl).bind fun _ => valued
  · exact valued

theorem does_position : position?.Does c fun position later =>
    later = c ∧ c.session.Here fun method => position = some method.position := by
  rw [position?]
  refine does_get_bind (does_lift_bind (gives_self _) fun found current =>
    does_pure ⟨rfl, fun method isCurrent => ?_⟩)
  obtain rfl : found = some method := by simpa using current.symm.trans isCurrent
  rfl

theorem keeps_pushGroup [g.Loose] : (modify (·.pushFrame .group)).Keeps g :=
  fun _ guarded => does_modify (works_pushFrame guarded fun _ _ => nofun)

theorem keeps_openStatement [g.Loose] : openStatement.Keeps g := by
  have takes (c : Compiler) : takeName.Does c fun _ later => later = c.clearName :=
    does_get_bind (does_modify_bind (does_pure rfl))
  rw [openStatement]
  refine Keeps.bind (keeps_skip fun _ => rfl) fun _ => ?_
  intro c guarded
  refine does_get_bind (does_modify_bind ?_)
  have reads : c.Works g { c with pendingNew := false } :=
    works_of_site_eq guarded rfl fun _ => rfl
  dsimp only
  split
  · split
    · exact does_report_bind rfl (keeps_pushGroup.does reads)
    · exact keeps_pushGroup.does reads
  refine (takes _).bind ?_
  rintro segments named rfl
  have toNamed : c.Works g { c with pendingNew := false }.clearName :=
    works_of_site_eq guarded rfl fun _ => rfl
  refine does_position.bind ?_
  rintro start _ ⟨rfl, atEnd⟩
  -- A call and a construction alike begin at the end of the code.
  split
  · refine does_modify (toNamed.trans (works_pushFrame toNamed.guarded fun method current => ?_))
    obtain rfl := atEnd method current
    rintro _ ⟨⟩
    exact (guarded.sits method current).le
  · refine does_lift_bind (c.session.has_resolveCallSite segments c.usings) fun site has => ?_
    refine does_modify (toNamed.trans (works_pushFrame toNamed.guarded fun method current => ?_))
    obtain rfl := atEnd method current
    exact ⟨(guarded.sits method current).le, fun _ receiver held => has receiver held method current⟩

/-- Where the innermost bracket is none of the outer ones, there are as many below it. -/
theorem le_of_frames {n : Nat} {later : Compiler} (inside : c.frames ≠ [] → n < c.frames.length)
    (same : later.frames.length = c.frames.length) {frame : Frame} {rest : List Frame}
    (frames : later.frames = frame :: rest) : n ≤ rest.length := by
  rw [frames, length_cons] at same
  have lt := inside (ne_nil_of_length_pos (by omega))
  omega

/-- An action that keeps the outline keeps the number of brackets. -/
theorem Does.counted {α : Type} {action : Compile α} {later : Compiler} (alike : action.Alike)
    (does : action.Does later fun _ last => later.Works g last) (toLater : c.Works g later) :
    action.Does later fun _ last => c.Works g last ∧ last.frames.length = later.frames.length :=
  (Gives.and does (alike later)).imp fun (_, _, _) here =>
    ⟨⟨toLater.trans here.1.1,
      by simpa [Compiler.outline] using congrArg (·.brackets.length) here.2⟩, here.1.2⟩

variable {method : MethodDraft}

/-- Work on the current method that cannot be refused changes it. -/
theorem does_emitting_fault {α : Type} {work : SymbolTable → MethodDraft →
      Except Failure (α × MethodDraft)}
    {outcome : Except Fault (α × MethodDraft)} {post : α × MethodDraft → Prop}
    (current : c.session.currentMethod? = .ok (some method))
    (works : work c.session.table method = liftM outcome) (gives : Gives outcome post) :
    (emitting work).Does c fun emitted later => ∃ a changed, post (a, changed) ∧ emitted = .done a ∧
      later.session.currentMethod? = .ok (some changed) := by
  rw [emitting]
  refine does_get_bind (does_lift_bind (gives_self _) fun found isFound => ?_)
  obtain rfl : some method = found := by simpa using current.symm.trans isFound
  dsimp only
  rw [works]
  cases outcome with
  | error fault => trivial
  | ok result =>
    exact does_pure_bind (does_lift_bind (Session.gives_swaps current _) fun session swaps =>
      does_modify_bind (does_pure ⟨_, _, gives, rfl, swaps.current⟩))

/-- An action that keeps what stands whatever is asked for gives the current method more code and
keeps the brackets. -/
theorem Keeps.grows {α : Type} {action : Compile α} (keeps : ∀ g, action.Keeps g)
    (current : c.session.currentMethod? = .ok (some method)) :
    action.Does c fun _ later => later.kinds = c.kinds ∧ later.session.table = c.session.table ∧
      ∃ changed, later.session.currentMethod? = .ok (some changed) ∧ method.code <+: changed.code := by
  have guarded : c.Guarded { keep := method.position, outer := c.kinds } := by
    refine ⟨fun other isCurrent => ?_, nofun⟩
    obtain rfl : method = other := by simpa using current.symm.trans isCurrent
    exact ⟨le_rfl, ⟨[], rfl, forall_mem_nil _⟩, nofun⟩
  refine Gives.imp (Gives.and (keeps _ c guarded) ((keeps _).alike c)) ?_
  rintro ⟨_, later, _⟩ ⟨⟨works, quiet⟩, alike⟩
  obtain ⟨changed, isCurrent, longer⟩ :
      ∃ changed, later.session.currentMethod? = .ok (some changed) ∧ method.code <+: changed.code := by
    rcases works.session.methods with untouched | ⟨before, changed, replaced⟩
    · exact ⟨method, untouched.current.trans current, prefix_refl _⟩
    · obtain rfl : method = before := by simpa using current.symm.trans replaced.before
      have stands : changed.code.take method.code.length = method.code :=
        replaced.edits.stands.trans (take_length ..)
      exact ⟨changed, replaced.current, stands ▸ take_prefix ..⟩
  obtain ⟨inner, all, -⟩ := (works.guarded.sits changed isCurrent).kinds
  have same : later.frames.length = c.frames.length := by
    simpa [outline] using congrArg (·.brackets.length) alike
  obtain rfl : inner = [] := by simpa [kinds, same] using congrArg length all
  exact ⟨⟨all, congrArg (·.session.table) alike, changed, isCurrent, longer⟩, quiet⟩

theorem does_closeStatement [g.Loose] (guarded : c.Guarded g)
    (inside : c.frames ≠ [] → g.outer.length < c.frames.length) :
    closeStatement.Does c fun _ later => c.Leaves g later := by
  have stays : c.Leaves g c := (Compiler.Works.refl guarded).leaves
  rw [closeStatement]
  refine does_get_bind ?_
  split
  · exact does_report stays rfl
  split
  · exact does_report stays rfl
  refine does_modify_bind ?_
  have counted : c.Works g
      { c with nesting := { c.nesting with statements := c.nesting.statements - 1 } } :=
    works_of_site_eq guarded rfl Guard.loose
  refine (Does.counted keeps_flushReference.alike (keeps_flushReference _ counted.guarded)
    counted).bind ?_
  rintro _ flushed ⟨toFlushed, same⟩
  refine does_get_bind ?_
  split
  · exact does_pure toFlushed.leaves
  rename_i frame rest frames
  refine does_modify_bind ?_
  have outside := le_of_frames inside same frames
  have popped := works_popFrame frames outside toFlushed.guarded
  have sits : flushed.session.Here fun method => frame.kind.SitsAt g method :=
    fun method current => (exists_inner frames outside (toFlushed.guarded.sits method current)).1
  have toPopped := toFlushed.trans popped
  have groups : (finishGroup frame).Does { flushed with frames := rest } fun _ later =>
      c.Leaves g later :=
    ((keeps_finishGroup frame).does toPopped).imp fun _ _ works => works.leaves
  split
  · exact groups
  · exact groups
  · exact groups
  · rename_i site start kind
    rw [kind] at sits
    exact (does_emitCall popped.guarded sits _).imp fun _ _ => toPopped.trans_leaves
  · rename_i type name start kind
    rw [kind] at sits
    exact (does_emitConstruct popped.guarded type name sits _).imp fun _ _ works =>
      (toPopped.trans works).leaves

/-! ## Array literals -/

theorem sits_finishElementAt {frame : Frame} (position : Nat)
    (sits : frame.kind.SitsAt g method) : (finishElementAt position frame).kind.SitsAt g method := by
  unfold finishElementAt
  split
  · rename_i start elementStart elements kind
    rw [kind] at sits
    exact sits
  · exact sits

theorem bracket_finishElementAt (position : Nat) (frame : Frame) :
    (finishElementAt position frame).bracket = frame.bracket := by
  unfold finishElementAt
  split
  · rename_i start elementStart elements kind
    simp [Frame.bracket, Frame.isSequence, kind]
  · rfl

theorem kind_finishArg (frame : Frame) : frame.finishArg.kind = frame.kind := by
  unfold Frame.finishArg
  split <;> rfl

theorem pendingOp_finishElementAt (position : Nat) (frame : Frame) :
    (finishElementAt position frame).pendingOp = none := by
  unfold finishElementAt
  split <;> rfl

theorem does_finishElement (guarded : c.Guarded g)
    (inside : c.frames ≠ [] → g.outer.length < c.frames.length) :
    finishElement.Does c fun _ later => c.Works g later := by
  rw [finishElement]
  refine does_position.bind ?_
  rintro position here ⟨rfl, -⟩
  refine does_modify ?_
  split
  · exact .refl guarded
  rename_i frame rest frames
  refine ⟨⟨fun method current => ?_, fun isChecked => ?_⟩, (Session.Untouched.refl _).reworks, rfl,
    fun _ => ?_⟩
  · have sits := guarded.sits method current
    obtain ⟨head, inner, all, each⟩ := exists_inner frames (le_of_frames inside rfl frames) sits
    exact ⟨sits.le, ⟨_ :: inner, congrArg (_ :: ·) all,
      forall_mem_cons.mpr ⟨sits_finishElementAt _ head, each⟩⟩, sits.targets⟩
  · have plain := guarded.plain isChecked
    rw [Compiler.Plain, frames] at plain
    obtain ⟨base, others⟩ := forall_mem_cons.mp plain
    refine forall_mem_cons.mpr ⟨base, forall_mem_cons.mpr ⟨?_, (forall_mem_cons.mp others).2⟩⟩
    rw [pendingOp_finishElementAt]
    exact fun _ held => by cases held
  · simp [Compiler.Alike, outline, frames, bracket_finishElementAt]

theorem alike_finishElement : finishElement.Alike :=
  Keeps.alike fun _ guarded => does_finishElement guarded length_pos_iff.mpr

theorem does_separate (guarded : c.Guarded g)
    (inside : c.frames ≠ [] → g.outer.length < c.frames.length) : separate.Does c fun _ later =>
      c.Works g later := by
  have argument : (modify (·.modifyFrame Frame.finishArg)).Keeps g := by
    refine keeps_modifyFrame kind_finishArg fun frame plan held => ?_
    unfold Frame.finishArg at held
    split at held <;> cases held
  rw [separate]
  refine does_get_bind ?_
  dsimp only
  split
  · exact keeps_flushReference.bind (fun _ => argument) c guarded
  · exact keeps_flushReference.bind (fun _ => argument) c guarded
  · refine (Does.counted keeps_flushReference.alike (keeps_flushReference c guarded)
      (.refl guarded)).bind ?_
    rintro _ flushed ⟨toFlushed, same⟩
    refine (does_finishElement toFlushed.guarded fun hasFrames => ?_).imp fun _ _ => toFlushed.trans
    rw [← length_pos_iff, same, length_pos_iff] at hasFrames
    exact same ▸ inside hasFrames
  · exact does_modify (works_of_site_eq guarded rfl fun _ => rfl)

theorem keeps_openSequence [g.Loose] : openSequence.Keeps g := by
  rw [openSequence]
  refine Keeps.bind (keeps_skip fun _ => rfl) fun _ => keeps_flushReference.bind fun _ => ?_
  intro c guarded
  refine does_get_bind ?_
  dsimp only
  split
  · exact does_pure_bind (does_modify (works_pushFrame guarded fun _ _ _ held => by cases held))
  refine does_position.bind ?_
  rintro start here ⟨rfl, atEnd⟩
  refine does_modify (works_pushFrame guarded fun method current => ?_)
  obtain rfl := atEnd method current
  rintro _ ⟨⟩
  exact (guarded.sits method current).le

theorem does_closeSequence [g.Loose] (guarded : c.Guarded g)
    (inside : c.frames ≠ [] → g.outer.length < c.frames.length) :
    closeSequence.Does c fun _ later => c.Works g later := by
  have stays : c.Works g c := .refl guarded
  rw [closeSequence]
  refine does_get_bind ?_
  split
  · exact does_report stays rfl
  split
  · exact does_report stays rfl
  refine does_modify_bind ?_
  have counted : c.Works g
      { c with nesting := { c.nesting with sequences := c.nesting.sequences - 1 } } :=
    works_of_site_eq guarded rfl Guard.loose
  refine (Does.counted keeps_flushReference.alike (keeps_flushReference _ counted.guarded)
    counted).bind ?_
  rintro _ flushed ⟨toFlushed, same⟩
  have insideFlushed : flushed.frames ≠ [] → g.outer.length < flushed.frames.length := by
    rw [← length_pos_iff, same, length_pos_iff]
    exact inside
  refine (Does.counted alike_finishElement (does_finishElement toFlushed.guarded insideFlushed)
    toFlushed).bind ?_
  rintro _ ended ⟨toEnded, stillSame⟩
  refine does_get_bind ?_
  split
  · exact does_pure toEnded
  rename_i frame rest frames
  refine does_modify_bind ?_
  have outside := le_of_frames inside (stillSame.trans same) frames
  have popped := works_popFrame frames outside toEnded.guarded
  have sits : ended.session.Here fun method => frame.kind.SitsAt g method :=
    fun method current => (exists_inner frames outside (toEnded.guarded.sits method current)).1
  have toPopped := toEnded.trans popped
  split
  · rename_i start elementStart elements kind
    rw [kind] at sits
    have lowers : (emitting fun table method =>
        .ok (method.lowerSequence table start elements)).Does { ended with frames := rest }
            fun _ later => Compiler.Works g { ended with frames := rest } later :=
      works_emitting popped.guarded fun method current here =>
        MethodDraft.edits_lowerSequence here.le (sits method current start rfl) _ elements
    refine lowers.bind fun emitted next toNext => ?_
    cases emitted with
    | done type => exact (keeps_pushOperand (some type)).does (toPopped.trans toNext)
    | refused | outside => exact does_pure (toPopped.trans toNext)
  · exact does_pure toPopped

end Compile

end OnePass
