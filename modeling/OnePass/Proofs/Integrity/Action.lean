import OnePass.Proofs.Integrity.Closing
import OnePass.Proofs.Integrity.Reference

/-! # Safe actions

The state of the compiler is sound if everything that it refers to exists: the session, the frames
of the expression under way, what is to be assigned, and the result that was dropped. An action is
*safe* in a state if it ends in a sound state without losing a symbol and its result holds symbols
of the table, or else in a permitted fault (`Compile.Safe`). There is a rule for each way to put
actions together. -/

namespace OnePass

open SymbolTable (holds_nil)

/-- Everything that the compiler refers to exists, and a dot asks for a segment only after one. -/
structure Compiler.Sound (c : Compiler) : Prop where
  session : c.session.Sound
  consume : c.session.table.Holds c.consume.symbols
  base : c.session.table.Holds c.base.symbols
  frames : ∀ frame ∈ c.frames, c.session.table.Holds frame.symbols
  lastDeclared : ∀ target ∈ c.lastDeclared, c.session.table.Holds target.symbols
  retractable : c.session.table.Holds (typeSymbols c.retractable)
  named : c.literals = [] → c.expectLiteral = false

/-- What the compiler reads from: the tokens still to come, and what decides which tokens an import
adds. -/
structure Input where
  files : FileTree
  directories : Path × Path
  imported : List String
  stream : List Token

/-- Tokens were taken from the front of the stream, and nothing else changed. -/
def Input.Takes (input later : Input) : Prop :=
  ∃ taken, input = { later with stream := taken ++ later.stream }

theorem Input.Takes.refl (input : Input) : input.Takes input := ⟨[], rfl⟩

theorem Input.Takes.trans {input later last : Input} (first : input.Takes later)
    (second : later.Takes last) : input.Takes last := by
  obtain ⟨taken, rfl⟩ := first
  obtain ⟨more, rfl⟩ := second
  exact ⟨taken ++ more, by simp⟩

/-- The input of the compiler. -/
def Compiler.input (c : Compiler) : Input := ⟨c.files, c.session.options.directories,
      c.imported, c.stream⟩

/-- The state became a sound one without losing a symbol, and no tokens were added. -/
structure Compiler.Evolves (c later : Compiler) : Prop where
  sound : later.Sound
  grows : c.session.table.Grows later.session.table
  input : c.input.Takes later.input

namespace Compiler

variable {c later : Compiler}

theorem Evolves.trans {last : Compiler} (first : c.Evolves later) (second : later.Evolves last) :
    c.Evolves last :=
  ⟨second.sound, first.grows.trans second.grows, first.input.trans second.input⟩

namespace Sound

variable (sound : c.Sound)

include sound

theorem refl : c.Evolves c := ⟨sound, .refl _, .refl _⟩

/-- The session may evolve: whatever the rest of the state holds is still there. -/
theorem withSession {session : Session} (evolves : c.session.Evolves session) :
    c.Evolves { c with session := session } where
  grows := evolves.grows
  input := ⟨[], by simp [Compiler.input, evolves.directories]⟩
  sound :=
    { session := evolves.sound
      consume := sound.consume.grow evolves.grows
      base := sound.base.grow evolves.grows
      frames := fun frame here => (sound.frames frame here).grow evolves.grows
      lastDeclared := fun target here => (sound.lastDeclared target here).grow evolves.grows
      retractable := sound.retractable.grow evolves.grows
      named := sound.named }

theorem frame : c.session.table.Holds c.frame.symbols := by
  unfold Compiler.frame
  cases frames : c.frames with
  | nil => exact sound.base
  | cons frame rest => exact sound.frames frame (by simp [frames])

theorem frames_cons {frame : Frame} {rest : List Frame} (frames : c.frames = frame :: rest) :
    c.session.table.Holds frame.symbols ∧ ∀ outer ∈ rest, c.session.table.Holds outer.symbols := by
  have known := sound.frames
  rw [frames] at known
  exact List.forall_mem_cons.mp known

theorem modifyFrame {change : Frame → Frame}
    (changes : ∀ frame, c.session.table.Holds frame.symbols →
      c.session.table.Holds (change frame).symbols) :
    c.Evolves (c.modifyFrame change) := by
  unfold Compiler.modifyFrame
  split
  · exact ⟨{ sound with base := changes c.base sound.base }, .refl _, .refl _⟩
  · rename_i frame rest frames
    obtain ⟨inFrame, others⟩ := sound.frames_cons frames
    exact ⟨{ sound with frames := List.forall_mem_cons.mpr ⟨changes frame inFrame, others⟩ },
      .refl _, .refl _⟩

theorem modifyBase {change : Frame → Frame}
    (changes : ∀ frame, c.session.table.Holds frame.symbols →
      c.session.table.Holds (change frame).symbols) :
    c.Evolves (c.modifyBase change) :=
  ⟨{ sound with base := changes c.base sound.base }, .refl _, .refl _⟩

theorem popFrame {frame : Frame} {rest : List Frame} (frames : c.frames = frame :: rest) :
    c.Evolves { c with frames := rest } :=
  ⟨{ sound with frames := (sound.frames_cons frames).2 }, .refl _, .refl _⟩

theorem withNesting (nesting : Nesting) : c.Evolves { c with nesting := nesting } :=
  ⟨{ sound with }, .refl _, .refl _⟩

theorem pushFrame {kind : FrameKind} (known : c.session.table.Holds kind.symbols) :
    c.Evolves (c.pushFrame kind) := by
  have opened : c.session.table.Holds ({ kind := kind } : Frame).symbols := by
    simpa [Frame.symbols, typeSymbols] using known
  exact ⟨{ sound with frames := List.forall_mem_cons.mpr ⟨opened, sound.frames⟩ }, .refl _, .refl _⟩

end Sound

end Compiler

namespace Compile

variable {α β : Type} {c : Compiler} {held : α → List Symbol} {heldNext : β → List Symbol}
  {next : α → Compile β}

/-- The action ends in a sound state that has all symbols of the one before and those of the result,
or else in a permitted fault. -/
def Safe (action : Compile α) (c : Compiler) (held : α → List Symbol := fun _ => []) : Prop :=
  Ensures (action c) fun (a, later, _) => c.Evolves later ∧ later.session.table.Holds (held a)

/-! ## Rules -/

theorem safe_pure (sound : c.Sound) {a : α} (holds : c.session.table.Holds (held a)) :
    (pure a : Compile α).Safe c held :=
  ⟨sound.refl, holds⟩

theorem safe_return (sound : c.Sound) : (pure () : Compile Unit).Safe c := safe_pure sound holds_nil

/-- An action and one that follows it: what holds of the last outcome holds after the second, with
the problems of both. -/
theorem ensures_bind_run {action : Compile α} {post : β × Compiler × List Problem → Prop} :
    Ensures ((action >>= next) c) post ↔
      Ensures (action c) fun (a, later, problems) =>
        Ensures (next a later) fun (b, last, more) => post (b, last, problems ++ more) := by
  simp only [Bind.bind]
  cases action c with
  | error fault => rfl
  | ok outcome =>
    obtain ⟨a, later, problems⟩ := outcome
    simp only [ensures_ok]
    cases next a later <;> rfl

theorem Safe.bind {action : Compile α} (first : action.Safe c held)
    (second : ∀ a later, c.Evolves later → later.session.table.Holds (held a) →
      (next a).Safe later heldNext) :
    (action >>= next).Safe c heldNext :=
  ensures_bind_run.mpr <| first.imp fun (a, later, _) ⟨toLater, holds⟩ =>
    (second a later toLater holds).imp fun _ ⟨toLast, inLast⟩ => ⟨toLater.trans toLast, inLast⟩

theorem safe_get_bind {next : Compiler → Compile β} : (get >>= next).Safe c heldNext ↔
      (next c).Safe c heldNext :=
  ensures_bind_run

theorem safe_pure_bind {a : α} :
    (pure a >>= next : Compile β).Safe c heldNext ↔ (next a).Safe c heldNext :=
  ensures_bind_run

theorem safe_modify {change : Compiler → Compiler} (evolves : c.Evolves (change c)) :
    (modify change).Safe c :=
  ⟨evolves, holds_nil⟩

theorem safe_modify_bind {change : Compiler → Compiler} {next : Unit → Compile β}
    (evolves : c.Evolves (change c)) (rest : (next ()).Safe (change c) heldNext) :
    (modify change >>= next).Safe c heldNext :=
  ensures_bind_run.mpr (rest.imp fun _ ⟨toLast, holds⟩ => ⟨evolves.trans toLast, holds⟩)

theorem safe_reportAll (sound : c.Sound) (problems : List Problem) : (reportAll problems).Safe c :=
  ⟨sound.refl, holds_nil⟩

theorem safe_report (sound : c.Sound) (problem : Problem) : (report problem).Safe c :=
  safe_reportAll sound _

theorem safe_reportAll_bind {problems : List Problem} {next : Unit → Compile β} :
    (reportAll problems >>= next).Safe c heldNext ↔ (next ()).Safe c heldNext :=
  ensures_bind_run

theorem safe_report_bind {problem : Problem} {next : Unit → Compile β} :
    (report problem >>= next).Safe c heldNext ↔ (next ()).Safe c heldNext :=
  safe_reportAll_bind

theorem safe_lift {outcome : Except Fault α} (sound : c.Sound)
    (ensures : Ensures outcome fun a => c.session.table.Holds (held a)) :
    (liftM outcome : Compile α).Safe c held := by
  cases outcome with
  | ok a => exact ⟨sound.refl, ensures⟩
  | error fault => exact ensures

theorem safe_lift_bind {outcome : Except Fault α} {p : α → Prop}
    (ensures : Ensures outcome p) (rest : ∀ a, p a → (next a).Safe c heldNext) :
    (liftM outcome >>= next : Compile β).Safe c heldNext := by
  cases outcome with
  | ok a => exact safe_pure_bind.mpr (rest a ensures)
  | error fault => exact ensures

theorem safe_attempt_bind {outcome : Except Failure α} {p : α → Prop} {next : Option α → Compile β}
    (ensures : Ensures outcome p) (done : ∀ a, p a → (next (some a)).Safe c heldNext)
    (refused : (next none).Safe c heldNext) : (attempt outcome >>= next).Safe c heldNext := by
  cases outcome with
  | ok a => exact safe_pure_bind.mpr (done a ensures)
  | error failure =>
    cases failure with
    | fault fault => exact ensures
    | problem problem => exact ensures_bind_run.mpr refused

/-! ## Work on the session -/

/-- The symbols of what an emission left. -/
def Emitted.symbols (held : α → List Symbol) : Emitted α → List Symbol
  | done a => held a
  | outside | refused => []

theorem safe_emitting (held : α → List Symbol) (sound : c.Sound)
    {work : SymbolTable → MethodDraft → Except Failure (α × MethodDraft)}
    (works : ∀ method, c.session.table.Holds method.symbols →
      Ensures (work c.session.table method) fun (a, later) =>
        c.session.table.Holds (held a) ∧ c.session.table.Holds later.symbols) :
    (emitting work).Safe c (Emitted.symbols held) := by
  rw [emitting, safe_get_bind]
  refine safe_lift_bind sound.session.ensures_currentMethod fun found holds => ?_
  cases found with
  | none =>
    rw [safe_report_bind]
    exact safe_pure sound holds_nil
  | some method =>
    refine safe_attempt_bind (works method (holds method rfl))
      (fun (a, later) ⟨inResult, inLater⟩ => ?_) (safe_pure sound holds_nil)
    -- The method is put back, which leaves the table as it is.
    refine safe_lift_bind (sound.session.ensures_setMethod inLater) fun session ⟨toLater, _⟩ => ?_
    have evolves := sound.withSession toLater
    refine safe_modify_bind evolves (safe_pure evolves.sound ?_)
    exact inResult.grow evolves.grows

theorem safe_emit (sound : c.Sound) {work : MethodDraft → MethodDraft}
    (works : ∀ method, c.session.table.Holds method.symbols →
      c.session.table.Holds (work method).symbols) :
    (emit work).Safe c := by
  have emitted : (emitting fun _ method => .ok ((), work method)).Safe c
      (Emitted.symbols fun _ => []) :=
    safe_emitting _ sound fun method holds => ⟨holds_nil, works method holds⟩
  exact emitted.bind fun _ later evolves _ => safe_return evolves.sound

theorem safe_onSession (sound : c.Sound) {work : Session → Except Failure (α × Session)}
    (works : Ensures (work c.session) fun (a, later) => c.session.Evolves later ∧
      later.table.Holds (held a)) :
    (onSession work).Safe c fun result => result.toList.flatMap held := by
  rw [onSession, safe_get_bind]
  refine safe_attempt_bind works (fun (a, session) ⟨evolves, holds⟩ => ?_)
    (safe_pure sound (by simp))
  have changed := sound.withSession evolves
  exact safe_modify_bind changed (safe_pure changed.sound (by simpa using holds))

theorem safe_position (sound : c.Sound) : position?.Safe c := by
  rw [position?, safe_get_bind]
  exact safe_lift_bind sound.session.ensures_currentMethod fun _ _ => safe_pure sound holds_nil

/-! ## Closing -/

/-- The action ends in a sound state that has all symbols of the one before, or else in a fault in
which a build can end. -/
def Closes (action : Compile Unit) (c : Compiler) : Prop := Ends (action c) fun (_, later, _) =>
      c.Evolves later

theorem Safe.closes {action : Compile Unit} (safe : action.Safe c) : action.Closes c :=
  (Ensures.ends safe).imp fun _ => And.left

theorem ends_bind_run {action : Compile α} {next : α → Compile β}
    {post : β × Compiler × List Problem → Prop} : Ends ((action >>= next) c) post ↔
      Ends (action c) fun (a, later, problems) =>
        Ends (next a later) fun (b, last, more) => post (b, last, problems ++ more) := by
  simp only [Bind.bind]
  cases action c with
  | error fault => rfl
  | ok outcome =>
    obtain ⟨a, later, problems⟩ := outcome
    simp only [ends_ok]
    cases next a later <;> rfl

theorem Safe.bind_closes {action : Compile α} {next : α → Compile Unit} (first : action.Safe c held)
    (second : ∀ a later, c.Evolves later → (next a).Closes later) : (action >>= next).Closes c :=
  ends_bind_run.mpr <| (Ensures.ends first).imp fun (a, later, _) ⟨toLater, _⟩ =>
    (second a later toLater).imp fun _ toLast => toLater.trans toLast

theorem closes_get_bind {next : Compiler → Compile Unit} : (get >>= next).Closes c ↔
      (next c).Closes c := ends_bind_run

theorem closes_lift_bind {outcome : Except Fault α} {p : α → Prop} {next : α → Compile Unit}
    (ends : Ends outcome p) (rest : ∀ a, p a → (next a).Closes c) :
    (liftM outcome >>= next : Compile Unit).Closes c := by
  cases outcome with
  | ok a => exact ends_bind_run.mpr (rest a ends)
  | error fault => exact ends

theorem closes_closing (sound : c.Sound) {work : Session → Except Fault (Session × List Problem)}
    (works : Ends (work c.session) fun (later, _) => c.session.Evolves later) :
    (closing work).Closes c := by
  rw [closing, closes_get_bind]
  refine closes_lift_bind works fun (session, problems) evolves => ?_
  have changed := sound.withSession evolves
  exact (safe_modify_bind changed (safe_reportAll changed.sound problems)).closes

end Compile

end OnePass
