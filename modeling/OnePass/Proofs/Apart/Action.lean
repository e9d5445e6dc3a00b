import OnePass.Proofs.Expression.OpenBody
import OnePass.Compiler.Build

/-! # What an action does not see

Three parts of the state are about the reading of tokens and not about what is compiled: the tokens
still to be read, whether the next word names a directive, and whether problems are dropped. They
are the *aside* of the state. Hardly any action looks at them. Such an action is `Compile.Apart`:
put beside another aside, it does the same and leaves the aside as it is. What it computes and
reports can then not depend on the aside (`Apart.aside_eq`). -/

namespace OnePass

/-- The part of the state that is about the reading of tokens. -/
structure Aside where
  stream : List Token
  inDirective : Bool
  tryRegion : Bool

namespace Compiler

/-- The aside of a state. -/
def aside (c : Compiler) : Aside := ⟨c.stream, c.inDirective, c.tryRegion⟩

/-- The state with another aside. -/
def beside (c : Compiler) (aside : Aside) : Compiler :=
  { c with stream := aside.stream, inDirective := aside.inDirective, tryRegion := aside.tryRegion }

@[simp]
theorem beside_aside (c : Compiler) : c.beside c.aside = c := rfl

@[simp]
theorem aside_beside (c : Compiler) (aside : Aside) : (c.beside aside).aside = aside := rfl

theorem modifyFrame_beside (change : Frame → Frame) (c : Compiler) (aside : Aside) :
    (c.beside aside).modifyFrame change = (c.modifyFrame change).beside aside := by
  unfold modifyFrame beside
  cases c.frames <;> rfl

end Compiler

namespace Compile

variable {α β : Type} {action : Compile α}

/-- What an action ends with, put beside an aside. -/
def outcomeBeside (aside : Aside) (outcome : Except Fault (α × Compiler × List Problem)) :
    Except Fault (α × Compiler × List Problem) :=
  outcome.map fun (a, later, problems) => (a, later.beside aside, problems)

/-- The action neither sees nor changes the aside. -/
def Apart (action : Compile α) : Prop :=
  ∀ (aside : Aside) (c : Compiler), action (c.beside aside) = outcomeBeside aside (action c)

theorem Apart.aside_eq (apart : action.Apart) {c later : Compiler} {a : α}
    {problems : List Problem} (ran : action c = .ok (a, later, problems)) :
    later.aside = c.aside := by
  -- The state lies beside its own aside, so the action ends there too.
  have same := apart c.aside c
  rw [Compiler.beside_aside, ran] at same
  have laterBeside : later = later.beside c.aside := by simpa [outcomeBeside, Except.map] using same
  rw [laterBeside, Compiler.aside_beside]

/-! ## Single actions -/

theorem apart_pure (a : α) : (pure a : Compile α).Apart := fun _ _ => rfl

theorem apart_lift (outcome : Except Fault α) : (liftM outcome : Compile α).Apart := by
  intro aside c
  cases outcome <;> rfl

theorem apart_reportAll (problems : List Problem) : (reportAll problems).Apart := fun _ _ => rfl

theorem apart_report (problem : Problem) : (report problem).Apart := fun _ _ => rfl

theorem apart_attempt (outcome : Except Failure α) : (attempt outcome).Apart := by
  intro aside c
  rcases outcome with (problem | fault) | a <;> rfl

theorem apart_modify {change : Compiler → Compiler}
    (same : ∀ aside c, change (c.beside aside) = (change c).beside aside) :
    (modify change).Apart := by
  intro aside c
  rw [modify_apply, modify_apply, same]
  rfl

theorem apart_modifyFrame (change : Frame → Frame) : (modify (·.modifyFrame change)).Apart :=
  apart_modify fun aside c => c.modifyFrame_beside change aside

/-! ## Actions put together -/

theorem Apart.bind {next : α → Compile β} (first : action.Apart)
    (second : ∀ a, (next a).Apart) : (action >>= next).Apart := by
  intro aside c
  simp only [Bind.bind, first aside c]
  -- The second action begins where the first ends, beside the same aside.
  cases action c with
  | error fault => rfl
  | ok outcome =>
    obtain ⟨a, later, problems⟩ := outcome
    simp only [outcomeBeside, Except.map, second a aside later]
    cases next a later <;> rfl

theorem apart_get_bind {next : Compiler → Compile β}
    (same : ∀ aside c, next (c.beside aside) = next c) (each : ∀ c, (next c).Apart) :
    (get >>= next).Apart := by
  intro aside c
  rw [get_bind_apply, get_bind_apply, same aside c]
  exact each c aside c

theorem apart_if_bind {condition : Prop} [Decidable condition] {action : Compile Unit}
    {next : Unit → Compile β} (first : action.Apart) (second : (next ()).Apart) :
    (if condition then action >>= next else next ()).Apart := by
  split
  · exact first.bind fun _ => second
  · exact second

/-! ## Reports -/

/-- The action does not look at the state and leaves it as it is. It can only look something up and
report it. -/
def Stateless (action : Compile α) : Prop :=
  ∀ c other : Compiler, action other = (action c).map fun (a, _, problems) => (a, other, problems)

theorem stateless_pure (a : α) : (pure a : Compile α).Stateless := fun _ _ => rfl

theorem stateless_lift (outcome : Except Fault α) : (liftM outcome : Compile α).Stateless := by
  intro c other
  cases outcome <;> rfl

theorem stateless_reportAll (problems : List Problem) : (reportAll problems).Stateless :=
  fun _ _ => rfl

theorem stateless_report (problem : Problem) : (report problem).Stateless :=
  stateless_reportAll [problem]

theorem Stateless.bind {next : α → Compile β} (first : action.Stateless)
    (second : ∀ a, (next a).Stateless) : (action >>= next).Stateless := by
  intro c other
  simp only [Bind.bind, first c other]
  rcases action c with fault | ⟨a, later, problems⟩
  · rfl
  · simp only [Except.map, second a later other]
    rcases next a later with fault | outcome <;> rfl

theorem stateless_if_bind {condition : Prop} [Decidable condition] {action : Compile Unit}
    {next : Unit → Compile β} (first : action.Stateless) (second : (next ()).Stateless) :
    (if condition then action >>= next else next ()).Stateless := by
  split
  · exact first.bind fun _ => second
  · exact second

theorem Stateless.apart (stateless : action.Stateless) : action.Apart := by
  intro aside c
  rw [stateless c (c.beside aside)]
  have same := stateless c c
  rcases ran : action c with fault | ⟨a, later, problems⟩
  · rfl
  · obtain rfl : later = c := by simpa [ran, Except.map] using same
    rfl

/-! ## Work on the session -/

theorem apart_onSession (work : Session → Except Failure (α × Session)) :
    (onSession work).Apart := by
  refine apart_get_bind (fun _ _ => rfl) fun c => (apart_attempt _).bind fun found => ?_
  cases found with
  | none => exact apart_pure none
  | some entry => exact Apart.bind (fun _ _ => rfl) fun _ => apart_pure _

theorem apart_closing (work : Session → Except Fault (Session × List Problem)) :
    (closing work).Apart := by
  refine apart_get_bind (fun _ _ => rfl) fun c => (apart_lift _).bind fun closed => ?_
  exact Apart.bind (fun _ _ => rfl) fun _ => apart_reportAll _

theorem apart_emitting (work : SymbolTable → MethodDraft → Except Failure (α × MethodDraft)) :
    (emitting work).Apart := by
  refine apart_get_bind (fun _ _ => rfl) fun c => (apart_lift _).bind fun found => ?_
  cases found with
  | none => exact (apart_report _).bind fun _ => apart_pure _
  | some method =>
    refine (apart_attempt _).bind fun done => ?_
    cases done with
    | none => exact apart_pure _
    | some entry =>
      exact (apart_lift _).bind fun session => Apart.bind (fun _ _ => rfl) fun _ => apart_pure _

theorem apart_emit (work : MethodDraft → MethodDraft) : (emit work).Apart :=
  (apart_emitting _).bind fun _ => apart_pure ()

theorem apart_position : position?.Apart :=
  apart_get_bind (fun _ _ => rfl) fun _ => (apart_lift _).bind fun _ => apart_pure _

end Compile

end OnePass
