import OnePass.Compiler.Build
import Mathlib.Data.List.Basic

/-! # What an operation ensures

`Ensures r post` says of the outcome of an operation that a result meets a condition and that only a
permitted error stops it. A problem of the program may always stop an operation; the one fault that
may is a store to a final variable that is not there. Where methods are closed, a branch that is not
there may stop the operation too: `Ends r post` says this. The rules follow the constructs with
which operations are put together. -/

namespace OnePass

open List

/-- The faults in which a build can end: a store to a final variable that the current method does
not have, and a branch whose instruction is no longer there. -/
def Fault.Permitted : Fault → Prop
  | noSuchFinal | noSuchBranch => True
  | _ => False

theorem Fault.permitted_iff {fault : Fault} : fault.Permitted ↔ fault = .noSuchFinal ∨
      fault = .noSuchBranch := by
  cases fault <;> simp [Permitted]

/-- Errors, some of which are permitted. -/
class Stops (ε : Type) where
  Permitted : ε → Prop

instance : Stops Fault where
  Permitted fault := fault = .noSuchFinal

instance : Stops Problem where
  Permitted _ := True

instance : Stops Failure where
  Permitted
    | .problem _ => True
    | .fault fault => fault = .noSuchFinal

/-- A result meets the condition, and only a permitted error stops the operation. -/
def Ensures {ε α : Type} [Stops ε] (outcome : Except ε α) (post : α → Prop) : Prop :=
  match outcome with
  | .ok a => post a
  | .error error => Stops.Permitted error

section Rules

variable {ε α β : Type} [Stops ε] {post : β → Prop} {outcome : Except ε α}

@[simp]
theorem ensures_ok {b : β} : Ensures (.ok b : Except ε β) post ↔ post b := Iff.rfl

@[simp]
theorem ensures_pure {b : β} : Ensures (pure b : Except ε β) post ↔ post b := Iff.rfl

@[simp]
theorem ensures_problem {problem : Problem} : Ensures (.error problem) post := trivial

@[simp]
theorem ensures_throw_problem {problem : Problem} :
    Ensures (throw (.problem problem) : Except Failure β) post :=
  trivial

@[simp]
theorem ensures_bind {next : α → Except ε β} :
    Ensures (outcome >>= next) post ↔ Ensures outcome fun a => Ensures (next a) post := by
  cases outcome <;> rfl

@[simp]
theorem ensures_lift_fault {outcome : Except Fault β} :
    Ensures (liftM outcome : Except Failure β) post ↔ Ensures outcome post := by
  cases outcome <;> rfl

theorem ensures_fault_bind {outcome : Except Fault α} {next : α → Except Failure β} :
    Ensures (liftM outcome >>= next) post ↔ Ensures outcome fun a => Ensures (next a) post := by
  rw [ensures_bind, ensures_lift_fault]

@[simp]
theorem ensures_lift_problem {outcome : Except Problem β} :
    Ensures (liftM outcome : Except Failure β) post ↔ Ensures outcome post := by
  cases outcome <;> rfl

theorem Ensures.imp {p q : α → Prop} (ensures : Ensures outcome p)
    (implies : ∀ a, p a → q a) : Ensures outcome q := by
  cases outcome with
  | ok a => exact implies a ensures
  | error error => exact ensures

theorem Ensures.of_ok {p : α → Prop} (ensures : Ensures outcome p) {a : α}
    (result : outcome = .ok a) : p a := by
  subst result
  exact ensures

omit [Stops ε] in
/-- What an operation ensures whatever is permitted to stop it, it does. -/
theorem exists_of_ensures {p : α → Prop} (ensures : ∀ [Stops ε], Ensures outcome p) :
    ∃ a, outcome = .ok a ∧ p a := by
  have reached := @ensures ⟨fun _ => False⟩
  cases outcome with
  | ok a => exact ⟨a, rfl, reached⟩
  | error error => exact reached.elim

end Rules

/-! ## Closing -/

/-- A result meets the condition, and only a fault in which a build can end stops the operation. -/
def Ends {α : Type} (outcome : Except Fault α) (post : α → Prop) : Prop :=
  match outcome with
  | .ok a => post a
  | .error fault => fault.Permitted

section Closing

variable {α β : Type} {post : β → Prop} {outcome : Except Fault α}

@[simp]
theorem ends_ok {b : β} : Ends (.ok b) post ↔ post b := Iff.rfl

@[simp]
theorem ends_pure {b : β} : Ends (pure b) post ↔ post b := Iff.rfl

@[simp]
theorem ends_bind {next : α → Except Fault β} :
    Ends (outcome >>= next) post ↔ Ends outcome fun a => Ends (next a) post := by
  cases outcome <;> rfl

theorem Ends.imp {p q : α → Prop} (ends : Ends outcome p) (implies : ∀ a, p a → q a) :
    Ends outcome q := by
  cases outcome with
  | ok a => exact implies a ends
  | error fault => exact ends

theorem Ends.of_ok {p : α → Prop} (ends : Ends outcome p) {a : α}
    (result : outcome = .ok a) : p a := by
  subst result
  exact ends

theorem Ensures.ends {p : α → Prop} (ensures : Ensures outcome p) : Ends outcome p := by
  cases outcome with
  | ok a => exact ensures
  | error fault => exact Fault.permitted_iff.mpr (.inl ensures)

end Closing

/-! ## Lists -/

section Lists

variable {ε α β : Type} [Stops ε] {list : List α} {p : α → Except ε Bool}

theorem ensures_mapM {f : α → Except ε β} {post : β → Prop}
    (each : ∀ a ∈ list, Ensures (f a) post) : Ensures (list.mapM f) fun results => ∀ b ∈ results,
      post b := by
  induction list with
  | nil => exact forall_mem_nil _
  | cons a list ih =>
    rw [mapM_cons, ensures_bind]
    refine (each a mem_cons_self).imp fun b first => ?_
    rw [ensures_bind]
    refine (ih fun a here => each a (mem_cons_of_mem _ here)).imp fun others rest => ?_
    exact forall_mem_cons.mpr ⟨first, rest⟩

theorem ensures_findSomeM? {f : α → Except ε (Option β)} {post : β → Prop}
    (each : ∀ a ∈ list, Ensures (f a) fun found => ∀ b ∈ found, post b) :
    Ensures (list.findSomeM? f) fun found => ∀ b ∈ found, post b := by
  induction list with
  | nil => simp [findSomeM?]
  | cons a list ih =>
    rw [findSomeM?, ensures_bind]
    refine (each a mem_cons_self).imp fun found here => ?_
    cases found with
    | none => exact ih fun a here => each a (mem_cons_of_mem _ here)
    | some b => exact here

theorem ensures_findM? (each : ∀ a ∈ list, Ensures (p a) fun _ => True) :
    Ensures (list.findM? p) fun found => ∀ a ∈ found, a ∈ list := by
  induction list with
  | nil => simp [findM?]
  | cons a list ih =>
    rw [findM?, ensures_bind]
    refine (each a mem_cons_self).imp fun found _ => ?_
    cases found with
    | true => simp
    | false =>
      refine (ih fun a here => each a (mem_cons_of_mem _ here)).imp fun found later b here => ?_
      exact mem_cons_of_mem _ (later b here)

theorem ensures_anyM (each : ∀ a ∈ list, Ensures (p a) fun _ => True) :
    Ensures (list.anyM p) fun _ => True := by
  induction list with
  | nil => trivial
  | cons a list ih =>
    rw [anyM, ensures_bind]
    refine (each a mem_cons_self).imp fun found _ => ?_
    cases found with
    | true => trivial
    | false => exact ih fun a here => each a (mem_cons_of_mem _ here)

theorem ensures_allM (each : ∀ a ∈ list, Ensures (p a) fun _ => True) :
    Ensures (list.allM p) fun _ => True := by
  induction list with
  | nil => trivial
  | cons a list ih =>
    rw [allM, ensures_bind]
    refine (each a mem_cons_self).imp fun found _ => ?_
    cases found with
    | true => exact ih fun a here => each a (mem_cons_of_mem _ here)
    | false => trivial

end Lists

end OnePass
