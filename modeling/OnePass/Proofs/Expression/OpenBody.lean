import Mathlib
import OnePass.Proofs.Expression.Syntax

/-! # Sessions that differ in the code of one method

While an expression is read, only the code of the current method changes. An `OpenBody` is a session
with an open method, and `OpenBody.sessionWith code` is the session in which the method has some
code. What names mean does not depend on the code (`resolveCallSite_sessionWith`,
`resolveCallee_sessionWith`), and emission goes from one such session to another (`emitting_eq`). -/

namespace OnePass

open Session

/-! ## Actions without problems -/

namespace Compile

variable {α β : Type} {c c' : Compiler}

theorem bind_eq {action : Compile α} {next : α → Compile β} {a : α}
    (ran : action c = .ok (a, c', [])) : (action >>= next) c = next a c' := by
  simp only [bind, ran]
  split <;> simp_all

@[simp]
theorem pure_apply (a : α) : (pure a : Compile α) c = .ok (a, c, []) := rfl

instance : LawfulMonad Compile := by
  refine LawfulMonad.mk' Compile (fun action => ?_) (fun a next => funext fun c => bind_eq rfl)
    fun action next last => funext fun c => ?_
  · funext c
    simp only [Functor.map]
    rcases action c with fault | ⟨a, later, problems⟩
    · rfl
    · simp only [Function.comp, id, List.append_nil]
  · rcases first : action c with fault | ⟨a, mid, problems⟩
    · simp only [bind, first]
    rcases second : next a mid with fault | ⟨b, late, more⟩
    · simp only [bind, first, second]
    rcases third : last b late with fault | ⟨d, done, others⟩
    · simp only [bind, first, second, third]
    · simp only [bind, first, second, third, List.append_assoc]

@[simp]
theorem pure_bind_apply (a : α) (next : α → Compile β) : (pure a >>= next) c = next a c :=
  congrFun (pure_bind a next) c

@[simp]
theorem bind_bind_apply {γ : Type} (action : Compile α) (next : α → Compile β)
    (last : β → Compile γ) : ((action >>= next) >>= last) c =
      (action >>= fun a => next a >>= last) c :=
  congrFun (bind_assoc action next last) c

@[simp]
theorem get_bind_apply (next : Compiler → Compile β) : (get >>= next) c = next c c := bind_eq rfl

@[simp]
theorem modify_apply (change : Compiler → Compiler) : modify change c = .ok ((), change c, []) := rfl

@[simp]
theorem modify_bind_apply (change : Compiler → Compiler) (next : Unit → Compile β) :
    (modify change >>= next) c = next () (change c) :=
  bind_eq rfl

@[simp]
theorem lift_ok_bind_apply (a : α) (next : α → Compile β) :
    ((liftM (Except.ok a : Except Fault α) : Compile α) >>= next) c = next a c :=
  bind_eq rfl

@[simp]
theorem attempt_ok_bind_apply (a : α) (next : Option α → Compile β) :
    (attempt (.ok a) >>= next) c = next (some a) c :=
  bind_eq rfl

end Compile

/-! ## Open bodies -/

/-- A session whose current type has an open method, and the namespaces that are searched in it. -/
structure OpenBody where
  session : Session
  usings : List String
  /-- the position of the current type among the drafts -/
  index : Nat
  type : TypeDraft
  method : MethodDraft
  current : session.current? = .ok (some (index, type))
  open_eq : type.currentMethod? = some method

namespace OpenBody

variable (body : OpenBody) (code : List Instruction)

/-- Where names get their meanings. -/
def scope : Scope := ⟨body.session, body.usings⟩

/-- The method with some code. -/
def methodWith : MethodDraft := { body.method with code := code }

/-- The type, its method with some code. -/
def typeWith : TypeDraft := body.type.setMethod (body.methodWith code)

/-- The session, its current method with some code. -/
def sessionWith : Session := body.session.setDraft body.index (body.typeWith code)

@[simp]
theorem table_sessionWith : (body.sessionWith code).table = body.session.table := rfl

theorem draft_eq : body.session.drafts[body.index]? = some body.type ∧ body.type.isOpen = true ∧
    body.session.openTypes.head?.or body.session.defaultType = some body.index := by
  have current := body.current
  unfold current? at current
  split at current
  · simp at current
  · rename_i index found
    unfold Session.draft at current
    split at current
    · rename_i draft here
      simp only [bind, Except.bind, pure, Except.pure, Except.ok.injEq] at current
      split at current
      · simp_all
      · simp at current
    · simp [bind, Except.bind] at current

@[simp]
theorem current_sessionWith :
    (body.sessionWith code).current? = .ok (some (body.index, body.typeWith code)) := by
  obtain ⟨found, isOpen, index⟩ := body.draft_eq
  have inRange : body.index < body.session.drafts.length := (List.getElem?_eq_some_iff.mp found).1
  -- The draft at the position is replaced; which position it is, and whether the type is open,
  -- stays.
  have draft : (body.sessionWith code).draft body.index = .ok (body.typeWith code) := by
    simp [Session.draft, sessionWith, setDraft, inRange]
  have opened : (body.typeWith code).isOpen = true := isOpen
  have head : (body.sessionWith code).openTypes.head?.or (body.sessionWith code).defaultType =
      some body.index := index
  simp [current?, head, draft, opened, bind, Except.bind, pure, Except.pure]

@[simp]
theorem currentType_sessionWith :
    (body.sessionWith code).currentType? = .ok (some (body.typeWith code)) := by
  simp [currentType?, bind, Except.bind, pure, Except.pure]

@[simp]
theorem currentMethod_sessionWith :
    (body.sessionWith code).currentMethod? = .ok (some (body.methodWith code)) := by
  simp [currentMethod?, typeWith, TypeDraft.setMethod, TypeDraft.currentMethod?, bind, Except.bind,
    pure, Except.pure]

@[simp]
theorem setMethod_sessionWith (code' : List Instruction) :
    (body.sessionWith code).setMethod (body.methodWith code') = .ok (body.sessionWith code') := by
  have tails : (body.typeWith code).setMethod (body.methodWith code') = body.typeWith code' := by
    simp [typeWith, TypeDraft.setMethod]
  have sets : (body.sessionWith code).setDraft body.index (body.typeWith code') =
      body.sessionWith code' := by
    simp only [sessionWith, setDraft, List.set_set]
  simp only [setMethod, modifyType, current_sessionWith, tails, sets, bind, Except.bind, pure,
    Except.pure]

theorem sessionWith_own : body.sessionWith body.method.code = body.session := by
  obtain ⟨found, -, -⟩ := body.draft_eq
  obtain ⟨inRange, here⟩ := List.getElem?_eq_some_iff.mp found
  have methods : body.method :: body.type.openMethods.tail = body.type.openMethods :=
    List.cons_head?_tail body.open_eq
  have own : body.typeWith body.method.code = body.type := by
    simp only [typeWith, TypeDraft.setMethod, methodWith, methods]
  simp only [sessionWith, setDraft, own, ← here, List.set_getElem_self]

theorem sessionWith_injective : Function.Injective body.sessionWith := by
  intro code other same
  have methods := (body.currentMethod_sessionWith code).symm.trans
    ((congrArg currentMethod? same).trans (body.currentMethod_sessionWith other))
  simpa [methodWith] using methods

/-! ## Meanings of names -/

theorem currentType_session : body.session.currentType? = .ok (some body.type) := by
  simp only [currentType?, body.current, bind, Except.bind, pure, Except.pure, Option.map_some]

theorem currentMethod_session : body.session.currentMethod? = .ok (some body.method) := by
  simp only [currentMethod?, body.currentType_session, bind, Except.bind, pure, Except.pure,
    Option.bind_some, body.open_eq]

theorem get_methodWith (name : String) : (body.methodWith code).get? name = body.method.get? name :=
  rfl

theorem lookupVar_sessionWith (name : String) :
    (body.sessionWith code).lookupVar name = body.session.lookupVar name := by
  simp only [lookupVar, currentMethod_sessionWith, currentMethod_session, bind, Except.bind, pure,
    Except.pure, Option.bind_some, get_methodWith]

theorem findScriptFunction_sessionWith (name : String) :
    (body.sessionWith code).findScriptFunction name = body.session.findScriptFunction name := rfl

theorem localCallTarget_sessionWith (name : String) :
    (body.sessionWith code).localCallTarget name = body.session.localCallTarget name := by
  simp only [localCallTarget, findScriptFunction_sessionWith, currentType_sessionWith,
    currentType_session, currentMethod_sessionWith, currentMethod_session, table_sessionWith]
  rfl

theorem ownedCallTarget_sessionWith (owner usings : List String) :
    (body.sessionWith code).ownedCallTarget owner usings = body.session.ownedCallTarget
      owner usings := by
  simp only [ownedCallTarget, lookupVar_sessionWith, table_sessionWith]

/-- Where a call goes does not depend on the code. -/
theorem resolveCallSite_sessionWith (path usings : List String) :
    (body.sessionWith code).resolveCallSite path usings = body.session.resolveCallSite
      path usings := by
  simp only [resolveCallSite, localCallTarget_sessionWith, ownedCallTarget_sessionWith]

/-- Which method a call means does not depend on the code. -/
theorem resolveCallee_sessionWith (site : CallSite) (args : List (Option TypeId)) :
    (body.sessionWith code).resolveCallee site args = body.session.resolveCallee site args := by
  simp only [resolveCallee, findScriptFunction_sessionWith, table_sessionWith]

theorem resolveReference_sessionWith {name : String} {var : LocalVar}
    (found : body.session.lookupVar name = .ok (some var)) (usings : List String) :
    (body.sessionWith code).resolveReference [name] usings = .ok (.var var) := by
  simp only [resolveReference, resolveSingle, lookupVar_sessionWith, found, bind, Except.bind,
    pure, Except.pure]

/-! ## Emission -/

theorem emitting_eq {α : Type} {body : OpenBody} {code code' : List Instruction} {c : Compiler}
    (session : c.session = body.sessionWith code)
    {work : SymbolTable → MethodDraft → Except Failure (α × MethodDraft)} {a : α}
    (worked : work body.session.table (body.methodWith code) = .ok (a, body.methodWith code')) :
    Compile.emitting work c = .ok (.done a, { c with session := body.sessionWith code' }, []) := by
  simp [Compile.emitting, session, worked, -bind_pure_comp]

end OpenBody

end OnePass
