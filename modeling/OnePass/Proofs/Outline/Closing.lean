import OnePass.Proofs.Outline.Action

/-! # What closing reports

When methods and types are closed, all that can be wrong is that a label, a base or an interface is
not there or not of the right kind. `Session.ofClosing_finish` says so of a whole session. -/

namespace OnePass

/-- Whether a problem is about a label, a base or an interface. -/
def Problem.isOfClosing : Problem → Bool
  | undefinedLabel _ | unknownBase _ | baseIsInterface _ | unknownInterface _ | notAnInterface _ =>
      true
  | _ => false

/-- The problems are about labels, bases and interfaces. -/
def OfClosing (problems : List Problem) : Prop := ∀ problem ∈ problems, problem.isOfClosing = true

section OfClosing

variable {problems more : List Problem} {problem : Problem}

theorem ofClosing_nil : OfClosing [] := List.forall_mem_nil _

theorem OfClosing.cons (first : problem.isOfClosing = true) (rest : OfClosing problems) :
    OfClosing (problem :: problems) :=
  List.forall_mem_cons.mpr ⟨first, rest⟩

theorem OfClosing.append (first : OfClosing problems) (rest : OfClosing more) :
    OfClosing (problems ++ more) :=
  List.forall_mem_append.mpr ⟨first, rest⟩

end OfClosing

/-! ## Methods -/

namespace MethodDraft

theorem ofClosing_resolveFixups (labels : List (String × UInt32)) (fixups : List Fixup)
    (code : List Instruction) : Gives (resolveFixups labels fixups code) fun (_, problems) =>
      OfClosing problems := by
  induction fixups generalizing code with
  | nil => exact ofClosing_nil
  | cons fixup rest ih =>
    rw [resolveFixups]
    split
    · rw [gives_bind]
      exact (ih code).imp fun _ others => .cons rfl others
    · split
      · exact ih _
      · exact gives_error

theorem ofClosing_finish (draft : MethodDraft) : Gives draft.finish fun (_, problems) =>
      OfClosing problems := by
  rw [finish, gives_bind]
  exact (ofClosing_resolveFixups _ _ _).imp fun _ problems => problems

end MethodDraft

/-! ## Types -/

namespace TypeDraft

theorem ofClosing_finishAll (methods : List MethodDraft) :
    Gives (finishAll methods) fun (_, problems) => OfClosing problems := by
  induction methods with
  | nil => exact ofClosing_nil
  | cons method rest ih =>
    rw [finishAll, gives_bind]
    refine method.ofClosing_finish.imp fun _ first => ?_
    rw [gives_bind]
    exact ih.imp fun _ others => first.append others

theorem ofClosing_resolveBase (id : TypeId) (namespaces : List String) (table : SymbolTable)
    (name : Option String) : Gives (resolveBase id namespaces table name) fun (_, problems) =>
      OfClosing problems := by
  rw [resolveBase.eq_def]
  split
  · exact ofClosing_nil
  · split
    · exact .cons rfl ofClosing_nil
    · refine gives_bind_ok fun type _ => ?_
      split
      · exact .cons rfl ofClosing_nil
      · exact gives_bind_ok fun _ _ => ofClosing_nil

theorem ofClosing_resolveInterfaces (id : TypeId) (namespaces : List String) (table : SymbolTable)
    (names : List String) :
    Gives (resolveInterfaces id namespaces table names) fun (_, problems) => OfClosing problems := by
  induction names generalizing table with
  | nil => exact ofClosing_nil
  | cons name rest ih =>
    rw [resolveInterfaces]
    split
    · rw [gives_bind]
      exact (ih table).imp fun _ others => .cons rfl others
    · refine gives_bind_ok fun type _ => ?_
      split
      · exact gives_bind_ok fun next _ => ih next
      · rw [gives_bind]
        exact (ih table).imp fun _ others => .cons rfl others

theorem ofClosing_close (draft : TypeDraft) (table : SymbolTable) (namespaces : List String) :
    Gives (draft.close table namespaces) fun (_, _, problems) => OfClosing problems := by
  rw [close]
  split
  · exact ofClosing_nil
  · rw [closeMethods, gives_bind, gives_bind]
    refine (ofClosing_finishAll _).imp fun _ inMethods => ?_
    rw [gives_pure, gives_bind]
    refine (ofClosing_resolveBase _ _ _ _).imp fun _ inBase => ?_
    rw [gives_bind]
    refine (ofClosing_resolveInterfaces _ _ _ _).imp fun _ inInterfaces => ?_
    exact (inMethods.append inBase).append inInterfaces

end TypeDraft

/-! ## Sessions -/

namespace Session

theorem ofClosing_closeAt (session : Session) (index : Nat) (namespaces : List String) :
    Gives (session.closeAt index namespaces) fun (_, problems) => OfClosing problems := by
  rw [closeAt]
  refine gives_bind_ok fun draft _ => ?_
  rw [gives_bind]
  exact (draft.ofClosing_close _ _).imp fun _ problems => problems

theorem ofClosing_closeEach (namespaces : List String) (indices : List Nat) (session : Session) :
    Gives (closeEach namespaces indices session) fun (_, problems) => OfClosing problems := by
  induction indices generalizing session with
  | nil => exact ofClosing_nil
  | cons index rest ih =>
    rw [closeEach, gives_bind]
    refine (session.ofClosing_closeAt index namespaces).imp fun (next, _) first => ?_
    rw [gives_bind]
    exact (ih next).imp fun _ others => first.append others

theorem ofClosing_closeDefault (session : Session) (index : Nat) (draft : TypeDraft)
    (namespaces : List String) : Gives (session.closeDefault index draft namespaces)
      fun (_, problems) => OfClosing problems := by
  have closes (prepared : TypeDraft) {problems : List Problem} (first : OfClosing problems) :
      Gives (do
        let (session, more) ← (session.setDraft index prepared).closeAt index namespaces
        return (session, problems ++ more)) fun (_, problems) => OfClosing problems := by
    rw [gives_bind]
    exact (ofClosing_closeAt _ index namespaces).imp fun _ others => first.append others
  rw [closeDefault]
  split
  · rw [finishMain, gives_bind, gives_bind]
    exact (TypeDraft.ofClosing_finishAll _).imp fun _ first => closes _ first
  · exact closes draft ofClosing_nil

theorem ofClosing_finishDefault (session : Session) (namespaces : List String) :
    Gives (session.finishDefault namespaces) fun (_, problems) => OfClosing problems := by
  rw [finishDefault]
  split
  · exact ofClosing_nil
  · refine gives_bind_ok fun draft _ => ?_
    split
    · exact ofClosing_nil
    · exact session.ofClosing_closeDefault _ draft namespaces

theorem ofClosing_finish (session : Session) (namespaces : List String) :
    Gives (session.finish namespaces) fun (_, problems) => OfClosing problems := by
  rw [finish]
  refine gives_bind_ok fun dropped _ => ?_
  rw [gives_bind]
  refine (session.ofClosing_finishDefault namespaces).imp fun (first, _) inDefault => ?_
  rw [gives_bind]
  refine (ofClosing_closeEach namespaces _ first).imp fun (second, _) inOpen => ?_
  rw [gives_bind]
  refine (ofClosing_closeEach namespaces _ second).imp fun (last, _) inRest => ?_
  have all := (inDefault.append inOpen).append inRest
  dsimp only
  split
  · exact all
  · exact gives_bind_ok fun _ _ => all

end Session

end OnePass
