import OnePass.Proofs.Integrity.Budget

/-! # Whole builds stay in range

Every state that a build reaches refers only to what its table has, and so does the module at its
end. A build can stop at two faults only: a store to a final variable that the current method does
not have, and a branch whose instruction is no longer there. -/

namespace OnePass

open List

namespace Build

variable {build : Build} {paths : List String}

/-- The states of a build: the one before the first token, and those after each token. -/
inductive Reached (files : FileTree) (stream : TokenStream) (options : BuildOptions)
    (autoName : Bool) : Build → Prop
  | start {session : Session}
      (created : Session.create { options with header := stream.header } autoName = .ok session) :
      Reached files stream options autoName
        { compiler := { session := session, files := files, stream := stream.tokens } }
  | step {build later : Build} {token : Token} {rest : List Token}
      (reached : Reached files stream options autoName build)
        (next : build.compiler.stream = token :: rest)
      (processed : { build with compiler := { build.compiler with stream := rest } }.process token =
        .ok later) :
      Reached files stream options autoName later

/-! ## Steps and runs -/

theorem ends_process (sound : build.compiler.Sound) (rest : List Token) (token : Token) :
    Ends ({ build with compiler := { build.compiler with stream := rest } }.process token) fun later =>
      { build.compiler with stream := rest }.Advances token later.compiler := by
  have popped : { build.compiler with stream := rest }.Sound := { sound with }
  rw [process, ends_bind]
  exact (Compile.ends_step popped token).imp fun _ advances => advances

theorem start_sound {session : Session} (sound : session.Sound) (files : FileTree)
    (stream : List Token) : ({ session := session, files := files, stream := stream } :
      Compiler).Sound where
  session := sound
  consume := SymbolTable.holds_nil
  base := Frame.holds_fresh
  frames := forall_mem_nil _
  lastDeclared := by simp
  retractable := SymbolTable.holds_nil
  named := fun _ => rfl

theorem Reached.sound {files : FileTree} {stream : TokenStream} {options : BuildOptions}
    {autoName : Bool} (reached : Reached files stream options autoName build) :
    build.compiler.Sound := by
  induction reached with
  | start created =>
    obtain ⟨sound, -⟩ := (Session.ensures_create _ _).of_ok created
    exact start_sound sound files stream.tokens
  | @step build later token rest _ next processed ih =>
    exact ((ends_process ih rest token).of_ok processed).sound

/-- A token that is read is paid for: what is left to be read gets less. -/
theorem ends_round {token : Token} {rest : List Token} (sound : build.compiler.Sound)
    (covered : build.compiler.input.Covered paths)
    (stream : build.compiler.stream = token :: rest) :
    Ends ({ build with compiler := { build.compiler with stream := rest } }.process token) fun later =>
      later.compiler.Sound ∧ later.compiler.input.Covered paths ∧
        later.compiler.input.left paths < build.compiler.input.left paths := by
  have takes : build.compiler.input =
      { { build.compiler with stream := rest }.input with stream := [token] ++ rest } := by
    simp [Compiler.input, stream]
  have known : importPaths [token] ⊆ paths := by
    have imports := covered.stream
    rw [Compiler.input, stream, ← singleton_append, importPaths_append] at imports
    exact (append_subset.mp imports).1
  -- The token is paid for before its step begins.
  have paid : build.compiler.input.left paths = 1 +
      { build.compiler with stream := rest }.input.left paths := by
    rw [takes]
    exact Input.left_append [token] _
  refine (ends_process sound rest token).imp fun later advances => ?_
  obtain ⟨stillCovered, notMore⟩ := advances.left_le (Input.Takes.covered ⟨[token], takes⟩ covered)
    known
  exact ⟨advances.sound, stillCovered, by omega⟩

theorem stream_eq_nil (nothing : build.compiler.input.left paths ≤ 0) :
    build.compiler.stream = [] := by
  have empty : build.compiler.stream.length = 0 := by
    simp only [Input.left, Compiler.input] at nothing
    omega
  exact length_eq_zero_iff.mp empty

theorem ends_run (fuel : Nat) (sound : build.compiler.Sound)
    (covered : build.compiler.input.Covered paths)
    (enough : build.compiler.input.left paths ≤ fuel) : Ends (build.run fuel) fun done =>
      done.compiler.Sound := by
  induction fuel generalizing build with
  | zero =>
    rw [run, stream_eq_nil enough]
    exact sound
  | succ fuel ih =>
    rw [run]
    split
    · exact sound
    · rename_i token rest stream
      rw [ends_bind]
      refine (ends_round sound covered stream).imp fun later ⟨stillSound, stillCovered, less⟩ => ?_
      exact ih stillSound stillCovered (by omega)

theorem ends_finish (sound : build.compiler.Sound) :
    Ends build.finish fun result => result.compiled.Sound := by
  rw [finish, ends_bind]
  refine (Ensures.ends (Compile.safe_checkTermination sound)).imp
    fun (_, later, _) ⟨evolves, _⟩ => ?_
  rw [ends_bind]
  exact (evolves.sound.session.ends_finish later.usings).imp fun _ here => here

theorem start_left {session : Session} {options : BuildOptions}
    (same : session.options.directories = options.directories) (files : FileTree)
    (tokens : List Token) : ({ session := session, files := files, stream := tokens } :
      Compiler).input.left (files.allImports tokens) = tokenBudget files options tokens := by
  have sizes : files.librarySize (⟨files, session.options.directories, [], tokens⟩ :
      Input).options = files.librarySize options := by
    rw [same]
    rfl
  simp [Input.left, Compiler.input, tokenBudget, sizes]

theorem start_covered (session : Session) (files : FileTree) (tokens : List Token) :
    ({ session := session, files := files, stream := tokens } : Compiler).input.Covered
      (files.allImports tokens) := by
  refine ⟨fun path here => ?_, fun entry inFiles path here => ?_⟩
  · exact mem_eraseDups.mpr (mem_append_left _ here)
  · exact mem_eraseDups.mpr (mem_append_right _ (mem_flatMap.mpr ⟨entry, inFiles, here⟩))

end Build

/-! ## Builds -/

/-- A build hands over a sound module or ends in a permitted fault; it never runs out of tokens. -/
theorem ends_build (files : FileTree) (stream : TokenStream) (options : BuildOptions)
    (autoName : Bool) : Ends (build files stream options autoName) fun result =>
      result.compiled.Sound := by
  rw [build, ends_bind]
  refine (Session.ensures_create _ autoName).ends.imp fun session ⟨sound, same⟩ => ?_
  rw [ends_bind]
  have enough := (Build.start_left same files stream.tokens).le
  refine (Build.ends_run _ (Build.start_sound sound files stream.tokens)
    (Build.start_covered session files stream.tokens) enough).imp fun done here => ?_
  exact Build.ends_finish here

/-- A value is stored to a final variable after another function was opened, which has no
variables. -/
def lostFinal : TokenStream where
  header := .singleClass
  platform := 0
  tokens :=
    [.function "f" "" .static .everywhere, .block true, .var "x" "int" true, .operator .assign,
      .value (.int 1), .function "g" "" .static .everywhere, .expressionEnd]

theorem build_lostFinal : build (.empty []) lostFinal {} false = .error .noSuchFinal := by rfl

/-- A branch stands among the arguments of an unknown function, whose code is dropped. -/
def lostBranch : TokenStream where
  header := .singleClass
  platform := 0
  tokens :=
    [.function "f" "" .static .everywhere, .block true, .label "top", .literal "Nowhere",
      .statement true, .goto "top", .statement false, .expressionEnd, .block false]

theorem build_lostBranch : build (.empty []) lostBranch {} false = .error .noSuchBranch := by rfl

/-- Whole builds stay in range. In every state of a build, and in the module at its end, everything
that is referred to exists, so that the module can be written. The faults in which a build can end
are the store to a final variable and the resolution of a branch; every variable that a method has
is found by its name. -/
theorem build_referential_integrity :
    (∀ files stream options autoName,
      (∀ reached, Build.Reached files stream options autoName reached → reached.compiler.Sound) ∧
        ∀ result, build files stream options autoName = .ok result →
          result.compiled.Sound ∧ ∃ written, result.compiled.write = .ok written) ∧
      (∀ fault, (∃ files stream options autoName, build files stream options autoName =
        .error fault) ↔ fault = .noSuchFinal ∨ fault = .noSuchBranch) ∧
      ∀ (draft : MethodDraft) (name : String),
        (draft.get? name).isSome = (draft.locals.any (·.name == name) || draft.params.any
          (·.name == name)) := by
  refine ⟨fun files stream options autoName =>
    ⟨fun reached here => here.sound, fun result built => ?_⟩, fun fault => ⟨?_, ?_⟩,
      MethodDraft.get?_isSome⟩
  · have sound := (ends_build files stream options autoName).of_ok built
    exact ⟨sound, _, sound.write_eq_ok⟩
  · rintro ⟨files, stream, options, autoName, stopped⟩
    have permitted := ends_build files stream options autoName
    rw [stopped] at permitted
    exact Fault.permitted_iff.mp permitted
  · rintro (rfl | rfl)
    · exact ⟨_, _, _, _, build_lostFinal⟩
    · exact ⟨_, _, _, _, build_lostBranch⟩

end OnePass
