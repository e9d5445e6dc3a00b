import OnePass.Proofs.Apart.Step

/-! # Try regions hide diagnostics and nothing else

Between the directives `try` and `endtry` the problems of a step are dropped. That is all that
happens there. To say so, a build is compared with one that knows no try regions: `buildOpenly`
begins every step outside of them, whatever the directives said, and keeps what each step reports.
The two builds end in the same module, or in the same fault, and the diagnostics of the first are
those of the second without the ones of the steps that began in a try region.

* `Compile.Blind`: what an action does, does not depend on whether it begins in a try region.
* `Compile.blind_step`: this is so for every token.
* `Build.run_eq_runOpenly`: so it is for a run. -/

namespace OnePass

/-- The state outside of try regions. -/
def Compiler.outside (c : Compiler) : Compiler := { c with tryRegion := false }

/-! ## Builds without try regions -/

namespace Build

/-- A build that is outside of try regions and has reported nothing. -/
def openly (build : Build) : Build := { build with compiler := build.compiler.outside, diagnostics := [] }

/-- Processes the tokens of the stream, at most `fuel` of them, as if there were no try regions.
What each step reports is kept apart. -/
def runOpenly : (fuel : Nat) → Build → Except Fault (List (List Diagnostic) × Build)
  | 0, build => if build.compiler.stream.isEmpty then .ok ([], build.openly) else .error .outOfTokens
  | fuel + 1, build =>
    match build.compiler.stream with
    | [] => .ok ([], build.openly)
    | token :: rest => do
      let later ← (build.reading rest).openly.process token
      let (reports, done) ← later.runOpenly fuel
      return (later.diagnostics :: reports, done)

/-- For each step of a run, whether it begins in a try region. -/
def regions : (fuel : Nat) → Build → List Bool
  | 0, _ => []
  | fuel + 1, build =>
    match build.compiler.stream with
    | [] => []
    | token :: rest =>
      build.compiler.tryRegion ::
        match (build.reading rest).process token with
        | .ok later => later.regions fuel
        | .error _ => []

end Build

/-- Builds a module as if there were no try regions. Besides the module, with what is reported after
the last token, this hands over what each step reports. -/
def buildOpenly (files : FileTree) (stream : TokenStream) (options : BuildOptions)
    (autoName : Bool) : Except Fault (List (List Diagnostic) × BuildResult) := do
  let options := { options with header := stream.header }
  let session ← Session.create options autoName
  let start : Build := { compiler := { session := session, files := files, stream := stream.tokens } }
  let (reports, done) ← start.runOpenly (tokenBudget files options stream.tokens)
  let ending ← done.finish
  return (reports, ending)

/-- For each step of a build, whether it begins in a try region. -/
def tryRegions (files : FileTree) (stream : TokenStream) (options : BuildOptions)
    (autoName : Bool) : List Bool :=
  let options := { options with header := stream.header }
  match Session.create options autoName with
  | .error _ => []
  | .ok session =>
    Build.regions (tokenBudget files options stream.tokens)
      { compiler := { session := session, files := files, stream := stream.tokens } }

/-- What is reported in the steps that do not begin in a try region. -/
def visible (regions : List Bool) (reports : List (List Diagnostic)) : List Diagnostic :=
  ((regions.zip reports).filter (!·.1)).flatMap (·.2)

theorem visible_cons (isHidden : Bool) (regions : List Bool) (report : List Diagnostic)
    (reports : List (List Diagnostic)) :
    visible (isHidden :: regions) (report :: reports) =
      (if isHidden then [] else report) ++ visible regions reports := by
  cases isHidden <;> simp [visible]

/-! ## Actions -/

namespace Compile

variable {α β : Type} {action : Compile α}

/-- What an action ends with, outside of try regions. -/
def outcomeOutside (outcome : Except Fault (α × Compiler × List Problem)) :
    Except Fault (α × Compiler × List Problem) :=
  outcome.map fun (a, later, problems) => (a, later.outside, problems)

/-- What the action does, does not depend on whether it begins in a try region. It may begin or end
one. -/
def Blind (action : Compile α) : Prop := ∀ c, outcomeOutside (action c.outside) =
      outcomeOutside (action c)

/-- An action that does not look aside does not see the try region. -/
theorem Apart.blind (apart : action.Apart) : action.Blind := by
  intro c
  -- The try region is part of the aside, so the state outside of it is the state beside another
  -- aside.
  rw [show c.outside = c.beside ⟨c.stream, c.inDirective, false⟩ from rfl, apart]
  rcases ran : action c with fault | ⟨a, later, problems⟩
  · rfl
  · have same : later.aside = c.aside := apart.aside_eq ran
    simp only [Compiler.aside, Aside.mk.injEq] at same
    simp [outcomeBeside, outcomeOutside, Except.map, Compiler.beside, Compiler.outside, same]

/-- What two actions end with is decided by what the second ends with. -/
theorem outcomeOutside_bind {next : α → Compile β} {c later : Compiler} {a : α}
    {problems : List Problem} (ran : action c = .ok (a, later, problems)) :
    outcomeOutside ((action >>= next) c) =
      (outcomeOutside (next a later)).map fun (b, last, more) => (b, last, problems ++ more) := by
  simp only [Bind.bind, ran]
  rcases next a later with fault | ⟨b, last, more⟩ <;> rfl

theorem Blind.bind {next : α → Compile β} (first : action.Blind)
    (second : ∀ a, (next a).Blind) : (action >>= next).Blind := by
  intro c
  have same := first c
  rcases ran : action c with fault | ⟨a, later, problems⟩ <;>
    rcases ranOutside : action c.outside with fault' | ⟨a', later', problems'⟩ <;>
    simp only [ran, ranOutside, outcomeOutside, Except.map, Except.error.injEq, Except.ok.injEq,
      Prod.mk.injEq, reduceCtorEq] at same
  · simp [Bind.bind, ran, ranOutside, same]
  · obtain ⟨rfl, sameState, rfl⟩ := same
    -- Both continue from states that differ at most in the try region.
    rw [outcomeOutside_bind ran, outcomeOutside_bind ranOutside, ← second a' later', sameState,
      second a' later]

theorem blind_get_bind {next : Compiler → Compile β}
    (same : ∀ c : Compiler, next c.outside = next c) (each : ∀ c, (next c).Blind) :
    (get >>= next).Blind := by
  intro c
  rw [get_bind_apply, get_bind_apply, same c]
  exact each c c

theorem blind_modify {change : Compiler → Compiler}
    (same : ∀ c : Compiler, (change c.outside).outside = (change c).outside) :
    (modify change).Blind := by
  intro c
  simp only [modify_apply, outcomeOutside, Except.map, same]

/-! ## Steps -/

theorem blind_nextLiteral : nextLiteral.Blind := by
  rw [nextLiteral]
  refine blind_get_bind (fun _ => rfl) fun c => ?_
  split
  · exact Blind.bind (blind_modify fun _ => rfl) fun _ => (apart_pure _).blind
  · exact (apart_pure _).blind

theorem blind_nextNames : nextNames.Blind :=
  blind_get_bind (fun _ => rfl) fun _ => Blind.bind (blind_modify fun _ => rfl) fun _ =>
    (apart_pure _).blind

theorem apart_amendDefault (change : TypeDraft → Option TypeDraft) (refusal : Problem) :
    (amendDefault change refusal).Apart := by
  rw [amendDefault]
  refine apart_get_bind (fun _ _ => rfl) fun c => (apart_lift _).bind fun found => ?_
  split
  · exact fun _ _ => rfl
  · exact apart_report _

theorem blind_extendsDirective : extendsDirective.Blind := by
  rw [extendsDirective]
  refine blind_nextLiteral.bind fun name => ?_
  cases name with
  | none => exact (apart_report _).blind
  | some name =>
    refine blind_get_bind (fun _ => rfl) fun c => ?_
    split
    · exact (apart_report _).blind
    · exact (apart_amendDefault _ _).blind

theorem blind_implementsDirective : implementsDirective.Blind := by
  rw [implementsDirective]
  refine blind_nextNames.bind fun names => blind_get_bind (fun _ => rfl) fun c => ?_
  split
  · exact (apart_report _).blind
  · apply Apart.blind
    induction names with
    | nil => exact apart_pure _
    | cons name names ih => exact (apart_amendDefault _ _).bind fun _ => ih

theorem blind_outtypeDirective : outtypeDirective.Blind := by
  rw [outtypeDirective]
  refine blind_nextLiteral.bind fun name => ?_
  dsimp only
  split
  · exact blind_modify fun _ => rfl
  · exact (apart_report _).blind

theorem blind_constDirective : constDirective.Blind := by
  rw [constDirective]
  refine blind_nextLiteral.bind fun name => ?_
  cases name with
  | none => exact (apart_report _).blind
  | some name =>
    refine blind_get_bind (fun _ => rfl) fun c => ?_
    split
    · exact blind_modify fun _ => rfl
    · exact (apart_report _).blind

/-- A directive does the same inside and outside of a try region, also if it begins or ends one. -/
theorem blind_directive (name : String) : (directive name).Blind := by
  unfold directive
  split
  · exact blind_extendsDirective
  · exact blind_implementsDirective
  · exact blind_outtypeDirective
  · exact blind_modify fun _ => rfl
  · exact blind_modify fun _ => rfl
  · exact blind_modify fun _ => rfl
  · exact blind_constDirective
  · exact (apart_report _).blind

theorem blind_literal (text : String) : (literal text).Blind := by
  rw [literal]
  refine blind_get_bind (fun _ => rfl) fun c => ?_
  split
  · exact Blind.bind (blind_modify fun _ => rfl) fun _ => blind_directive text
  · exact (apart_segment text c).blind

theorem blind_importLibrary (path : String) : (declaration (.importLibrary path)).Blind := by
  intro c
  rw [declaration, get_bind_apply, get_bind_apply]
  by_cases isImported : c.imported.contains path = true
  · simp only [Compiler.declare?, Compiler.importLibrary, Compiler.outside, isImported]
    rfl
  · simp only [Compiler.declare?, Compiler.importLibrary, Compiler.outside, isImported]
    rcases c.files.libraryTokens c.session.options path with problem | tokens <;> rfl

theorem blind_dispatch (token : Token) (retract : Option TypeId) :
    (dispatch token retract).Blind := by
  cases looks : token.looksAside with
  | false => exact (apart_dispatch looks retract).blind
  | true =>
    cases token with
    | newLine | directive => exact blind_modify fun _ => rfl
    | literal text => exact blind_literal text
    | importLibrary path => exact blind_importLibrary path
    | _ => cases looks

/-- No token does anything else inside a try region. -/
theorem blind_step (token : Token) : (step token).Blind := by
  rw [step_eq]
  refine (apart_awaited token).blind.bind fun rest => ?_
  cases rest with
  | none => exact (apart_pure ()).blind
  | some retract => exact blind_dispatch token retract

end Compile

/-! ## Runs -/

namespace Build

/-- A token does the same to a build and to the build outside of try regions; the former keeps what
the latter reports if it is outside of try regions itself. -/
theorem process_openly (build : Build) (token : Token) :
    (build.process token).map (fun later => (later.openly, later.diagnostics)) =
      (build.openly.process token).map fun later =>
        (later.openly, build.diagnostics ++ if build.compiler.tryRegion then [] else later.diagnostics) := by
  -- The step ends in a fault on both sides or on none.
  have blind := Compile.blind_step token build.compiler
  simp only [process, openly, bind, Except.bind]
  rcases ran : Compile.step token build.compiler with fault | ⟨⟨⟩, later, problems⟩ <;>
    rcases ranOutside : Compile.step token build.compiler.outside with fault' | ⟨⟨⟩, later',
      problems'⟩ <;>
    simp only [ran, ranOutside, Compile.outcomeOutside, Except.map, Except.error.injEq,
      Except.ok.injEq, Prod.mk.injEq, true_and, reduceCtorEq] at blind
  · simp [Except.map, blind]
  · obtain ⟨sameState, rfl⟩ := blind
    simp [Except.map, pure, Except.pure, sameState, show build.compiler.outside.tryRegion =
      false from rfl]

/-- What a run without try regions does depends on the build outside of try regions only. -/
theorem runOpenly_openly (fuel : Nat) (build : Build) :
    build.openly.runOpenly fuel = build.runOpenly fuel := by
  cases fuel <;> rfl

/-- A run does what it does without try regions, but keeps only what is reported outside of them. -/
theorem run_eq_runOpenly (fuel : Nat) (build : Build) :
    (build.run fuel).map (fun done => (done.openly, done.diagnostics,
      (build.regions fuel).length)) = (build.runOpenly fuel).map fun (reports, done) =>
        (done, build.diagnostics ++ visible (build.regions fuel) reports, reports.length) := by
  induction fuel generalizing build with
  | zero =>
    rw [run, runOpenly]
    split <;> simp [Except.map, regions, visible]
  | succ fuel ih =>
    cases next : build.compiler.stream with
    | nil => simp [run, runOpenly, regions, next, visible, Except.map]
    | cons token rest =>
      have first := (build.reading rest).process_openly token
      rw [run_succ next, runOpenly, regions, next]
      rcases processed : (build.reading rest).process token with fault | later <;>
        rcases processedOpenly : (build.reading rest).openly.process token with fault' | later' <;>
        simp only [processed, processedOpenly, Except.map, Except.error.injEq, Except.ok.injEq,
          Prod.mk.injEq, reduceCtorEq] at first
      · simp [bind, Except.bind, Except.map, processedOpenly, first]
      · obtain ⟨sameState, reported⟩ := first
        -- The rest of the run is the same for both states after the first token.
        have others := ih later
        rw [← runOpenly_openly fuel later, sameState, runOpenly_openly] at others
        rcases ran : later.run fuel with fault | done <;>
          rcases ranOpenly : later'.runOpenly fuel with fault' | ⟨reports, done'⟩ <;>
          simp only [ran, ranOpenly, Except.map, Except.error.injEq, Except.ok.injEq, Prod.mk.injEq,
            reduceCtorEq] at others
        · simp [bind, Except.bind, Except.map, processedOpenly, ran, ranOpenly, others]
        · obtain ⟨sameDone, collected, counted⟩ := others
          simp [bind, Except.bind, Except.map, pure, Except.pure, processed, processedOpenly, ran,
            ranOpenly, sameDone, collected, counted, reported, visible_cons]
          rfl

/-- At the end of the tokens, nothing depends on whether the last of them was in a try region. -/
theorem finish_openly (build : Build) : build.finish =
    build.openly.finish.map fun ending =>
      { ending with diagnostics := build.diagnostics ++ ending.diagnostics } := by
  have apart := Compile.apart_checkTermination { build.compiler.aside with tryRegion := false }
      build.compiler
  simp only [finish, openly]
  rw [show build.compiler.outside = build.compiler.beside
      { build.compiler.aside with tryRegion := false } from rfl,
    apart]
  rcases Compile.checkTermination build.compiler with fault | ⟨-, waiting, problems⟩
  · rfl
  · simp only [Compile.outcomeBeside, Except.map, bind, Except.bind, Compiler.beside]
    rcases waiting.session.finish waiting.usings with fault | ⟨compiled, closing⟩
    · rfl
    · simp [pure, Except.pure]

end Build

/-- Try regions hide diagnostics and nothing else. A build is the build without try regions, with
the same module and the same fault, except that the diagnostics of the steps that begin in a try
region are left out; those of the end of the tokens are not. The second part says that there is one
mark for each step. -/
theorem try_regions_only_hide (files : FileTree) (stream : TokenStream) (options : BuildOptions)
    (autoName : Bool) : build files stream options autoName =
        (buildOpenly files stream options autoName).map (fun (reports, ending) =>
          { ending with
            diagnostics := visible (tryRegions files stream options autoName) reports ++
              ending.diagnostics }) ∧
      (build files stream options autoName).map
      (fun _ => (tryRegions files stream options autoName).length) =
        (buildOpenly files stream options autoName).map (·.1.length) := by
  simp only [build, buildOpenly, tryRegions]
  rcases Session.create { options with header := stream.header } autoName with fault | session
  · exact ⟨rfl, rfl⟩
  have same := Build.run_eq_runOpenly (tokenBudget files { options with header := stream.header }
    stream.tokens) { compiler := { session := session, files := files, stream := stream.tokens } }
  simp only [bind, Except.bind]
  -- All that is needed of the two runs is how they are related.
  generalize Build.run _ _ = ran at same ⊢
  generalize Build.runOpenly _ _ = ranOpenly at same ⊢
  rcases ran with fault | done <;> rcases ranOpenly with fault' | ⟨reports, done'⟩ <;>
    simp only [Except.map, Except.error.injEq, Except.ok.injEq, Prod.mk.injEq, reduceCtorEq] at same
  · simp [same, Except.map]
  · obtain ⟨rfl, collected, counted⟩ := same
    dsimp only
    rw [done.finish_openly, collected]
    rcases done.openly.finish with fault | ending
    · exact ⟨rfl, rfl⟩
    · simp [Except.map, pure, Except.pure, counted]

/-- A dot that belongs to no name, in a try region and after it. -/
def strayDots : TokenStream where
  header := .script
  platform := 0
  tokens := [.directive, .literal "try", .separator .member, .directive, .literal "endtry",
    .separator .member]

example :
    tryRegions (.empty []) strayDots {} false = [false, false, true, true, true, false] ∧
      (buildOpenly (.empty []) strayDots {} false).map (·.1.map List.length) =
        .ok [0, 0, 1, 0, 0, 1] ∧ (build (.empty []) strayDots {} false).map (·.diagnostics.length) =
            .ok 1 := by
  decide +kernel

end OnePass
