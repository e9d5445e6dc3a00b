import OnePass.Proofs.Integrity.Build

/-! # The loop ends

A build reads its stream in *rounds*. In a round the first token leaves the stream and is processed;
a directive may take tokens after it, and an import may put the tokens of a library in front of the
rest. So the stream can grow while it is read, and a library may import itself. The loop ends all
the same: a path is spliced in only once, and every token that leaves the stream came from the
beginning of the build or from a library that was spliced in.

* `Build.Reads`: what a round does to the stream and to the paths that were imported.
* `Build.Runs`: a sequence of rounds. `Runs.conserves` accounts for every token, `Runs.nodup` for
  every path.
* `Build.exists_runs`: there is a run to a state in which the loop stops, and the outcome of the
  build is decided there. -/

namespace OnePass

open List

/-! ## Rounds -/

/-- What leaves and enters the stream in a round: the token that is processed, the tokens that a
directive takes after it, and the library that an import puts in front of the rest, with its
path. -/
structure Round where
  token : Token
  taken : List Token
  library : Option (String × List Token)

namespace Round

/-- The tokens that leave the stream. -/
def popped (round : Round) : List Token := round.token :: round.taken

/-- The tokens that enter the stream. -/
def added (round : Round) : List Token := (round.library.map (·.2)).getD []

/-- The path of the library that is spliced in. -/
def path? (round : Round) : Option String := round.library.map (·.1)

end Round

/-- The tokens that leave the stream in some rounds. -/
def poppedIn (rounds : List Round) : List Token := rounds.flatMap (·.popped)

/-- The paths that are spliced in in some rounds. -/
def splicedIn (rounds : List Round) : List String := rounds.filterMap (·.path?)

namespace Build

/-- A round of the loop. Tokens enter the stream only by an import, whose path was not imported
before, and they are the tokens of the library with this path. -/
structure Reads (build : Build) (round : Round) (later : Build) : Prop where
  processed : ∃ rest, build.compiler.stream = round.token :: rest ∧
    { build with compiler := { build.compiler with stream := rest } }.process round.token = .ok later
  stream : ∃ rest, build.compiler.stream = round.popped ++ rest ∧
    later.compiler.stream = round.added ++ rest
  imported : later.compiler.imported = build.compiler.imported ++ round.path?.toList
  library : ∀ library ∈ round.library, round.token = .importLibrary library.1 ∧
    library.1 ∉ build.compiler.imported ∧
    build.compiler.files.libraryTokens build.compiler.input.options library.1 = .ok library.2
  files : later.compiler.files = build.compiler.files
  directories : later.compiler.input.options = build.compiler.input.options

/-- Some rounds, one after the other. -/
inductive Runs : Build → List Round → Build → Prop
  | none {build : Build} : Runs build [] build
  | round {build next last : Build} {round : Round} {rounds : List Round}
      (reads : build.Reads round next)
      (runs : Runs next rounds last) : Runs build (round :: rounds) last

/-- Where the loop stops: no token is left, or the next one ends the build in a fault. The outcome
is that of the whole build. -/
inductive Stops (build : Build) : Except Fault BuildResult → Prop
  | finished (empty : build.compiler.stream = []) : build.Stops build.finish
  | faulted {token : Token} {rest : List Token} {fault : Fault}
      (next : build.compiler.stream = token :: rest)
      (processed : { build with compiler := { build.compiler with stream := rest } }.process token =
        .error fault) :
      build.Stops (.error fault)

variable {files : FileTree} {stream : TokenStream} {options : BuildOptions} {autoName : Bool}
  {build later : Build} {round : Round} {rounds : List Round}

theorem exists_reads {token : Token} {rest : List Token} (sound : build.compiler.Sound)
    (next : build.compiler.stream = token :: rest)
    (processed : { build with compiler := { build.compiler with stream := rest } }.process token =
      .ok later) :
    ∃ round, build.Reads round later := by
  have advances := (ends_process sound rest token).of_ok processed
  obtain ⟨left, ⟨taken, takes⟩, splices⟩ := advances.input
  obtain ⟨files, directories, imported, stream⟩ := left
  obtain ⟨sameFiles, sameDirectories, sameImported, rfl⟩ :
      build.compiler.files = files ∧ build.compiler.session.options.directories = directories ∧
        build.compiler.imported = imported ∧ rest = taken ++ stream := by
    simpa [Compiler.input] using takes
  -- Either nothing enters the stream, or the library of an import does.
  generalize input : later.compiler.input = laterInput at splices
  cases splices with
  | nothing =>
    cases input
    exact ⟨⟨token, taken, none⟩,
      { processed := ⟨_, next, processed⟩
        stream := ⟨later.compiler.stream, next, rfl⟩
        imported := by simp [sameImported, Round.path?]
        library := by simp
        files := sameFiles.symm
        directories := by simp [Compiler.input, Input.options, sameDirectories] }⟩
  | @library path tokens isImport isNew found =>
    simp only [Compiler.input, Input.splice, Input.mk.injEq] at input
    obtain ⟨laterFiles, laterDirectories, laterImported, laterStream⟩ := input
    subst sameFiles sameDirectories sameImported
    refine ⟨⟨token, taken, some (path, tokens)⟩,
      { processed := ⟨_, next, processed⟩
        stream := ⟨stream, next, laterStream⟩
        imported := laterImported
        library := ?_
        files := laterFiles
        directories := by simp [Compiler.input, Input.options, laterDirectories] }⟩
    rintro library ⟨⟩
    exact ⟨isImport, isNew, found⟩

/-! ## Runs -/

namespace Reads

variable (reads : build.Reads round later)

include reads

/-- A round moves tokens: what was in the stream and what a library adds is popped or still
there. -/
theorem conserves : round.popped.length + later.compiler.stream.length =
    build.compiler.stream.length +
      (round.path?.toList.map (build.compiler.files.librarySize build.compiler.input.options)).sum := by
  obtain ⟨rest, before, after⟩ := reads.stream
  have size : round.added.length =
      (round.path?.toList.map (build.compiler.files.librarySize build.compiler.input.options)).sum := by
    cases library : round.library with
    | none => simp [Round.added, Round.path?, library]
    | some spliced =>
      obtain ⟨-, -, found⟩ := reads.library spliced (by simp [library])
      simp [Round.added, Round.path?, library, FileTree.librarySize_of_libraryTokens found]
  rw [before, after, length_append, length_append, ← size]
  omega

theorem nodup_imported (nodup : build.compiler.imported.Nodup) : later.compiler.imported.Nodup := by
  rw [reads.imported]
  refine nodup.append (by cases round.path? <;> simp) fun path earlier here => ?_
  simp only [Round.path?, Option.mem_toList, Option.map_eq_some_iff] at here
  obtain ⟨library, isSome, rfl⟩ := here
  exact (reads.library library isSome).2.1 earlier

end Reads

namespace Runs

variable {last : Build} (runs : build.Runs rounds last)

include runs

theorem imported : last.compiler.imported = build.compiler.imported ++ splicedIn rounds := by
  induction runs with
  | none => simp [splicedIn]
  | @round build next last round rounds reads runs ih =>
    rw [ih, reads.imported]
    cases isSpliced : round.path? <;> simp [splicedIn, isSpliced]

theorem nodup (nodup : build.compiler.imported.Nodup) :
    (build.compiler.imported ++ splicedIn rounds).Nodup := by
  rw [← runs.imported]
  induction runs with
  | none => exact nodup
  | round reads runs ih => exact ih (reads.nodup_imported nodup)

/-- Every token is accounted for: those of the stream at the beginning and those of the libraries
that are spliced in are popped or still in the stream. -/
theorem conserves : (poppedIn rounds).length + last.compiler.stream.length =
    build.compiler.stream.length +
      ((splicedIn rounds).map (build.compiler.files.librarySize build.compiler.input.options)).sum := by
  induction runs with
  | none => simp [poppedIn, splicedIn]
  | @round build next last round rounds reads runs ih =>
    have here := reads.conserves
    have spliced : splicedIn (round :: rounds) = round.path?.toList ++ splicedIn rounds := by
      cases isSpliced : round.path? <;> simp [splicedIn, isSpliced]
    have popped : poppedIn (round :: rounds) = round.popped ++ poppedIn rounds := flatMap_cons
    -- Libraries are looked up in the same files and directories in all rounds, so the sizes can be
    -- added.
    rw [reads.files, reads.directories] at ih
    rw [spliced, popped, map_append, sum_append, length_append]
    omega

end Runs

/-- A loop with enough fuel makes a run to a state in which it stops. -/
theorem exists_runs {paths : List String} (fuel : Nat) (sound : build.compiler.Sound)
    (covered : build.compiler.input.Covered paths)
    (enough : build.compiler.input.left paths ≤ fuel) : ∃ rounds last, build.Runs rounds last ∧
      last.Stops (build.run fuel >>= finish) := by
  induction fuel generalizing build with
  | zero =>
    -- Nothing is left to be read, so the loop stops for want of tokens and not of fuel.
    have empty := stream_eq_nil enough
    refine ⟨[], build, .none, ?_⟩
    simp only [run, empty, isEmpty_nil, if_true]
    exact .finished empty
  | succ fuel ih =>
    rw [run]
    split
    · rename_i empty
      exact ⟨[], build, .none, .finished empty⟩
    · rename_i token rest next
      cases processed : { build with compiler := { build.compiler with stream := rest } }.process
          token with
      | error fault => exact ⟨[], build, .none, .faulted next processed⟩
      | ok later =>
        obtain ⟨stillSound, stillCovered, less⟩ := (ends_round sound covered next).of_ok processed
        obtain ⟨round, reads⟩ := exists_reads sound next processed
        obtain ⟨rounds, last, runs, stops⟩ := ih stillSound stillCovered (by omega)
        exact ⟨round :: rounds, last, .round reads runs, stops⟩

theorem Runs.length_le {paths : List String} {last : Build} (runs : build.Runs rounds last)
    (sound : build.compiler.Sound) (covered : build.compiler.input.Covered paths) :
    rounds.length + last.compiler.input.left paths ≤ build.compiler.input.left paths := by
  induction runs with
  | none => simp
  | round reads runs ih =>
    obtain ⟨rest, next, processed⟩ := reads.processed
    obtain ⟨stillSound, stillCovered, less⟩ := (ends_round sound covered next).of_ok processed
    have later := ih stillSound stillCovered
    rw [length_cons]
    omega

/-! ## Whole builds -/

/-- The build before the first token. -/
def initial (session : Session) (files : FileTree) (tokens : List Token) : Build :=
  { compiler := { session := session, files := files, stream := tokens } }

theorem Runs.snoc {last : Build} (runs : build.Runs rounds last) (reads : last.Reads round later) :
    build.Runs (rounds ++ [round]) later := by
  induction runs with
  | none => exact .round reads .none
  | round first _ ih => exact .round first (ih reads)

theorem Reached.exists_runs
    {session : Session} (created : Session.create { options with header := stream.header }
      autoName = .ok session)
    (reached : Reached files stream options autoName build) :
    ∃ rounds, (initial session files stream.tokens).Runs rounds build := by
  induction reached with
  | start again =>
    rw [created] at again
    cases again
    exact ⟨[], .none⟩
  | step reached next processed ih =>
    obtain ⟨rounds, runs⟩ := ih
    obtain ⟨round, reads⟩ := exists_reads reached.sound next processed
    exact ⟨rounds ++ [round], runs.snoc reads⟩

theorem Reached.runs
    {last : Build} (reached : Reached files stream options autoName build)
    (runs : build.Runs rounds last) : Reached files stream options autoName last := by
  induction runs with
  | none => exact reached
  | round reads runs ih =>
    obtain ⟨rest, next, processed⟩ := reads.processed
    exact ih (reached.step next processed)

end Build

namespace Session

theorem openDefault_inRange {session : Session} (nothing : session.drafts = []) :
    ∀ draft ∈ session.openDefault.drafts, draft.id < session.openDefault.table.types.length := by
  intro draft here
  rw [openDefault, SymbolTable.define] at here ⊢
  cases taken : session.table.lookup (defaultDef session.options).fullName with
  | some id => simp [taken, nothing] at here
  | none =>
    simp only [taken, mem_singleton] at here ⊢
    rw [here, length_append]
    exact Nat.lt_add_one _

/-- The main function can be added to a class that has a definition. -/
theorem exists_openMain {session : Session}
    (inRange : ∀ draft ∈ session.drafts, draft.id < session.table.types.length) :
    ∃ later, session.openMain = .ok later := by
  rw [openMain]
  cases drafts : session.drafts with
  | nil => exact ⟨session, rfl⟩
  | cons draft rest =>
    have known := inRange draft (by simp [drafts])
    simp [SymbolTable.addMethod, SymbolTable.get, SymbolTable.update, known, bind, Except.bind,
      pure, Except.pure]

theorem exists_create (options : BuildOptions) (autoName : Bool) :
    ∃ session, create options autoName = .ok session := by
  rw [create]
  cases options.header with
  | script => exact exists_openMain (openDefault_inRange rfl)
  | _ => exact ⟨_, rfl⟩

end Session

/-- The loop of a build makes a run to a state in which it stops, and the outcome of the build is
decided there. -/
theorem Build.exists_stops (files : FileTree) (stream : TokenStream) (options : BuildOptions)
    (autoName : Bool) : ∃ session, Session.create { options with header := stream.header }
      autoName = .ok session ∧ ∃ rounds last, (initial session files stream.tokens).Runs
        rounds last ∧ last.Stops (build files stream options autoName) := by
  obtain ⟨session, created⟩ := Session.exists_create { options with header := stream.header }
    autoName
  obtain ⟨sound, same⟩ := (Session.ensures_create _ autoName).of_ok created
  refine ⟨session, created, ?_⟩
  have outcome : build files stream options autoName =
      (initial session files stream.tokens).run
        (tokenBudget files { options with header := stream.header } stream.tokens) >>= finish := by
    rw [build, created]
    rfl
  rw [outcome]
  exact exists_runs _ (start_sound sound files stream.tokens)
    (start_covered session files stream.tokens) (start_left same files stream.tokens).le

theorem exists_reached_of_build {files : FileTree} {stream : TokenStream} {options : BuildOptions}
    {autoName : Bool} {result : BuildResult} (built : build files stream options autoName =
      .ok result) :
    ∃ done, Build.Reached files stream options autoName done ∧ done.compiler.stream = [] ∧
      done.finish = .ok result := by
  obtain ⟨session, created, rounds, last, runs, stops⟩ :=
    Build.exists_stops files stream options autoName
  rw [built] at stops
  generalize outcome : Except.ok result = final at stops
  cases stops with
  | finished empty => exact ⟨last, (Build.Reached.start created).runs runs, empty, rfl⟩
  | faulted => cases outcome

/-- A build that hands over a module goes on from each of its states to one in which all tokens were
read. -/
theorem Build.Reached.exists_runs_to_end {files : FileTree} {stream : TokenStream}
    {options : BuildOptions} {autoName : Bool} {state : Build} {result : BuildResult}
    (reached : Reached files stream options autoName state)
    (built : build files stream options autoName = .ok result) :
    ∃ rounds done, state.Runs rounds done ∧ done.compiler.stream = [] ∧ done.finish = .ok result := by
  induction reached with
  | @start session created =>
    obtain ⟨again, createdAgain, rounds, last, runs, stops⟩ :=
      Build.exists_stops files stream options autoName
    obtain rfl : session = again := Except.ok.inj (created.symm.trans createdAgain)
    rw [built] at stops
    generalize outcome : Except.ok result = final at stops
    cases stops with
    | finished empty => exact ⟨rounds, last, runs, empty, rfl⟩
    | faulted => cases outcome
  | @step state later token rest reached next processed ih =>
    obtain ⟨rounds, done, runs, empty, finished⟩ := ih
    cases runs with
    | none => cases next.symm.trans empty
    | round reads runs =>
      -- The first round of the run is the one that leads to the next state.
      obtain ⟨others, nextAgain, processedAgain⟩ := reads.processed
      obtain ⟨rfl, rfl⟩ := cons_eq_cons.mp (next.symm.trans nextAgain)
      obtain rfl := Except.ok.inj (processed.symm.trans processedAgain)
      exact ⟨_, done, runs, empty, finished⟩

/-- The loop ends. Every state of a build is the end of a run. In every run no path is spliced in
twice; the tokens that were popped and those still in the stream are as many as those of the initial
stream and of the libraries that were spliced in; and there are no more rounds than the budget has
tokens. There is a run to a state in which the loop stops, because no token is left or because the
next one ends in a fault, and this is where the outcome of the build comes from. What the last round
pops before a fault is still in the stream of that state. -/
theorem loop_ends (files : FileTree) (stream : TokenStream) (options : BuildOptions)
    (autoName : Bool) : ∃ session, Session.create { options with header := stream.header }
      autoName = .ok session ∧ (∀ reached, Build.Reached files stream options autoName reached →
        ∃ rounds, (Build.initial session files stream.tokens).Runs rounds reached) ∧
      (∀ rounds later, (Build.initial session files stream.tokens).Runs rounds later →
        (splicedIn rounds).Nodup ∧
          (poppedIn rounds).length + later.compiler.stream.length =
            stream.tokens.length + ((splicedIn rounds).map (files.librarySize options)).sum ∧
          rounds.length ≤ tokenBudget files options stream.tokens) ∧
      ∃ rounds last, (Build.initial session files stream.tokens).Runs rounds last ∧
        last.Stops (build files stream options autoName) := by
  obtain ⟨session, created, stops⟩ := Build.exists_stops files stream options autoName
  obtain ⟨sound, same⟩ := (Session.ensures_create _ autoName).of_ok created
  have budget : (Build.initial session files stream.tokens).compiler.input.left
      (files.allImports stream.tokens) = tokenBudget files options stream.tokens :=
        Build.start_left same files stream.tokens
  refine ⟨session, created, fun _ reached => reached.exists_runs created, fun rounds later runs =>
    ⟨?_, ?_, ?_⟩, stops⟩
  · exact runs.nodup List.nodup_nil
  · have sizes : files.librarySize (Build.initial session files
        stream.tokens).compiler.input.options = files.librarySize options := by
      rw [Build.initial, Compiler.input, same]
      rfl
    rw [← sizes]
    exact runs.conserves
  · have bounded := runs.length_le (Build.start_sound sound files stream.tokens)
      (Build.start_covered session files stream.tokens)
    rw [budget] at bounded
    omega

end OnePass
