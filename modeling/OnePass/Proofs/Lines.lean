import OnePass.Proofs.LineBreak
import OnePass.Proofs.Nesting

/-! # The lines of diagnostics

A diagnostic is on the line that is read when its problem is found. Lines are counted by the line
breaks that leave the stream. A line break could be lost to the count in two ways: a directive could
take it as one of its arguments, and something that waits for a token could use it up. Neither
happens.

* `lineBreaks` — the number of line breaks among some tokens.
* `Build.found` — the problems that are found when the next token is processed.

The main statement is `diagnostics_in_source_order`: what a round finds is on the line after the
line breaks of all rounds before it, what is found at the end is on the last line, and so lines
never decrease. -/

namespace OnePass

/-- The number of line breaks among some tokens. -/
def lineBreaks (tokens : List Token) : Nat := tokens.count .newLine

theorem lineBreaks_append (first second : List Token) :
    lineBreaks (first ++ second) = lineBreaks first + lineBreaks second :=
  List.count_append

/-! ## Imports take no arguments -/

namespace Compile

variable {c : Compiler}

theorem input_eq_of_awaited (sound : c.Sound) {token : Token} {rest : Option (Option TypeId)}
    {later : Compiler} {problems : List Problem}
    (ran : awaited token c = .ok (rest, later, problems)) : later.input = c.input := by
  have stream : later.stream = c.stream := congrArg Aside.stream ((apart_awaited token).aside_eq ran)
  have safe := safe_awaited sound token
  rw [Safe, ran] at safe
  obtain ⟨taken, takes⟩ := safe.1.input
  have none : taken = [] := by
    have whole : c.stream = taken ++ later.stream := congrArg Input.stream takes
    rw [stream] at whole
    simpa using whole
  rw [takes, none, List.nil_append]

/-- An import puts the tokens of its library in front of the stream, or leaves the input as it
is. -/
theorem splices_importLibrary (sound : c.Sound) {path : String} {later : Compiler}
    {problems : List Problem} (ran : step (.importLibrary path) c = .ok ((), later, problems)) :
    c.input.Splices (.importLibrary path) later.input := by
  have gives : Gives (step (.importLibrary path) c) fun ended =>
      c.input.Splices (.importLibrary path) ended.2.1.input := by
    rw [step_eq, gives_bind_run]
    refine gives_iff.mpr ?_
    rintro ⟨rest, next, _⟩ awaits
    have same : next.input = c.input := input_eq_of_awaited sound awaits
    cases rest with
    | none => exact same ▸ .nothing
    | some retract =>
      suffices Leads (declaration (.importLibrary path)) next fun _ later =>
          c.input.Splices (.importLibrary path) later.input from this
      rw [declaration, leads_get_bind]
      have stays : c.input.Splices (.importLibrary path) next.input := same ▸ .nothing
      dsimp only [Compiler.declare?]
      rw [leads_bind]
      refine leads_attempt ?_ (leads_pure.mpr stays)
      rw [gives_lift_problem, Compiler.importLibrary]
      split
      · exact stays
      · rename_i isNew
        refine gives_bind_ok fun tokens found => ?_
        have isNew : path ∉ next.imported := by simpa using isNew
        have splices : next.input.Splices (.importLibrary path) (next.input.splice path tokens) :=
          .library rfl isNew found
        exact same ▸ splices
  exact gives.of_ok ran

end Compile

/-! ## Rounds and runs -/

namespace Build

variable {build later last : Build} {round : Round} {rounds : List Round}

/-- The problems that are found when the next token is processed. -/
def found (build : Build) : List Problem :=
  match build.compiler.stream with
  | [] => []
  | token :: rest =>
    match Compile.step token { build.compiler with stream := rest } with
    | .ok (_, _, problems) => problems
    | .error _ => []

theorem Reads.taken_importLibrary (reads : build.Reads round later) (sound : build.compiler.Sound)
    {path : String} (isImport : round.token = .importLibrary path) : round.taken = [] := by
  obtain ⟨rest, next, processed⟩ := reads.processed
  obtain ⟨left, before, after⟩ := reads.stream
  obtain rfl : rest = round.taken ++ left := List.cons.inj (next.symm.trans before) |>.2
  obtain ⟨problems, ran, -, -⟩ := exists_of_process processed
  rw [isImport] at ran
  have soundHere : { build.compiler with stream := round.taken ++ left }.Sound := { sound with }
  have splices := Compile.splices_importLibrary soundHere ran
  have imported := reads.imported
  generalize input : later.compiler.input = laterInput at splices
  cases splices with
  | nothing =>
    have stream : later.compiler.stream = round.taken ++ left := congrArg Input.stream input
    have sameImported : later.compiler.imported = build.compiler.imported :=
      congrArg Input.imported input
    have noLibrary : round.library = none := by simpa [sameImported, Round.path?] using imported
    rw [after, Round.added, noLibrary] at stream
    simpa using stream
  | @library other tokens same isNew found =>
    have stream : later.compiler.stream = tokens ++ (round.taken ++ left) :=
      congrArg Input.stream input
    have more : later.compiler.imported = build.compiler.imported ++ [other] :=
      congrArg Input.imported input
    -- The library of the round is the one that was spliced in.
    obtain ⟨⟨path, added⟩, isLibrary, rfl⟩ : ∃ library, round.library = some library ∧
        library.1 = other := by
      rw [more, List.append_cancel_left_eq] at imported
      cases library : round.library with
      | none => simp [Round.path?, library] at imported
      | some spliced => exact ⟨spliced, rfl, by simpa [Round.path?, library] using imported.symm⟩
    obtain rfl : added = tokens := Except.ok.inj ((reads.library _ isLibrary).2.2.symm.trans found)
    rw [after, Round.added, isLibrary] at stream
    simpa using stream

/-- A directive takes words, separators and values only. -/
theorem Reads.arguments (reads : build.Reads round later) (sound : build.compiler.Sound) :
    ∀ token ∈ round.taken, token.isArgument = true := by
  obtain ⟨rest, next, processed⟩ := reads.processed
  obtain ⟨left, before, after⟩ := reads.stream
  obtain rfl : rest = round.taken ++ left := List.cons.inj (next.symm.trans before) |>.2
  by_cases isImport : ∃ path, round.token = .importLibrary path
  · obtain ⟨path, isImport⟩ := isImport
    simp [reads.taken_importLibrary sound isImport]
  · have noImport (path : String) : round.token ≠ .importLibrary path :=
      fun same => isImport ⟨path, same⟩
    have noLibrary : round.library = none := by
      cases library : round.library with
      | none => rfl
      | some spliced => exact absurd (reads.library spliced library).1 (noImport _)
    obtain ⟨taken, split, arguments⟩ := (steps_process processed).stream noImport
    have same : round.taken = taken := by
      rw [after, Round.added, noLibrary] at split
      exact List.append_cancel_right split
    exact same ▸ arguments

/-- A round counts the line breaks that leave the stream in it. -/
theorem Reads.line (reads : build.Reads round later) (sound : build.compiler.Sound) :
    later.line = build.line + lineBreaks round.popped := by
  obtain ⟨rest, -, processed⟩ := reads.processed
  obtain ⟨problems, -, line, -⟩ := exists_of_process processed
  have noneTaken : round.taken.count .newLine = 0 := by
    rw [List.count_eq_zero]
    intro inside
    cases reads.arguments sound .newLine inside
  rw [line, lineBreaks, Round.popped, List.count_cons, noneTaken]
  split <;> simp

/-- What is found in a round is put behind the other diagnostics, unless the round begins in a try
region. -/
theorem Reads.diagnostics (reads : build.Reads round later) :
    later.diagnostics = build.diagnostics ++
      if build.compiler.tryRegion then [] else build.found.map (·.at build.line) := by
  obtain ⟨rest, next, processed⟩ := reads.processed
  obtain ⟨problems, ran, -, diagnostics⟩ := exists_of_process processed
  have isFound : build.found = problems := by
    rw [found, next]
    simp only [ran]
  rw [diagnostics, isFound]

theorem Reached.line_of_runs {files : FileTree} {stream : TokenStream} {options : BuildOptions}
    {autoName : Bool} (reached : Reached files stream options autoName build)
    (runs : build.Runs rounds last) : last.line = build.line + lineBreaks (poppedIn rounds) := by
  induction runs with
  | none => rfl
  | @round build next last round rounds reads runs ih =>
    obtain ⟨rest, here, processed⟩ := reads.processed
    have popped : poppedIn (round :: rounds) = round.popped ++ poppedIn rounds := List.flatMap_cons
    rw [ih (reached.step here processed), reads.line reached.sound, popped, lineBreaks_append,
      Nat.add_assoc]

theorem Runs.split {before after : List Round} (runs : build.Runs (before ++ after) last) :
    ∃ middle, build.Runs before middle ∧ middle.Runs after last := by
  induction before generalizing build with
  | nil => exact ⟨build, .none, runs⟩
  | cons round before ih =>
    cases runs with
    | round reads runs =>
      obtain ⟨middle, first, second⟩ := ih runs
      exact ⟨middle, .round reads first, second⟩

end Build

/-! ## The order of diagnostics -/

/-- The lines of diagnostics do not decrease, and none is beyond some line. -/
structure InOrder (line : Nat) (diagnostics : List Diagnostic) : Prop where
  sorted : diagnostics.Pairwise (·.line ≤ ·.line)
  bounded : ∀ diagnostic ∈ diagnostics, diagnostic.line ≤ line

namespace InOrder

variable {line : Nat} {diagnostics : List Diagnostic} (inOrder : InOrder line diagnostics)

include inOrder

theorem mono {further : Nat} (le : line ≤ further) : InOrder further diagnostics :=
  ⟨inOrder.sorted, fun diagnostic here => (inOrder.bounded diagnostic here).trans le⟩

/-- Problems that are found on that line come last. -/
theorem append (problems : List Problem) : InOrder line (diagnostics ++ problems.map (·.at line)) := by
  have onLine : ∀ diagnostic ∈ problems.map (·.at line), diagnostic.line = line := by
    intro diagnostic here
    obtain ⟨problem, -, rfl⟩ := List.mem_map.mp here
    rfl
  refine ⟨List.pairwise_append.mpr ⟨inOrder.sorted, ?_, fun first here second there => ?_⟩,
    fun diagnostic here => ?_⟩
  · exact List.pairwise_of_forall_mem_list fun first here second there =>
      (onLine first here).le.trans (onLine second there).ge
  · exact (inOrder.bounded first here).trans (onLine second there).ge
  · rcases List.mem_append.mp here with earlier | new
    · exact inOrder.bounded diagnostic earlier
    · exact (onLine diagnostic new).le

end InOrder

namespace Build

variable {build later : Build}

theorem inOrder_process {token : Token} (processed : build.process token = .ok later)
    (inOrder : InOrder build.line build.diagnostics) : InOrder later.line later.diagnostics := by
  obtain ⟨problems, -, line, diagnostics⟩ := exists_of_process processed
  have forward : build.line ≤ later.line := by
    rw [line]
    split <;> omega
  rw [diagnostics]
  split
  · rw [List.append_nil]
    exact inOrder.mono forward
  · exact (inOrder.append problems).mono forward

theorem Reached.inOrder {files : FileTree} {stream : TokenStream} {options : BuildOptions}
    {autoName : Bool} (reached : Reached files stream options autoName build) :
    InOrder build.line build.diagnostics := by
  induction reached with
  | start => exact ⟨.nil, by simp⟩
  | step _ _ processed ih => exact inOrder_process processed ih

end Build

/-- Diagnostics are in the order of the source. A build that hands over a module makes a run from
its first token to its last. What a round of it finds is put behind the other diagnostics, on the
line after all line breaks that were read before; in a try region it is dropped. What is found at
the end is on the last line. So lines never decrease. No line break escapes the count: directives
take none as an argument, and whatever waits for a token, a line break is acted on. -/
theorem diagnostics_in_source_order {files : FileTree} {stream : TokenStream}
    {options : BuildOptions} {autoName : Bool} {result : BuildResult}
    (built : build files stream options autoName = .ok result) :
    (∃ session rounds done, ∃ atEnd : List Problem,
      Session.create { options with header := stream.header } autoName = .ok session ∧
      (Build.initial session files stream.tokens).Runs rounds done ∧ done.compiler.stream = [] ∧
      (∀ before round after, rounds = before ++ round :: after →
        ∃ state later, (Build.initial session files stream.tokens).Runs before state ∧
          state.Reads round later ∧ later.Runs after done ∧
          later.diagnostics = state.diagnostics ++ (if state.compiler.tryRegion then [] else
            state.found.map (·.at (1 + lineBreaks (poppedIn before)))) ∧
          .newLine ∉ round.taken) ∧
      result.diagnostics = done.diagnostics ++ atEnd.map (·.at (1 + lineBreaks (poppedIn rounds)))) ∧
      result.diagnostics.Pairwise (·.line ≤ ·.line) ∧
      ∀ c, Compile.step .newLine c =
        .ok ((), { c with retractable := none, pendingExtends := false, inDirective := false },
          if c.pendingExtends then [.expectedBaseType .newLine] else []) := by
  obtain ⟨session, created⟩ := Session.exists_create { options with header := stream.header }
    autoName
  have start : Build.Reached files stream options autoName
    (Build.initial session files stream.tokens) := .start created
  obtain ⟨rounds, done, runs, ended, finished⟩ := start.exists_runs_to_end built
  have reached := start.runs runs
  obtain ⟨others, checked, -⟩ := Compile.checkTermination_eq reached.sound
  obtain ⟨closing, diagnostics, -⟩ := Build.diagnostics_of_finish checked finished
  have lastLine : done.line = 1 + lineBreaks (poppedIn rounds) := start.line_of_runs runs
  refine ⟨⟨session, rounds, done, _, created, runs, ended, ?_, lastLine ▸ diagnostics⟩, ?_,
    fun _ => Compile.step_newLine_eq⟩
  · rintro before round after rfl
    obtain ⟨state, first, others⟩ := runs.split
    cases others with
    | @round _ later _ _ _ reads others =>
      have line : state.line = 1 + lineBreaks (poppedIn before) := start.line_of_runs first
      refine ⟨state, later, first, reads, others, line ▸ reads.diagnostics, fun inside => ?_⟩
      cases reads.arguments (start.runs first).sound .newLine inside
  · rw [diagnostics]
    exact (reached.inOrder.append _).sorted

/-- A bracket is closed that is not open, three times: on a line, in a try region, and after it. The
directive that follows has no argument, since a line ends there, and a parenthesis stays open. -/
def faultyLines : TokenStream where
  header := .script
  platform := 0
  tokens :=
    [.newLine, .block false, .directive, .literal "try", .block false, .newLine, .directive,
      .literal "endtry", .block false, .directive, .literal "outtype", .newLine, .statement true]

/-- Four of the five problems are kept, on lines that do not decrease. -/
theorem faultyLines_in_source_order :
    ∃ result, build (.empty []) faultyLines {} false = .ok result ∧
      result.diagnostics.map (·.line) = [2, 3, 3, 4] ∧ result.diagnostics.Pairwise (·.line ≤ ·.line) := by
  obtain ⟨result, built, lines⟩ : ∃ result, build (.empty []) faultyLines {} false = .ok result ∧
      result.diagnostics.map (·.line) = [2, 3, 3, 4] := ⟨_, rfl, by decide +kernel⟩
  exact ⟨result, built, lines, (diagnostics_in_source_order built).2.1⟩

end OnePass
