import OnePass.Proofs.Expression.OpenBody
import OnePass.Proofs.Outline.Closing
import OnePass.Proofs.Outline.Step

/-! # Brackets are matched

The compiler counts open brackets of each kind, and keeps a stack of frames for those of
expressions. Here both are compared with a `Matcher` that reads nothing but the brackets of a
stream: it counts blocks, and keeps the open parentheses and square brackets in one stack, from
which a closing bracket takes the innermost one if it fits.

* `Build.Reached.tracks`: in every state of a build whose tokens include no library and no list of
  interfaces, the counts and the frames are those of the matcher.
* `Matcher.run_balanced`: brackets that are properly nested leave the matcher as it was.
* `nesting_matches_brackets`: what is reported at the end of the tokens. -/

namespace OnePass

open List

/-! ## The matcher -/

/-- The bracket that a token is, and whether it opens. -/
def Token.bracket? : Token → Option (Bracket × Bool)
  | .block isOpen => some (.block, isOpen)
  | .statement isOpen => some (.statement, isOpen)
  | .sequence isOpen => some (.sequence, isOpen)
  | _ => none

/-- The brackets among some tokens. -/
def bracketsOf (tokens : List Token) : List (Bracket × Bool) := tokens.filterMap (·.bracket?)

theorem bracketsOf_append (first second : List Token) :
    bracketsOf (first ++ second) = bracketsOf first ++ bracketsOf second :=
  filterMap_append

/-- What is open after some brackets. -/
structure Matcher where
  /-- number of open blocks -/
  blocks : Nat := 0
  /-- open parentheses and square brackets, innermost first -/
  opened : List Bracket := []

namespace Matcher

/-- Reads a bracket. A closing bracket that is not that of the innermost open one is ignored. -/
def read (matcher : Matcher) : Bracket × Bool → Matcher
  | (.block, true) => { matcher with blocks := matcher.blocks + 1 }
  | (.block, false) => { matcher with blocks := matcher.blocks - 1 }
  | (bracket, true) => { matcher with opened := bracket :: matcher.opened }
  | (bracket, false) =>
    if matcher.opened.head? = some bracket then { matcher with opened := matcher.opened.tail } else matcher

/-- Reads brackets, one after the other. -/
def run (matcher : Matcher) (brackets : List (Bracket × Bool)) : Matcher :=
  brackets.foldl read matcher

/-- The numbers of open brackets. -/
def counts (matcher : Matcher) : Nesting where
  blocks := matcher.blocks
  statements := matcher.opened.count .statement
  sequences := matcher.opened.count .sequence

/-- What the compiler keeps when this is open. -/
def nested (matcher : Matcher) : Nested := ⟨matcher.counts, matcher.opened⟩

/-- Blocks are not on the stack. -/
def Plain (matcher : Matcher) : Prop := .block ∉ matcher.opened

variable {matcher : Matcher}

theorem Plain.read (plain : matcher.Plain) (bracket : Bracket × Bool) :
    (matcher.read bracket).Plain := by
  obtain ⟨kind, isOpen⟩ := bracket
  have closed (kind : Bracket) :
      (if matcher.opened.head? = some kind then { matcher with opened := matcher.opened.tail }
        else matcher).Plain := by
    split
    · exact fun here => plain (List.mem_of_mem_tail here)
    · exact plain
  cases kind with
  | block => cases isOpen <;> exact plain
  | statement | sequence =>
    cases isOpen with
    | true => simpa [Plain, Matcher.read] using plain
    | false => exact closed _

theorem Plain.run (plain : matcher.Plain) (brackets : List (Bracket × Bool)) :
    (matcher.run brackets).Plain := by
  induction brackets generalizing matcher with
  | nil => exact plain
  | cons bracket rest ih => exact ih (plain.read bracket)

theorem run_append (first second : List (Bracket × Bool)) :
    matcher.run (first ++ second) = (matcher.run first).run second :=
  foldl_append

/-- The counters of the compiler and its stack of brackets follow the matcher. The counters matter
only where nothing of their kind is open, and there the stack says the same. -/
theorem nest_nested (plain : matcher.Plain) (token : Token) :
    token.nest matcher.nested = (matcher.run (bracketsOf [token])).nested := by
  obtain ⟨blocks, opened⟩ := matcher
  cases token with
  | block isOpen => cases isOpen <;> rfl
  -- A closing bracket finds nothing open, one of its own kind innermost, or one of the other kind.
  | statement isOpen | sequence isOpen =>
    cases isOpen with
    | true => simp [Token.nest, nested, counts, run, bracketsOf, Token.bracket?, read]
    | false =>
      cases opened with
      | nil => rfl
      | cons innermost rest =>
        cases innermost with
        | block => exact absurd mem_cons_self plain
        | statement | sequence =>
          simp [Token.nest, nested, counts, run, bracketsOf, Token.bracket?, read]
  | _ => rfl

end Matcher

/-! ## Proper nesting -/

/-- Every bracket that opens is closed by one of its kind, and what is between them is properly
nested. -/
inductive Balanced : List (Bracket × Bool) → Prop
  | nil : Balanced []
  | pair (bracket : Bracket) {inner rest : List (Bracket × Bool)} (inside : Balanced inner)
      (after : Balanced rest) :
      Balanced ((bracket, true) :: inner ++ (bracket, false) :: rest)

/-- Brackets that are properly nested leave nothing open and close nothing. -/
theorem Matcher.run_balanced {brackets : List (Bracket × Bool)} (balanced : Balanced brackets)
    (matcher : Matcher) : matcher.run brackets = matcher := by
  induction balanced generalizing matcher with
  | nil => rfl
  | @pair bracket inner rest inside after ihInside ihAfter =>
    have closed : ((matcher.read (bracket, true)).run inner).read (bracket, false) = matcher := by
      rw [ihInside]
      cases bracket <;> simp [Matcher.read]
    calc matcher.run ((bracket, true) :: inner ++ (bracket, false) :: rest)
        = (((matcher.read (bracket, true)).run inner).read (bracket, false)).run rest :=
          Matcher.run_append _ _
      _ = matcher := by rw [closed, ihAfter]

/-! ## Builds -/

/-- A token that neither adds tokens nor begins a list of interfaces, in which brackets are no
brackets. -/
def Token.isOrdinary : Token → Bool
  | .implementsClause | .importLibrary _ => false
  | _ => true

/-- The state is where the matcher is, and will read the brackets that are left as brackets. -/
structure Compiler.Tracks (matcher : Matcher) (c : Compiler) : Prop where
  nested : c.nested = matcher.nested
  interfaces : c.interfaces = none
  ordinary : ∀ token ∈ c.stream, token.isOrdinary = true

theorem bracketsOf_arguments {taken : List Token}
    (arguments : ∀ token ∈ taken, token.isArgument = true) (rest : List Token) :
    bracketsOf (taken ++ rest) = bracketsOf rest := by
  have none : bracketsOf taken = [] := by
    refine filterMap_eq_nil_iff.mpr fun token here => ?_
    have isArgument := arguments token here
    cases token <;> first | rfl | cases isArgument
  rw [bracketsOf_append, none, nil_append]

theorem Compiler.Steps.tracks {token : Token} {rest : List Token} {c later : Compiler}
    {matcher : Matcher} (plain : matcher.Plain) (stream : c.stream = token :: rest)
    (tracks : c.Tracks matcher) (steps : { c with stream := rest }.Steps token later) :
    later.Tracks (matcher.run (bracketsOf [token])) ∧ bracketsOf rest = bracketsOf later.stream := by
  have here := tracks.ordinary
  rw [stream] at here
  obtain ⟨isOrdinary, others⟩ := forall_mem_cons.mp here
  have noImport : ∀ path, token ≠ .importLibrary path := by
    rintro path rfl
    cases isOrdinary
  have noList : token ≠ .implementsClause := by
    rintro rfl
    cases isOrdinary
  obtain ⟨taken, taken_eq, arguments⟩ := steps.stream noImport
  dsimp only at taken_eq
  refine ⟨⟨?_, steps.interfaces noList tracks.interfaces, fun token inLater => ?_⟩, ?_⟩
  · rw [steps.nested tracks.interfaces, ← Matcher.nest_nested plain token]
    exact congrArg token.nest tracks.nested
  · exact others token (by rw [taken_eq]; exact mem_append_right _ inLater)
  · rw [taken_eq, bracketsOf_arguments arguments]

/-- In every state of a build, the matcher is where the state is once it has read the brackets
before. -/
theorem Build.Reached.tracks {files : FileTree} {stream : TokenStream} {options : BuildOptions}
    {autoName : Bool} {build : Build} (ordinary : ∀ token ∈ stream.tokens, token.isOrdinary = true)
    (reached : Reached files stream options autoName build) :
    ∃ matcher : Matcher, matcher.Plain ∧ build.compiler.Tracks matcher ∧
      matcher.run (bracketsOf build.compiler.stream) = ({} : Matcher).run (bracketsOf stream.tokens) := by
  -- The invariant: what the matcher has read, and the brackets still in the stream, are those of
  -- the whole stream.
  induction reached with
  | start created => exact ⟨{}, not_mem_nil, ⟨rfl, rfl, ordinary⟩, rfl⟩
  | @step build later token rest reached next processed ih =>
    obtain ⟨matcher, plain, tracks, same⟩ := ih
    obtain ⟨tracks, brackets⟩ := (steps_process processed).tracks plain next tracks
    refine ⟨_, plain.run _, tracks, ?_⟩
    have read : bracketsOf build.compiler.stream = bracketsOf [token] ++ bracketsOf rest := by
      rw [next]
      exact bracketsOf_append [token] rest
    rw [← same, read, Matcher.run_append, brackets]

/-! ## The end of the tokens -/

/-- One problem for each kind of bracket that is open, with the number of open ones. -/
def needEnds (nesting : Nesting) : List Problem :=
  (if nesting.blocks = 0 then [] else [.unclosed nesting.blocks .block]) ++
    (if nesting.statements = 0 then [] else [.unclosed nesting.statements .statement]) ++
    (if nesting.sequences = 0 then [] else [.unclosed nesting.sequences .sequence])

theorem unclosed_eq_needEnds (nesting : Nesting) : nesting.unclosed = needEnds nesting := by
  obtain ⟨blocks, statements, sequences⟩ := nesting
  by_cases noBlocks : blocks = 0 <;> by_cases noStatements : statements = 0 <;>
    by_cases noSequences : sequences = 0 <;>
    simp [Nesting.unclosed, needEnds, noBlocks, noStatements, noSequences, Nat.pos_of_ne_zero]

/-- The problem is put as a need for the end of something. -/
def Problem.NeedsEndOf (problem : Problem) : Prop :=
  "Need end of ".toList <+: problem.message.toList

instance : DecidablePred Problem.NeedsEndOf := fun problem =>
  inferInstanceAs (Decidable ("Need end of ".toList <+: problem.message.toList))

theorem needsEndOf_unclosed (count : Nat) (bracket : Bracket) :
    (Problem.unclosed count bracket).NeedsEndOf := by
  have text : (Problem.unclosed count bracket).message =
      "Need end of " ++ (toString count ++ " " ++ bracket.noun ++ "s") := by
    simp only [← String.append_assoc]
    rfl
  rw [Problem.NeedsEndOf, text, String.toList_append]
  exact prefix_append _ _

variable {problem : Problem}

theorem needsEndOf_of_mem {nesting : Nesting} (here : problem ∈ needEnds nesting) :
    problem.NeedsEndOf := by
  have one {count : Nat} {bracket : Bracket}
      (inside : problem ∈ if count = 0 then [] else [Problem.unclosed count bracket]) :
          problem.NeedsEndOf := by
    split at inside
    · cases inside
    · rw [mem_singleton.mp inside]
      exact needsEndOf_unclosed count bracket
  rcases mem_append.mp here with first | inSequences
  · rcases mem_append.mp first with inBlocks | inStatements
    · exact one inBlocks
    · exact one inStatements
  · exact one inSequences

/-- A declaration that is not ended is put otherwise, whatever its name. -/
theorem not_needsEndOf_declaration (name : String) :
    ¬(Problem.declarationNotEnded name).NeedsEndOf := by
  have text : (Problem.declarationNotEnded name).message = "declaration of " ++
      (name ++ " is not terminated") := by
    simp only [← String.append_assoc]
    rfl
  have here : "declaration of ".toList = 'd' :: "eclaration of ".toList := by decide +kernel
  have there : "Need end of ".toList = 'N' :: "eed end of ".toList := by decide +kernel
  rw [Problem.NeedsEndOf, text, String.toList_append, here, there]
  rintro ⟨rest, same⟩
  cases same

theorem Session.Sound.exists_currentType {session : Session} (sound : session.Sound) :
    ∃ found, session.currentType? = .ok found := by
  rw [currentType?, current?]
  cases place : session.openTypes.head?.or session.defaultType with
  | none => exact ⟨none, rfl⟩
  | some index =>
    have inRange : index < session.drafts.length := by
      rcases Option.or_eq_some_iff.mp place with inner | ⟨-, isDefault⟩
      · exact sound.openTypes index (mem_of_head? inner)
      · exact sound.defaultType index isDefault
    have held : session.draft index = .ok session.drafts[index] := by
      rw [Session.draft, getElem?_eq_getElem inRange]
    dsimp only
    rw [held]
    exact ⟨_, rfl⟩

namespace Compile

variable {α β : Type} {c : Compiler} {fine : Problem → Prop}

/-- The action ends without a fault, leaves the state as it is, and reports only problems that meet
the condition. -/
def Reports (fine : Problem → Prop) (action : Compile α) (c : Compiler) : Prop :=
  ∃ a problems, action c = .ok (a, c, problems) ∧ ∀ problem ∈ problems, fine problem

theorem reports_pure (a : α) : (pure a : Compile α).Reports fine c := ⟨a, [], rfl, forall_mem_nil _⟩

theorem reports_report (isFine : fine problem) : (report problem).Reports fine c :=
  ⟨(), [problem], rfl, forall_mem_singleton.mpr isFine⟩

theorem Reports.bind {action : Compile α} {next : α → Compile β} (first : action.Reports fine c)
    (second : ∀ a, (next a).Reports fine c) : (action >>= next).Reports fine c := by
  obtain ⟨a, problems, ran, earlier⟩ := first
  obtain ⟨b, more, ranNext, after⟩ := second a
  exact ⟨b, problems ++ more, by simp [Bind.bind, ran, ranNext],
    forall_mem_append.mpr ⟨earlier, after⟩⟩

theorem reports_lift_bind {outcome : Except Fault α} {a : α} {next : α → Compile β}
    (result : outcome = .ok a) (rest : (next a).Reports fine c) :
    (liftM outcome >>= next : Compile β).Reports fine c := by
  subst result
  obtain ⟨b, problems, ran, after⟩ := rest
  exact ⟨b, problems, by rw [lift_ok_bind_apply, ran], after⟩

theorem reports_if {b : Prop} [Decidable b] {next : Compile α} (isFine : fine problem)
    (rest : next.Reports fine c) : (if b then report problem >>= fun _ => next else next).Reports
      fine c := by
  split
  · exact (reports_report isFine).bind fun _ => rest
  · exact rest

/-- What else waits at the end of the tokens is not put as a need for the end of something. -/
theorem reports_waiting (sound : c.Sound) : (reportWaiting c).Reports (¬·.NeedsEndOf) c := by
  -- Only the last check looks something up, and in a sound state the lookups succeed.
  have names : (reportUnended c.session).Reports (¬·.NeedsEndOf) c := by
    obtain ⟨found, current⟩ := sound.session.exists_currentType
    refine reports_lift_bind current ?_
    cases found with
    | none => exact reports_pure ()
    | some type =>
      have inRange := TypeDraft.id_inRange (sound.session.ensures_currentType.of_ok current type rfl)
      dsimp only
      split
      · exact reports_lift_bind (SymbolTable.typeName_eq_ok inRange)
          (reports_report (not_needsEndOf_declaration _))
      · exact reports_pure ()
  rw [reportWaiting]
  refine reports_if (by decide +kernel) (reports_if (by decide +kernel) ?_)
  cases c.consume with
  | normal => exact reports_if (by decide +kernel) (reports_if (by decide +kernel) names)
  | assign target | ret =>
    refine (reports_report (by decide +kernel)).bind fun _ => ?_
    exact reports_if (by decide +kernel) (reports_if (by decide +kernel) names)

theorem reportAll_bind_apply {problems others : List Problem} {next : Unit → Compile Unit}
    (ran : next () c = .ok ((), c, others)) :
    (reportAll problems >>= next) c = .ok ((), c, problems ++ others) := by
  simp [Bind.bind, reportAll, ran]

/-- At the end of the tokens, the open brackets are reported first and in order, and nothing else is
put as a need for the end of something. -/
theorem checkTermination_eq (sound : c.Sound) : ∃ others,
    checkTermination c = .ok ((), c, needEnds c.nesting ++ others) ∧ ∀ problem ∈ others,
      ¬problem.NeedsEndOf := by
  obtain ⟨_, others, ran, fine⟩ := reports_waiting sound
  refine ⟨others, ?_, fine⟩
  rw [← unclosed_eq_needEnds, checkTermination, get_bind_apply]
  exact reportAll_bind_apply ran

end Compile

/-- What waits at the end of the tokens is reported before what closing the session reports. -/
theorem Build.diagnostics_of_finish {build : Build} {waiting : List Problem} {result : BuildResult}
    (checked : Compile.checkTermination build.compiler = .ok ((), build.compiler, waiting))
    (finished : build.finish = .ok result) :
    ∃ closing, result.diagnostics = build.diagnostics ++ (waiting ++ closing).map (·.at build.line) ∧
      ∀ count bracket, Problem.unclosed count bracket ∉ closing := by
  have gives : Gives build.finish fun result =>
      ∃ closing, result.diagnostics = build.diagnostics ++ (waiting ++ closing).map
        (·.at build.line) ∧ ∀ count bracket, Problem.unclosed count bracket ∉ closing := by
    rw [finish, checked, gives_bind, gives_ok, gives_bind]
    refine (Session.ofClosing_finish _ _).imp ?_
    rintro ⟨_, problems⟩ ofClosing
    refine ⟨problems, rfl, fun count bracket here => ?_⟩
    cases ofClosing _ here
  exact gives.of_ok finished

/-- The counters of brackets are right. At the end of tokens that include no library and no list of
interfaces, they are those of a matcher that has read the brackets alone. What is then reported
begins with one problem for each kind of bracket that is open, with the number of open ones, in the
order of blocks, parentheses and square brackets; there is none if the brackets are properly nested.
No other problem that waits at the end of the tokens is put in this way, and closing the types
reports no open bracket. -/
theorem nesting_matches_brackets {files : FileTree} {stream : TokenStream} {options : BuildOptions}
    {autoName : Bool} {done : Build} (ordinary : ∀ token ∈ stream.tokens, token.isOrdinary = true)
    (reached : Build.Reached files stream options autoName done)
    (ended : done.compiler.stream = []) : done.compiler.nesting =
      (({} : Matcher).run (bracketsOf stream.tokens)).counts ∧ (∃ others,
        Compile.checkTermination done.compiler = .ok ((), done.compiler,
          needEnds done.compiler.nesting ++ others) ∧
            (∀ problem ∈ needEnds done.compiler.nesting, problem.NeedsEndOf) ∧
          (∀ problem ∈ others, ¬problem.NeedsEndOf) ∧
          ∀ result, done.finish = .ok result → ∃ closing, result.diagnostics =
              done.diagnostics ++ (needEnds done.compiler.nesting ++ others ++ closing).map
                (·.at done.line) ∧
            ∀ count bracket, Problem.unclosed count bracket ∉ closing) ∧
      (Balanced (bracketsOf stream.tokens) → needEnds done.compiler.nesting = []) := by
  obtain ⟨matcher, -, tracks, same⟩ := reached.tracks ordinary
  have final : matcher = ({} : Matcher).run (bracketsOf stream.tokens) := by
    rw [← same, ended]
    rfl
  have counted : done.compiler.nesting = (({} : Matcher).run (bracketsOf stream.tokens)).counts := by
    rw [← final]
    exact congrArg Nested.nesting tracks.nested
  refine ⟨counted, ?_, fun balanced => ?_⟩
  · obtain ⟨others, checked, fine⟩ := Compile.checkTermination_eq reached.sound
    exact ⟨others, checked, fun _ => needsEndOf_of_mem, fine,
      fun result finished => Build.diagnostics_of_finish checked finished⟩
  · rw [counted, Matcher.run_balanced balanced]
    rfl

/-- A parenthesis is closed inside an array and a block once too often. -/
def strayBrackets : TokenStream where
  header := .library
  platform := 0
  tokens :=
    [.block true, .statement true, .sequence true, .statement false, .block false, .block false,
      .sequence true]

/-- The stray closings are not counted: one parenthesis and two arrays stay open. -/
theorem strayBrackets_nesting :
    (∀ token ∈ strayBrackets.tokens, token.isOrdinary = true) ∧
      ∃ done, Build.Reached (.empty []) strayBrackets {} false done ∧ done.compiler.stream = [] ∧
        done.compiler.nesting = ⟨0, 1, 2⟩ := by
  have ordinary : ∀ token ∈ strayBrackets.tokens, token.isOrdinary = true := by decide
  obtain ⟨result, built⟩ : ∃ result, build (.empty []) strayBrackets {} false = .ok result :=
    ⟨_, rfl⟩
  obtain ⟨done, reached, ended, -⟩ := exists_reached_of_build built
  exact ⟨ordinary, done, reached, ended, (nesting_matches_brackets ordinary reached ended).1⟩

end OnePass
