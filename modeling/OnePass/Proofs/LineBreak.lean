import OnePass.Proofs.Apart.Step
import OnePass.Proofs.Integrity.Build

/-! # Line breaks

A line break ends a directive and a line. Apart from that it is meant to say nothing, so that a
program without directives can be broken into lines anywhere. This is so unless something waits for
the very next token, whatever it is (`Compiler.MindsBreak`): the name of a base type after
`extends`, and an operator that takes back the result of the call before it. In these two places a
line break is seen, and takes what waits for another token.

Where nothing waits, a line break moves the diagnostics after it one line down and does nothing
else. A program without directives and imports reads one token after the other from a fixed list
(`Build.run_eq_read`), and what it does with them does not depend on the tokens that follow. -/

namespace OnePass

open Except List

/-- Whether a token is neither a directive mark nor an import. -/
def Token.isPlain : Token → Bool
  | directive | importLibrary _ => false
  | _ => true

/-- Whether a line break is seen in a state, with the token that follows. -/
def Compiler.MindsBreak (c : Compiler) (next : Option Token) : Prop :=
  c.pendingExtends = true ∨ c.retractable ≠ none ∧ ∃ op, next = some (.operator op)

/-- A diagnostic one line further down. -/
def Diagnostic.lower (diagnostic : Diagnostic) : Diagnostic :=
  { diagnostic with line := diagnostic.line + 1 }

/-- Diagnostics with those after the first `count` one line further down. -/
def lowerFrom (count : Nat) (diagnostics : List Diagnostic) : List Diagnostic :=
  diagnostics.take count ++ (diagnostics.drop count).map (·.lower)

variable {count : Nat}

theorem lowerFrom_append {diagnostics : List Diagnostic} (found : count ≤ diagnostics.length)
    (more : List Diagnostic) :
    lowerFrom count (diagnostics ++ more) = lowerFrom count diagnostics ++ more.map (·.lower) := by
  simp [lowerFrom, take_append_of_le_length found, drop_append_of_le_length found]

theorem lowerFrom_length (diagnostics : List Diagnostic) :
    lowerFrom diagnostics.length diagnostics = diagnostics := by
  simp [lowerFrom]

theorem map_lower_at (problems : List Problem) (line : Nat) :
    (problems.map (·.at line)).map (·.lower) = problems.map (·.at (line + 1)) := by
  rw [map_map]
  rfl

/-! ## Steps -/

namespace Compile

variable {α β : Type} {c : Compiler} {token : Token}

/-- An action that does not look aside, and another that does not do so in the state that
follows. -/
theorem Apart.bind_apply {action : Compile α} {next : α → Compile β} {aside : Aside}
    (first : action.Apart) (second : ∀ a later problems, action c = .ok (a, later, problems) →
      next a (later.beside aside) = outcomeBeside aside (next a later)) :
    (action >>= next) (c.beside aside) = outcomeBeside aside ((action >>= next) c) := by
  simp only [Bind.bind, first aside c]
  rcases ran : action c with fault | ⟨a, later, problems⟩
  · rfl
  · simp only [outcomeBeside, Except.map, second a later problems ran]
    rcases next a later with fault | outcome <;> rfl

/-- Where no directive is read, a plain token does not look aside. -/
theorem step_beside (plain : token.isPlain = true) (noDirective : c.inDirective = false)
    (aside : Aside) (sameMark : aside.inDirective = false) :
    step token (c.beside aside) = outcomeBeside aside (step token c) := by
  cases looks : token.looksAside with
  | false => exact apart_step looks aside c
  | true =>
    rw [step_eq]
    refine (apart_awaited token).bind_apply fun rest later problems ran => ?_
    have sameAside : later.aside = c.aside := (apart_awaited token).aside_eq ran
    have stillNone : later.inDirective = false :=
      (congrArg Aside.inDirective sameAside).trans noDirective
    cases rest with
    | none => rfl
    | some retract =>
      -- Of the tokens that look aside, only these two are left.
      cases token with
      | newLine =>
        simp [dispatch, outcomeBeside, Except.map, Compiler.beside, sameMark]
      | literal text =>
        have noMark : (later.beside aside).inDirective = false := sameMark
        simp only [dispatch, literal, get_bind_apply, stillNone, noMark]
        exact apart_segment text later aside later
      | directive | importLibrary => cases plain
      | _ => cases looks

/-- Where no directive is read, a plain token leaves the aside as it is. -/
theorem aside_eq_of_step (plain : token.isPlain = true) (noDirective : c.inDirective = false)
    {later : Compiler} {problems : List Problem} (ran : step token c = .ok ((), later, problems)) :
    later.aside = c.aside := by
  have same := step_beside plain noDirective c.aside noDirective
  rw [Compiler.beside_aside, ran] at same
  have laterBeside : later = later.beside c.aside := by simpa [outcomeBeside, Except.map] using same
  rw [laterBeside, Compiler.aside_beside]

theorem checkEnd_newLine : checkEnd .newLine c = .ok ((), c, []) := by
  rw [checkEnd, get_bind_apply]
  cases c.needEnd <;> rfl

theorem readInterfaces_newLine : readInterfaces .newLine c = .ok (false, c, []) := by
  unfold readInterfaces
  rw [get_bind_apply]
  cases c.interfaces <;> rfl

theorem readBase_newLine : readBase .newLine c = .ok (false, { c with pendingExtends := false },
    if c.pendingExtends then [.expectedBaseType .newLine] else []) := by
  unfold readBase
  rw [get_bind_apply]
  cases waits : c.pendingExtends with
  | true => rfl
  | false =>
    have same : { c with pendingExtends := false } = c := by rw [← waits]
    rw [same]
    rfl

/-- Whatever waits for it, a line break is acted on: it ends a directive. A base type that waits is
asked for. -/
theorem step_newLine_eq : step .newLine c =
    .ok ((), { c with retractable := none, pendingExtends := false, inDirective := false },
      if c.pendingExtends then [.expectedBaseType .newLine] else []) := by
  have taken : takeRetractable c = .ok (c.retractable, { c with retractable := none }, []) := rfl
  have rest (later : Compiler) : (do
      if ← readInterfaces .newLine then return
      if (← get).consume != .normal && Token.newLine.isEnd then finishConsume
      dispatch .newLine c.retractable : Compile Unit) later =
          .ok ((), { later with inDirective := false }, []) := by
    rw [bind_eq readInterfaces_newLine]
    simp [Token.isEnd, dispatch]
  rw [step, bind_eq taken, bind_eq checkEnd_newLine, bind_ok readBase_newLine (rest _), append_nil]

/-- A line break forgets that a result was dropped, and does nothing else unless a base type
waits. -/
theorem step_newLine (noBase : c.pendingExtends = false) (noDirective : c.inDirective = false) :
    step .newLine c = .ok ((), { c with retractable := none }, []) := by
  simp [step_newLine_eq, noBase, noDirective]

/-- What a token does after what waits for it, if it is no operator, does not depend on a result
that was dropped. -/
theorem dispatch_eq_none (noOperator : ∀ op, token ≠ .operator op) (retract : Option TypeId) :
    dispatch token retract = dispatch token none := by
  cases token with
  | operator op => exact absurd rfl (noOperator op)
  | block opens | statement opens | sequence opens => cases opens <;> rfl
  | separator kind => cases kind <;> rfl
  | _ => rfl

/-- Only an operator takes back a result that was dropped. -/
theorem step_forget (noOperator : ∀ op, token ≠ .operator op) :
    step token { c with retractable := none } = step token c := by
  -- The mark is the first thing that a step takes away, and it is only handed to the token itself.
  have taken (c : Compiler) : takeRetractable c =
    .ok (c.retractable, { c with retractable := none }, []) := rfl
  simp only [step]
  rw [bind_eq (taken c), bind_eq (taken { c with retractable := none })]
  simp only [dispatch_eq_none noOperator c.retractable]

end Compile

/-! ## Reading a fixed list of tokens -/

namespace Build

variable {build later : Build} {token : Token} {tokens : List Token}

theorem exists_of_process (processed : build.process token = .ok later) :
    ∃ problems, Compile.step token build.compiler = .ok ((), later.compiler, problems) ∧
      later.line = (if token == .newLine then build.line + 1 else build.line) ∧
      later.diagnostics = build.diagnostics ++
        if build.compiler.tryRegion then [] else problems.map (·.at build.line) := by
  rw [process] at processed
  rcases ran : Compile.step token build.compiler with fault | ⟨⟨⟩, stepped, problems⟩
  · simp [ran, bind, Except.bind] at processed
  · simp only [ran, bind, Except.bind, pure, Except.pure, ok.injEq] at processed
    subst processed
    exact ⟨problems, rfl, rfl, rfl⟩

/-- Processes some tokens, which are not taken from the stream. -/
def read (tokens : List Token) (build : Build) : Except Fault Build := tokens.foldlM process build

@[simp]
theorem read_nil (build : Build) : build.read [] = .ok build := rfl

theorem read_cons (build : Build) (token : Token) (rest : List Token) :
    build.read (token :: rest) = build.process token >>= read rest := rfl

theorem exists_of_read_cons {rest : List Token} (read : build.read (token :: rest) = .ok later) :
    ∃ next, build.process token = .ok next ∧ next.read rest = .ok later := by
  rw [read_cons] at read
  rcases processed : build.process token with fault | next
  · simp [processed, bind, Except.bind] at read
  · rw [processed] at read
    exact ⟨next, rfl, read⟩

theorem read_append (build : Build) (first second : List Token) :
    build.read (first ++ second) = build.read first >>= read second :=
  foldlM_append

/-- Where no directive is read, a plain token does not depend on the tokens that follow. -/
theorem process_reading (plain : token.isPlain = true)
    (noDirective : build.compiler.inDirective = false) (rest : List Token) :
    (build.reading rest).process token = (build.process token).map (·.reading rest) := by
  have beside := Compile.step_beside plain noDirective
    ⟨rest, build.compiler.inDirective, build.compiler.tryRegion⟩ noDirective
  simp only [process]
  rw [show (build.reading rest).compiler = build.compiler.beside
    ⟨rest, build.compiler.inDirective, build.compiler.tryRegion⟩ from rfl, beside]
  rcases ran : Compile.step token build.compiler with fault | ⟨⟨⟩, later, problems⟩
  · rfl
  · have kept : later.aside = build.compiler.aside := Compile.aside_eq_of_step plain noDirective ran
    have besideLater : later.beside ⟨rest, build.compiler.inDirective, build.compiler.tryRegion⟩ =
        { later with stream := rest } := by
      rw [← show later.inDirective = build.compiler.inDirective from congrArg
        Aside.inDirective kept, ← show later.tryRegion = build.compiler.tryRegion from congrArg
          Aside.tryRegion kept]
      rfl
    simp only [Compile.outcomeBeside, Except.map, besideLater]
    rfl

/-- A plain token leaves the rest of the stream as it is, and begins no directive. -/
theorem aside_process (plain : token.isPlain = true)
    (noDirective : build.compiler.inDirective = false)
    (processed : build.process token = .ok later) : later.compiler.aside = build.compiler.aside := by
  obtain ⟨problems, ran, -, -⟩ := exists_of_process processed
  exact Compile.aside_eq_of_step plain noDirective ran

theorem aside_read (plain : ∀ token ∈ tokens, token.isPlain = true)
    (noDirective : build.compiler.inDirective = false) (read : build.read tokens = .ok later) :
    later.compiler.aside = build.compiler.aside := by
  induction tokens generalizing build with
  | nil =>
    cases read
    rfl
  | cons token rest ih =>
    obtain ⟨first, others⟩ := forall_mem_cons.mp plain
    obtain ⟨next, processed, readOn⟩ := exists_of_read_cons read
    have kept := aside_process first noDirective processed
    have stillNone : next.compiler.inDirective = false :=
      (congrArg Aside.inDirective kept).trans noDirective
    exact (ih others stillNone readOn).trans kept

theorem run_eq_read {fuel : Nat} (plain : ∀ token ∈ tokens, token.isPlain = true)
    (noDirective : build.compiler.inDirective = false) (ended : build.compiler.stream = [])
    (enough : tokens.length ≤ fuel) : (build.reading tokens).run fuel = build.read tokens := by
  -- The build is kept without the rest of the stream, so that the induction hypothesis fits the
  -- state after a token.
  induction tokens generalizing build fuel with
  | nil =>
    have same : build.reading [] = build := by rw [reading, ← ended]
    rw [same]
    cases fuel <;> simp [run, ended]
  | cons token rest ih =>
    obtain ⟨first, others⟩ := forall_mem_cons.mp plain
    obtain ⟨fuel, rfl⟩ : ∃ less, fuel = less + 1 := ⟨fuel - 1, by grind⟩
    have next : (build.reading (token :: rest)).compiler.stream = token :: rest := rfl
    rw [run_succ next, read_cons]
    rw [show (build.reading (token :: rest)).reading rest = build.reading rest from rfl,
      process_reading first noDirective]
    rcases processed : build.process token with fault | next
    · rfl
    · have kept := aside_process first noDirective processed
      exact ih others ((congrArg Aside.inDirective kept).trans noDirective)
        ((congrArg Aside.stream kept).trans ended) (by grind)

/-- The states of a build between its tokens are those after reading some of them. -/
theorem Reached.read {files : FileTree} {stream : TokenStream} {options : BuildOptions}
    {autoName : Bool} {tokens after : List Token}
    (reached : Reached files stream options autoName (build.reading (tokens ++ after)))
    (plain : ∀ token ∈ tokens, token.isPlain = true)
    (noDirective : build.compiler.inDirective = false) (read : build.read tokens = .ok later) :
    Reached files stream options autoName (later.reading after) := by
  induction tokens generalizing build with
  | nil =>
    cases read
    exact reached
  | cons token rest ih =>
    obtain ⟨first, others⟩ := List.forall_mem_cons.mp plain
    obtain ⟨next, processed, readOn⟩ := exists_of_read_cons read
    have kept := aside_process first noDirective processed
    have same := process_reading first noDirective (rest ++ after)
    rw [processed] at same
    exact ih (.step reached rfl same) others ((congrArg Aside.inDirective kept).trans noDirective)
      readOn

/-- Every state of a build of plain tokens comes after reading some of them from the beginning. -/
theorem Reached.exists_read {files : FileTree} {stream : TokenStream} {options : BuildOptions}
    {autoName : Bool} (plain : ∀ token ∈ stream.tokens, token.isPlain = true)
    (reached : Reached files stream options autoName build) : build.compiler.inDirective = false ∧
      ∃ session done, Session.create { options with header := stream.header } autoName =
        .ok session ∧ stream.tokens = done ++ build.compiler.stream ∧
          Build.read done { compiler := { session := session, files := files, stream := [] } } =
            .ok (build.reading []) := by
  induction reached with
  | @start session created => exact ⟨rfl, session, [], created, rfl, rfl⟩
  | @step state later token rest reached next processed ih =>
    obtain ⟨noDirective, session, done, created, split, read⟩ := ih
    have first : token.isPlain = true := plain token (by simp [split, next])
    have noDirectiveHere : (state.reading []).compiler.inDirective = false := noDirective
    have besides : (state.reading rest).process token = ((state.reading []).process token).map
        (·.reading rest) :=
      process_reading first noDirectiveHere rest
    rw [reading, processed] at besides
    -- The token was processed with the rest of the stream behind it. Without it, it leads to the
    -- same state.
    rcases stepped : (state.reading []).process token with fault | after
    · simp [stepped, Except.map] at besides
    · obtain rfl : later = after.reading rest := by simpa [stepped, Except.map] using besides
      have kept : after.compiler.aside = (state.reading []).compiler.aside :=
        aside_process first noDirectiveHere stepped
      have ended : after.reading [] = after := by
        rw [reading, ← show after.compiler.stream = [] from congrArg Aside.stream kept]
      refine ⟨(congrArg Aside.inDirective kept).trans noDirective, session, done ++ [token],
        created, ?_, ?_⟩
      · rw [split, next, append_assoc]
        rfl
      · rw [read_append, read, show (after.reading rest).reading [] = after.reading [] from rfl, ended]
        simp [bind, Except.bind, read_cons, stepped]

/-! ## Lines -/

/-- A build on the next line, with the diagnostics after the first `count` one line further down. -/
def lowered (count : Nat) (build : Build) : Build :=
  { build with line := build.line + 1, diagnostics := lowerFrom count build.diagnostics }

theorem process_lowered (found : count ≤ build.diagnostics.length) (token : Token) :
    (build.lowered count).process token = (build.process token).map (lowered count) := by
  have sameCompiler : (build.lowered count).compiler = build.compiler := rfl
  rw [process, process, sameCompiler]
  rcases Compile.step token build.compiler with fault | ⟨⟨⟩, later, problems⟩
  · rfl
  · simp only [bind, Except.bind, pure, Except.pure, Except.map, ok.injEq, mk.injEq, true_and, lowered,
      lowerFrom_append found]
    constructor
    · split <;> rfl
    · -- What the step reports is new, so it lies behind the diagnostics that stay.
      by_cases hidden : build.compiler.tryRegion = true
      · simp [hidden]
      · rw [if_neg hidden, if_neg hidden, map_lower_at]

theorem length_diagnostics_process (processed : build.process token = .ok later) :
    build.diagnostics.length ≤ later.diagnostics.length := by
  obtain ⟨problems, -, -, diagnostics⟩ := exists_of_process processed
  rw [diagnostics, length_append]
  exact Nat.le_add_right _ _

theorem length_diagnostics_read (read : build.read tokens = .ok later) :
    build.diagnostics.length ≤ later.diagnostics.length := by
  induction tokens generalizing build with
  | nil =>
    cases read
    exact le_rfl
  | cons token rest ih =>
    obtain ⟨next, processed, readOn⟩ := exists_of_read_cons read
    exact (length_diagnostics_process processed).trans (ih readOn)

theorem read_lowered (found : count ≤ build.diagnostics.length) (tokens : List Token) :
    (build.lowered count).read tokens = (build.read tokens).map (lowered count) := by
  induction tokens generalizing build with
  | nil => rfl
  | cons token rest ih =>
    rw [read_cons, read_cons, process_lowered found]
    rcases processed : build.process token with fault | next
    · rfl
    · exact ih (found.trans (length_diagnostics_process processed))

theorem finish_lowered (found : count ≤ build.diagnostics.length) :
    (build.lowered count).finish = build.finish.map fun result =>
      { result with diagnostics := lowerFrom count result.diagnostics } := by
  simp only [finish, lowered]
  rcases Compile.checkTermination build.compiler with fault | ⟨⟨⟩, later, waiting⟩
  · rfl
  · simp only [bind, Except.bind]
    rcases later.session.finish later.usings with fault | ⟨compiled, closing⟩
    · rfl
    · simp only [pure, Except.pure, Except.map, lowerFrom_append found, map_lower_at]

/-! ## Results that were dropped -/

/-- A build that forgets that a result was dropped. -/
def forgetDropped (build : Build) : Build :=
  { build with compiler := { build.compiler with retractable := none } }

theorem process_newLine (noBase : build.compiler.pendingExtends = false)
    (noDirective : build.compiler.inDirective = false) :
    build.process .newLine = .ok (build.forgetDropped.lowered build.diagnostics.length) := by
  rw [process, Compile.step_newLine noBase noDirective]
  simp [bind, Except.bind, pure, Except.pure, forgetDropped, lowered, lowerFrom_length]

/-- At the end of the tokens it does not matter that a result was dropped. -/
theorem finish_forgetDropped (build : Build) : build.forgetDropped.finish = build.finish := by
  -- What is reported at the end is decided by other parts of the state, and the state stays as it
  -- is.
  have forgets : Compile.waiting build.forgetDropped.compiler = Compile.waiting build.compiler := rfl
  simp only [finish, Compile.checkTermination_eq_waiting, forgets]
  rw [Compile.stateless_waiting build.compiler build.compiler build.forgetDropped.compiler]
  have same := Compile.stateless_waiting build.compiler build.compiler build.compiler
  rcases ran : Compile.waiting build.compiler build.compiler with fault | ⟨⟨⟩, later, problems⟩
  · rfl
  · obtain rfl : later = build.compiler := by simpa [ran, Except.map] using same
    rfl

/-- Tokens that begin with no operator are read in the same way if it is forgotten that a result was
dropped. -/
theorem read_forgetDropped (unminded : build.compiler.retractable ≠ none →
      ∀ op, tokens.head? ≠ some (.operator op)) :
    (build.forgetDropped.read tokens >>= finish) = build.read tokens >>= finish := by
  cases tokens with
  | nil => exact build.finish_forgetDropped
  | cons token rest =>
    -- After the first token there is no difference any more.
    have same : build.forgetDropped.process token = build.process token := by
      by_cases dropped : build.compiler.retractable = none
      · rw [show build.forgetDropped = build by rw [forgetDropped, ← dropped]]
      · have noOperator (op : Operator) : token ≠ .operator op := by simpa using unminded dropped op
        simp only [process, forgetDropped, Compile.step_forget noOperator]
        rfl
    rw [read_cons, read_cons, same]

theorem read_newLine (noBase : build.compiler.pendingExtends = false)
    (noDirective : build.compiler.inDirective = false)
    (unminded : build.compiler.retractable ≠ none → ∀ op, tokens.head? ≠ some (.operator op)) :
    (build.read (.newLine :: tokens) >>= finish) = (build.read tokens >>= finish).map fun result =>
      { result with diagnostics := lowerFrom build.diagnostics.length result.diagnostics } := by
  have found : build.diagnostics.length ≤ build.forgetDropped.diagnostics.length := le_rfl
  -- The line break goes to the state that has forgotten, one line further down; both do not matter
  -- to what follows.
  rw [← read_forgetDropped unminded, read_cons, process_newLine noBase noDirective]
  change ((build.forgetDropped.lowered build.diagnostics.length).read tokens >>= finish) = _
  rw [read_lowered found]
  rcases read : build.forgetDropped.read tokens with fault | done
  · rfl
  · exact finish_lowered (found.trans (length_diagnostics_read read))

end Build

/-! ## Builds -/

theorem build_eq_read {files : FileTree} {stream : TokenStream} {options : BuildOptions}
    {autoName : Bool} (plain : ∀ token ∈ stream.tokens, token.isPlain = true) :
    build files stream options autoName = (do
      let session ← Session.create { options with header := stream.header } autoName
      let start : Build := { compiler := { session := session, files := files, stream := [] } }
      start.read stream.tokens >>= Build.finish) := by
  rw [build]
  refine bind_congr fun session => ?_
  have enough : stream.tokens.length ≤ tokenBudget files { options with header := stream.header }
      stream.tokens :=
    Nat.le_add_right _ _
  dsimp only
  rw [← Build.run_eq_read plain rfl rfl enough]
  rfl

/-- Line breaks carry no meaning where nothing waits for the very next token. If a line break is put
between plain tokens, the build ends in the same fault, or in the same module with the same decision
to write it; the diagnostics are the same too, except that from some point on they are one line
further down. -/
theorem line_break_carries_no_meaning {files : FileTree} {header : Header} {platform : UInt8}
    {options : BuildOptions} {autoName : Bool} {before after : List Token}
    (plain : ∀ token ∈ before ++ after, token.isPlain = true)
    (unminded : ∀ state, Build.Reached files ⟨header, platform, before ++ after⟩ options
      autoName state → state.compiler.stream = after → ¬state.compiler.MindsBreak after.head?) :
    ∃ count, build files ⟨header, platform, before ++ Token.newLine :: after⟩ options autoName =
      (build files ⟨header, platform, before ++ after⟩ options autoName).map fun result =>
        { result with diagnostics := lowerFrom count result.diagnostics } := by
  have plainBefore : ∀ token ∈ before, token.isPlain = true := fun token here =>
    plain token (List.mem_append_left after here)
  have plainBroken : ∀ token ∈ before ++ Token.newLine :: after, token.isPlain = true := by
    simp only [List.mem_append, List.mem_cons] at plain ⊢
    rintro token (here | rfl | here)
    · exact plain token (.inl here)
    · rfl
    · exact plain token (.inr here)
  rw [build_eq_read plainBroken, build_eq_read plain]
  rcases created : Session.create { options with header := header } autoName with fault | session
  · exact ⟨0, rfl⟩
  simp only [Build.read_append]
  rcases ran : Build.read before { compiler := { session := session, files := files, stream := [] } }
    with fault | state
  · refine ⟨0, ?_⟩
    simp [bind, Except.bind, Except.map, ran]
  -- The state at the break is one of the build without it, so nothing waits there.
  have reached : Build.Reached files ⟨header, platform, before ++ after⟩ options autoName
      (state.reading after) :=
    Build.Reached.read (.start created) plainBefore rfl ran
  have unmindedHere : ¬state.compiler.MindsBreak after.head? :=
    unminded (state.reading after) reached rfl
  obtain ⟨noBase, noOperator⟩ := not_or.mp unmindedHere
  refine ⟨state.diagnostics.length, ?_⟩
  have broken := Build.read_newLine (Bool.eq_false_of_not_eq_true noBase)
    (congrArg Aside.inDirective (Build.aside_read plainBefore rfl ran)) (by simpa using noOperator)
  simpa [bind, Except.bind, ran] using broken

/-- A function that calls itself, up to the end of the call. -/
def selfCall : List Token :=
  [.classOpen "A" .static .everywhere, .block true, .function "f" "int" .static .everywhere,
    .block true, .literal "f", .statement true, .statement false]

/-- A line break after the call changes nothing, though a result waits to be taken back there. -/
theorem selfCall_break_carries_no_meaning :
    (∀ token ∈ selfCall ++ [Token.expressionEnd], token.isPlain = true) ∧
      (∀ state, Build.Reached (.empty []) ⟨.library, 0, selfCall ++ [Token.expressionEnd]⟩ {}
        false state → state.compiler.stream = [.expressionEnd] →
          state.compiler.retractable ≠ none ∧ ¬state.compiler.MindsBreak [Token.expressionEnd].head?) ∧
      ∃ count, build (.empty []) ⟨.library, 0, selfCall ++ [Token.newLine, .expressionEnd]⟩ {}
        false = (build (.empty []) ⟨.library, 0, selfCall ++ [Token.expressionEnd]⟩ {} false).map
          fun result =>
          { result with diagnostics := lowerFrom count result.diagnostics } := by
  have plain : ∀ token ∈ selfCall ++ [Token.expressionEnd], token.isPlain = true := by decide
  have unminded : ∀ state, Build.Reached (.empty []) ⟨.library, 0,
      selfCall ++ [Token.expressionEnd]⟩ {} false state → state.compiler.stream = [.expressionEnd] →
        state.compiler.retractable ≠ none ∧ ¬state.compiler.MindsBreak [Token.expressionEnd].head? := by
    intro state reached next
    obtain ⟨-, session, done, created, split, read⟩ := reached.exists_read plain
    rw [next] at split
    obtain rfl : selfCall = done := List.append_cancel_right split
    have known : (Session.create { header := .library } false >>= fun session =>
        Build.read selfCall { compiler := { session := session, files := .empty [], stream := [] } }).map
          (fun build => (build.compiler.pendingExtends, build.compiler.retractable)) =
              .ok (false, some 6) := by
      decide +kernel
    rw [created] at known
    simp only [bind, Except.bind, read, Except.map, Except.ok.injEq, Prod.mk.injEq] at known
    obtain ⟨noBase, dropped⟩ : state.compiler.pendingExtends = false ∧
      state.compiler.retractable = some 6 := known
    simp [Compiler.MindsBreak, noBase, dropped]
  exact ⟨plain, unminded, line_break_carries_no_meaning plain fun state reached next =>
    (unminded state reached next).2⟩

/-- The head of a class with a base, up to the name of the base. -/
def derivedHead : List Token :=
  [.classOpen "A" .plain .everywhere, .expressionEnd, .classOpen "B" .plain .everywhere,
    .extendsClause]

/-- A line break after `extends` is seen: it is taken for the name of the base, which is then
lost. -/
theorem break_after_extends_loses_base :
    (build (.empty []) ⟨.library, 0, derivedHead ++ [Token.literal "A", .expressionEnd]⟩ {} false).map
        (fun result => (result.compiled.table.types[19]?.map (·.base), result.diagnostics.map (·.kind))) =
      .ok (some (some 18), []) ∧
    (build (.empty []) ⟨.library, 0, derivedHead ++ [Token.newLine, .literal "A", .expressionEnd]⟩
      {} false).map
        (fun result => (result.compiled.table.types[19]?.map (·.base), result.diagnostics.map (·.kind))) =
      .ok (some (some Host.object), [.invalidToken, .invalidToken]) :=
  ⟨by decide +kernel, by decide +kernel⟩

end OnePass
