import OnePass.Compiler.Step
import OnePass.Diagnostic

/-! # Building

`build` reads a stream of tokens to its end and hands over the module. The steps of the compiler
know nothing of lines: a problem belongs to the line on which its step began, and a line ends with
every line break that is read. The problems of a step that begins in a try region are dropped.

Token libraries add tokens while the stream is read. Since each is added once for each spelling of
its path, the number of steps is bounded by `tokenBudget`. -/

namespace OnePass

/-- The result of a build. -/
structure BuildResult where
  compiled : CompiledModule
  /-- in the order in which they were found -/
  diagnostics : List Diagnostic
  /-- whether the module is written -/
  persist : Bool

/-- A build under way. -/
structure Build where
  compiler : Compiler
  /-- the current line: a 32-bit counter, exactly so below `2 ^ 32` -/
  line : Nat := 1
  diagnostics : List Diagnostic := []

namespace Build

/-- Processes one token. -/
def process (build : Build) (token : Token) : Except Fault Build := do
  let ((), compiler, problems) ← Compile.step token build.compiler
  let kept := if build.compiler.tryRegion then [] else problems.map (·.at build.line)
  return {
    compiler := compiler
    line := if token == .newLine then build.line + 1 else build.line
    diagnostics := build.diagnostics ++ kept }

/-- Processes the tokens of the stream, at most `fuel` of them. -/
def run : (fuel : Nat) → Build → Except Fault Build
  | 0, build => if build.compiler.stream.isEmpty then .ok build else .error .outOfTokens
  | fuel + 1, build =>
    match build.compiler.stream with
    | [] => .ok build
    | token :: rest => do
      let build ← { build with compiler := { build.compiler with stream := rest } }.process token
      run fuel build

/-- Reports what is unfinished, closes the session and hands over the module. -/
def finish (build : Build) : Except Fault BuildResult := do
  let ((), compiler, waiting) ← Compile.checkTermination build.compiler
  let (compiled, problems) ← compiler.session.finish compiler.usings
  return {
    compiled := compiled
    diagnostics := build.diagnostics ++ (waiting ++ problems).map (·.at build.line)
    persist := compiler.session.options.header.persists }

end Build

/-! ## The number of tokens -/

/-- The paths of the token libraries that some tokens import. -/
def importPaths (tokens : List Token) : List String :=
  tokens.filterMap fun
    | .importLibrary path => some path
    | _ => none

/-- The tokens of a file, if it is a token file. -/
def FileEntry.tokens : FileEntry → List Token
  | folder => []
  | file bytes =>
    match TokenStream.read bytes with
    | .ok stream => stream.tokens
    | .error _ => []

/-- The paths of the token libraries that some tokens or any file import, each spelling once. -/
def FileTree.allImports (files : FileTree) (tokens : List Token) : List String :=
  (importPaths tokens ++ files.entries.flatMap fun (_, entry) => importPaths entry.tokens).eraseDups

/-- The number of tokens of the library with some path. -/
def FileTree.librarySize (files : FileTree) (options : BuildOptions) (path : String) : Nat :=
  match files.libraryTokens options path with
  | .ok tokens => tokens.length
  | .error _ => 0

-- The empty sum is the zero of the core library, also where an algebraic library is in scope.
attribute [local instance(high)] Zero.ofOfNat0

/-- The greatest number of tokens that a build can read. -/
def tokenBudget (files : FileTree) (options : BuildOptions) (tokens : List Token) : Nat :=
  tokens.length + ((files.allImports tokens).map (files.librarySize options)).sum

/-- Builds a module from a stream of tokens. The header of the stream decides the kind of the
module. -/
def build (files : FileTree) (stream : TokenStream) (options : BuildOptions) (autoName : Bool) :
    Except Fault BuildResult := do
  let options := { options with header := stream.header }
  let session ← Session.create options autoName
  let start : Build := { compiler := { session := session, files := files, stream := stream.tokens } }
  let done ← start.run (tokenBudget files options stream.tokens)
  done.finish

end OnePass
