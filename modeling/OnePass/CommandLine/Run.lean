import OnePass.CommandLine.Arguments
import OnePass.Compiler.Build
import OnePass.Module.Listing
import OnePass.Options.Json

/-! # Runs of the command line

`CommandLine.run` is what a call of the program does: it takes the arguments and the files, and
gives what is printed and the file that is written. A run goes through reading the options, reading
the token file, building, printing and writing. Each stage can end it with an error, which is
printed last. -/

namespace OnePass.CommandLine

/-- What ends a run early, or makes it fail at its end. -/
inductive RunError where
  | arguments (error : ArgumentError)
  /-- the file with the options cannot be read -/
  | unreadableOptions (path : Path) (error : FileError)
  | invalidOptions (error : OptionsError)
  /-- a token file that cannot be read, or a module file that cannot be written -/
  | file (path : Path) (error : FileError)
  /-- a file whose bytes are not a token file, or a module that has no file -/
  | format (path : Path) (error : FormatError)
  /-- the build has problems -/
  | diagnostics (count : Nat)
  deriving DecidableEq

/-- The text of an error. -/
def RunError.message : RunError → String
  | arguments error => error.message
  | unreadableOptions path error => s!"failed to read config '{path.text}': {error.message}"
  | invalidOptions error => error.message
  | file path error => s!"{path.text}: {error.message}"
  | format path error => s!"{path.text}: {error.message}"
  | diagnostics count => s!"build failed with {count} diagnostic(s)"

/-- What a run leaves behind. -/
structure Outcome where
  /-- lines for the standard output -/
  output : List String := []
  /-- lines for the standard error, before the error that ends the run -/
  warnings : List String := []
  /-- the file to write -/
  written : Option (Path × List UInt8) := none
  error : Option RunError := none

/-! ## Before the build -/

/-- The options in a file. -/
def loadOptions (files : FileTree) (path : Path) : Except RunError BuildOptions :=
  match files.readText path with
  | .error error => .error (.unreadableOptions path error)
  | .ok text => (BuildOptions.ofJson text).mapError .invalidOptions

/-- The folder in which relative paths of a program are looked up: the folder of the token file,
unless a file with options names another. -/
def baseFolder (arguments : Arguments) (options : BuildOptions) (input : Path) : Path :=
  match input.parent? with
  | none => options.baseDir
  | some parent =>
    if parent.text != "" && (arguments.config.isNone || options.baseDir.same ⟨"."⟩) then parent
    else options.baseDir

/-- The name of the module file. -/
def moduleFileName (arguments : Arguments) (options : BuildOptions) : String :=
  (arguments.output.bind fun path => Path.fileName? ⟨path⟩).getD options.fileName

/-- The options of a run: those of a file, changed by the arguments. -/
def runOptions (files : FileTree) (arguments : Arguments) (input : Path) : Except RunError BuildOptions := do
  let options ←
    match arguments.config with
    | some path => loadOptions files ⟨path⟩
    | none => .ok {}
  return { options with
    baseDir := baseFolder arguments options input
    fileName := moduleFileName arguments options }

/-- The tokens of the input. -/
def loadTokens (files : FileTree) (input : Path) : Except RunError TokenStream := do
  let bytes ← (files.read input).mapError (.file input)
  (TokenStream.read bytes).mapError (.format input)

/-- Where the module is written. -/
def outputPath (arguments : Arguments) (options : BuildOptions) : Path :=
  match arguments.output with
  | some path => ⟨path⟩
  | none => options.baseDir.join ⟨options.fileName⟩

/-- What a run builds. -/
structure Job where
  tokens : TokenStream
  options : BuildOptions
  autoName : Bool
  /-- whether a listing is printed -/
  info : Bool
  /-- where the module is written -/
  target : Path

/-- What the arguments ask to build. -/
def prepare (files : FileTree) (arguments : Arguments) : Except RunError Job := do
  match arguments.input with
  | none => throw (.arguments .missingInput)
  | some input =>
    let options ← runOptions files arguments ⟨input⟩
    let tokens ← loadTokens files ⟨input⟩
    return ⟨tokens, options, arguments.autoName, arguments.info, outputPath arguments options⟩

/-! ## The build -/

/-- The file to write, if the module is one that is written. -/
def moduleFile (files : FileTree) (target : Path) (result : BuildResult) :
    Except Fault (Except RunError (Option (Path × List UInt8))) :=
  if !result.persist then .ok (.ok none)
  else do
    match ← result.compiled.write with
    | .error error => return .error (.format target error)
    | .ok bytes =>
      match files.write target bytes with
      | .error error => return .error (.file target error)
      | .ok _ => return .ok (some (target, bytes))

/-- How a run ends whose module was written or need not be. -/
def verdict (diagnostics : List Diagnostic) : Option RunError :=
  if diagnostics.isEmpty then none else some (.diagnostics diagnostics.length)

/-- Builds, and says what is printed and written. -/
def perform (files : FileTree) (colours : Bool) (job : Job) : Except Fault Outcome := do
  let result ← build files job.tokens job.options job.autoName
  let output ← if job.info then result.compiled.listing else .ok []
  let warnings := result.diagnostics.map (·.render colours)
  match ← moduleFile files job.target result with
  | .error error => return { output := output, warnings := warnings, error := some error }
  | .ok written =>
    return { output := output, warnings := warnings, written := written, error := verdict result.diagnostics }

/-- Runs the command line. -/
def run (files : FileTree) (colours : Bool) (words : List String) : Except Fault Outcome :=
  match Arguments.read words with
  | .error error => .ok { error := some (.arguments error) }
  | .ok arguments =>
    if arguments.help then .ok { output := usage }
    else
      match prepare files arguments with
      | .error error => .ok { error := some error }
      | .ok job => perform files colours job

/-! ## What is seen of a run -/

namespace Outcome

/-- The lines for the standard error. -/
def complaints (colours : Bool) (outcome : Outcome) : List String :=
  outcome.warnings ++ outcome.error.toList.map fun error =>
    painted colours .green "BUILD" ++ ": " ++ error.message

/-- The exit code. -/
def code (outcome : Outcome) : UInt8 := if outcome.error.isSome then 1 else 0

/-- The files after a run. -/
def filesAfter (files : FileTree) (outcome : Outcome) : FileTree :=
  match outcome.written with
  | none => files
  | some (path, bytes) => (files.write path bytes).toOption.getD files

/-- Lines as one text. -/
def text (lines : List String) : String := "".intercalate (lines.map (· ++ "\n"))

end Outcome

end OnePass.CommandLine
