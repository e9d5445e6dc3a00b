/-! # Arguments

What the arguments of the command line ask for. Flags and the name of the input may come in any
order; the first argument that is wrong decides. -/

namespace OnePass

/-- What the command line asks for. -/
structure Arguments where
  /-- the token file to build -/
  input : Option String := none
  /-- the file with the options -/
  config : Option String := none
  /-- the module file to write -/
  output : Option String := none
  /-- whether the module is named after the application -/
  autoName : Bool := false
  /-- whether a listing of the module is printed -/
  info : Bool := false
  /-- whether only the usage is printed -/
  help : Bool := false
  deriving DecidableEq

/-- What is wrong with the arguments. -/
inductive ArgumentError where
  | missingValue (flag : String)
  | unknownFlag (flag : String)
  | secondInput
  | missingInput
  deriving DecidableEq

/-- The text of an error in the arguments. -/
def ArgumentError.message : ArgumentError → String
  | missingValue flag => s!"missing value for {flag}"
  | unknownFlag flag => s!"unknown flag '{flag}'"
  | secondInput => "multiple input files provided"
  | missingInput => "missing input token file"

namespace Arguments

/-- Notes the name of the input. There can be one. -/
def setInput (arguments : Arguments) (name : String) : Except ArgumentError Arguments :=
  if arguments.input.isSome then .error .secondInput else .ok { arguments with input := some name }

/-- Reads arguments after those that were already read. -/
def readFrom (arguments : Arguments) : List String → Except ArgumentError Arguments
  | [] => .ok arguments
  | "-h" :: rest | "--help" :: rest => readFrom { arguments with help := true } rest
  | "--config" :: path :: rest => readFrom { arguments with config := some path } rest
  | ["--config"] => .error (.missingValue "--config")
  | "-o" :: path :: rest | "--output" :: path :: rest => readFrom { arguments with output := some path } rest
  | ["-o"] | ["--output"] => .error (.missingValue "-o")
  | "--auto-name" :: rest => readFrom { arguments with autoName := true } rest
  | "--info" :: rest => readFrom { arguments with info := true } rest
  | word :: rest =>
    if word.toList.head? == some '-' then .error (.unknownFlag word)
    else do readFrom (← arguments.setInput word) rest

/-- Reads the arguments of the command line. -/
def read (words : List String) : Except ArgumentError Arguments := readFrom {} words

end Arguments

/-- The lines that tell how the command line is used. -/
def usage : List String :=
  ["Usage:",
    "  tb-build [--config <file>] [-o <out>] [--auto-name] [--info] <input.tkns>",
    "",
    "  --config <file>  JSON build configuration",
    "  -o <out>         module file to write",
    "  --auto-name      name the module after the application",
    "  --info           print the generated module"]

end OnePass
