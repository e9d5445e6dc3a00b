import OnePass.CommandLine.Run

/-! # The files that a run needs

Which paths a run of the command line may look at, given the files that are known so far. The tokens
of a file can ask for further files, so the files are taken up in rounds until a round asks for
nothing new. -/

namespace OnePass.CommandLine

/-- The file that a token asks for. -/
def neededByToken (options : BuildOptions) : Token → Option Path
  | .importLibrary path => some (options.libraryFile path)
  | .includeModule path => some (options.moduleFile path)
  | _ => none

/-- The files that the tokens of the known files ask for. -/
def neededByTokens (files : FileTree) (options : BuildOptions) : List Path :=
  files.entries.flatMap fun (_, entry) => entry.tokens.filterMap (neededByToken options)

/-- The paths that a run may look at. Paths that only a later file or the options can tell are
missing as long as that file is not known. -/
def needed (files : FileTree) (words : List String) : List Path :=
  match Arguments.read words with
  | .error _ => []
  | .ok arguments =>
    match arguments.input with
    | none => []
    | some input =>
      let config := (arguments.config.map Path.mk).toList
      match runOptions files arguments ⟨input⟩ with
      | .error _ => config
      | .ok options => config ++ [⟨input⟩, outputPath arguments options] ++ neededByTokens files options

end OnePass.CommandLine
