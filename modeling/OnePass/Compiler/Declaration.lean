import OnePass.Compiler.State
import OnePass.Module.Register
import OnePass.Module.File
import OnePass.Token.File

/-! # Namespaces, included modules and token libraries

The declarations that concern a whole file: the namespace of what follows, the namespaces in which
names are looked up, compiled modules whose types become known, and token libraries whose tokens are
read next. A token library is spliced in once for each way its path is spelled. -/

namespace OnePass

/-! ## Token libraries -/

/-- The file of a token library: a name between angle brackets is looked up in the folder of
libraries, any other next to the source. -/
def BuildOptions.libraryFile (options : BuildOptions) (path : String) : Path :=
  match path.toList with
  | '<' :: rest =>
    if rest.getLast? == some '>' then options.libraryDir.join ⟨String.ofList rest.dropLast ++ ".tokens"⟩
    else options.baseDir.join ⟨path ++ ".tokens"⟩
  | _ => options.baseDir.join ⟨path ++ ".tokens"⟩

/-- The tokens of the library with some path. -/
def FileTree.libraryTokens (files : FileTree) (options : BuildOptions) (path : String) :
    Except Problem (List Token) :=
  let file := options.libraryFile path
  match files.read file with
  | .error error => .error (.libraryNotFound file error)
  | .ok bytes =>
    match TokenStream.read bytes with
    | .error error => .error (.libraryMalformed file error)
    | .ok library =>
      if library.header == .tokensLibrary then .ok library.tokens
      else .error (.libraryHeader file library.header)

/-! ## Modules -/

/-- The file of a compiled module. -/
def BuildOptions.moduleFile (options : BuildOptions) (path : String) : Path := options.baseDir.join ⟨path⟩

/-- The image of the module with some path. -/
def FileTree.moduleImage (files : FileTree) (options : BuildOptions) (path : String) :
    Except Problem ModuleImage :=
  let stem := (Path.mk path).stem?.getD ""
  let file := options.moduleFile path
  if path == "" || !isDottedName stem then .error (.badModuleName path)
  else if path.utf8ByteSize > maxIncludePath then .error (.modulePathTooLong stem)
  else if file.extension?.isNone then .error (.moduleWithoutExtension path)
  else
    match files.read file with
    | .error .notFound => .error (.moduleNotFound file)
    | .error error => .error (.moduleUnreadable file error)
    | .ok bytes =>
      match ModuleImage.read bytes with
      | .error error => .error (.moduleMalformed file error)
      | .ok image => .ok image

/-! ## Declarations -/

namespace Compiler

/-- Enters a namespace; the empty name is the global namespace. -/
def enterNamespace (compiler : Compiler) (name : String) : Except Problem Compiler :=
  if name != "" && !isDottedName name then .error (.invalidNamespace name)
  else .ok { compiler with space := name }

/-- Looks names up in one more namespace. -/
def useNamespace (compiler : Compiler) (name : String) : Compiler :=
  if compiler.usings.contains name then compiler else { compiler with usings := compiler.usings ++ [name] }

/-- Includes a compiled module. -/
def includeModule (compiler : Compiler) (path : String) : Except Failure Compiler := do
  let image ← compiler.files.moduleImage compiler.session.options path
  let (_, table) ← image.register compiler.session.table
  return { compiler with session := { compiler.session with table := table } }

/-- Reads the tokens of a library next, unless it was imported before. -/
def importLibrary (compiler : Compiler) (path : String) : Except Problem Compiler :=
  if compiler.imported.contains path then .ok compiler
  else do
    let tokens ← compiler.files.libraryTokens compiler.session.options path
    return { compiler with stream := tokens ++ compiler.stream, imported := compiler.imported ++ [path] }

/-- What a token declares for the whole file, if it does. -/
def declare? (compiler : Compiler) : Token → Option (Except Failure Compiler)
  | .enterNamespace name => some (do compiler.enterNamespace name)
  | .usingNamespace name => some (.ok (compiler.useNamespace name))
  | .includeModule path => some (compiler.includeModule path)
  | .importLibrary path => some (do compiler.importLibrary path)
  | _ => none

end Compiler

/-- Reads a declaration for the whole file. -/
def Compile.declaration (token : Token) : Compile Unit := do
  match (← Compile.get).declare? token with
  | none => return
  | some result =>
    match ← Compile.attempt result with
    | none => return
    | some compiler => Compile.modify fun _ => compiler

end OnePass
