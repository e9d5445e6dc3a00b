import OnePass.Token.Kinds
import OnePass.Files.Path

/-! # Build options

What a build is told besides its tokens: the kind and name of the output, the name of the implicit
class, and the folders where modules and token libraries are looked up. -/

namespace OnePass

/-- What a module is run as. -/
inductive OutputKind where
  | dll
  | consoleApplication
  | windowApplication
  deriving DecidableEq, Repr

namespace OutputKind

/-- All output kinds, in the order of their bytes. -/
def all : List OutputKind := [dll, consoleApplication, windowApplication]

/-- The byte that stands for an output kind in a file. -/
def toByte : OutputKind → UInt8
  | dll => 0
  | consoleApplication => 1
  | windowApplication => 2

/-- The output kind that a byte stands for. -/
def ofByte? (byte : UInt8) : Option OutputKind := all[byte.toNat]?

@[simp] theorem ofByte?_toByte (output : OutputKind) : ofByte? output.toByte = some output := by
  cases output <;> rfl

/-- The full name of an output kind. -/
def name : OutputKind → String
  | dll => "Dll"
  | consoleApplication => "ConsoleApplication"
  | windowApplication => "WindowApplication"

/-- The short name of an output kind, which a program may use as well. -/
def shortName : OutputKind → String
  | dll => "dll"
  | consoleApplication => "console"
  | windowApplication => "window"

/-- The output kind with a full or short name. -/
def ofName? (text : String) : Option OutputKind :=
  all.find? fun output => output.name == text || output.shortName == text

end OutputKind

/-- Everything that a build is told besides its tokens. -/
structure BuildOptions where
  header : Header := .console
  output : OutputKind := .consoleApplication
  appName : String := "TokensApplication"
  version : String := "1.0.0.0"
  fileName : String := "out.tbm"
  mainClassName : String := "Program"
  libraryDir : Path := ⟨"lib"⟩
  baseDir : Path := ⟨"."⟩
  deriving DecidableEq

/-- The name of the module file without its extension. -/
def BuildOptions.moduleStem (options : BuildOptions) : String :=
  (Path.mk options.fileName).stem?.getD options.fileName

/-! ## Which modules are written -/

/-- How it is decided whether a module is written. -/
inductive PersistRule where
  /-- the headers of build scripts and token libraries are left out, each for itself -/
  | separateComparisons
  /-- the header is compared with the union of the bits of both -/
  | combinedMask
  deriving DecidableEq, Repr

/-- Whether a module with some header is written. -/
def PersistRule.persists : PersistRule → Header → Bool
  | separateComparisons, header => header != .buildScript && header != .tokensLibrary
  | combinedMask, header =>
    header.toByte != (Header.buildScript.toByte ||| Header.tokensLibrary.toByte)

/-- The rule in force. -/
def persistRule : PersistRule := .separateComparisons

/-- Whether modules with some header are written. -/
def Header.persists (header : Header) : Bool := persistRule.persists header

/-! ## Dotted names -/

/-- Whether a character can begin an identifier. -/
def isIdentStart (c : Char) : Bool := c.isAlpha || c == '_'

/-- Whether some characters are an identifier: a letter or underscore, then letters, digits and
underscores. -/
def isIdentifier : List Char → Bool
  | [] => false
  | c :: rest => isIdentStart c && rest.all fun c => isIdentStart c || c.isDigit

/-- Whether a text is a dotted name: identifiers with dots between them. -/
def isDottedName (text : String) : Bool := (Text.splitChars '.' text.toList).all isIdentifier

end OnePass
