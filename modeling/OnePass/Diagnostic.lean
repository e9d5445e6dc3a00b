import OnePass.Problem

/-! # Diagnostics

A diagnostic is a problem with the line at which it was found. Diagnostics are collected in the
order in which they are found, and are shown with or without colours. -/

namespace OnePass

/-- A problem and where it was found. -/
structure Diagnostic where
  line : Nat
  kind : ProblemKind
  message : String
  deriving DecidableEq

/-- A problem found at some line. -/
def Problem.at (problem : Problem) (line : Nat) : Diagnostic := ⟨line, problem.kind, problem.message⟩

/-- A kind of problem and what is said about it. -/
def ProblemKind.text (kind : ProblemKind) (message : String) : String := s!"{kind.label}: {message}"

/-! ## Colours -/

/-- The colours of a terminal that are used. -/
inductive Colour where
  | red
  | green
  | yellow
  | magenta
  | cyan
  deriving DecidableEq

/-- The digit of a bright colour in an escape sequence. -/
def Colour.digit : Colour → String
  | red => "1"
  | green => "2"
  | yellow => "3"
  | magenta => "5"
  | cyan => "6"

/-- A text in a bold bright colour, if colours are on. -/
def painted (colours : Bool) (colour : Colour) (text : String) : String :=
  if colours then s!"\x1b[1m\x1b[9{colour.digit}m{text}\x1b[39m\x1b[0m" else text

/-- The colour of a kind of problem. -/
def ProblemKind.colour : ProblemKind → Colour
  | needEnd => .yellow
  | invalidToken | invalidHeader | invalidOperator | invalidOutType => .red
  | varNotFound | typeNotFound | directiveNotFound => .magenta
  | includeError _ | tokensLibrary => .cyan

namespace Diagnostic

/-- A diagnostic in one line, its kind in colour if colours are on. -/
def render (colours : Bool) (diagnostic : Diagnostic) : String :=
  let label := painted colours diagnostic.kind.colour diagnostic.kind.label
  s!"line {diagnostic.line}: {label}: {diagnostic.message}"

/-- A diagnostic in one line. -/
def text (diagnostic : Diagnostic) : String :=
  s!"line {diagnostic.line}: {diagnostic.kind.text diagnostic.message}"

/-- The number of diagnostics of a kind. -/
def count (kind : ProblemKind) (diagnostics : List Diagnostic) : Nat := diagnostics.countP (·.kind == kind)

end Diagnostic

end OnePass
