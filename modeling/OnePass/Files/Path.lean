import OnePass.Text.Split

/-! # Paths

A path is a text whose components stand between slashes. Repeated slashes and components that are a
single dot mean nothing, except that a path may begin with a dot. The functions below read the last
component, cut it into stem and extension, go to the parent, and put one path behind another. -/

namespace OnePass

/-- The name of a place in a file tree. -/
structure Path where
  /-- the path as it is written and shown -/
  text : String
  deriving DecidableEq

namespace Path

/-- One step of a path. -/
inductive Component where
  /-- the slash at the beginning -/
  | root
  /-- the dot at the beginning -/
  | here
  /-- two dots -/
  | up
  | name (text : String)
  deriving DecidableEq

/-- Whether a path starts at the root. -/
def isAbsolute (path : Path) : Bool := path.text.toList.head? == some '/'

/-- Whether the first piece of a path is a single dot. -/
def startsHere (path : Path) : Bool :=
  match path.text.toList with
  | ['.'] | '.' :: '/' :: _ => true
  | _ => false

/-- Whether a piece between slashes is no component of its own. -/
def isEmptyPiece (piece : String) : Bool := piece == "" || piece == "."

/-- The components of a path. -/
def components (path : Path) : List Component :=
  (if path.isAbsolute then [.root] else if path.startsHere then [.here] else []) ++
    ((Text.split '/' path.text).filter (!isEmptyPiece ·)).map fun piece =>
      if piece == ".." then .up else .name piece

/-- Whether two paths have the same components. -/
def same (first second : Path) : Bool := first.components == second.components

/-- The last component, if it is a name. -/
def fileName? (path : Path) : Option String :=
  match path.components.getLast? with
  | some (.name text) => some text
  | _ => none

/-- The stem and the extension of a file name: the parts before and after the last dot. A name whose
only dot is its first character has no extension. -/
def splitName (name : String) : String × Option String :=
  match Text.splitLast? '.' name with
  | none => (name, none)
  | some (stem, extension) => if stem == "" then (name, none) else (stem, some extension)

/-- The file name without its extension. -/
def stem? (path : Path) : Option String := path.fileName?.map fun name => (splitName name).1

/-- The extension of the file name. -/
def extension? (path : Path) : Option String := path.fileName?.bind fun name => (splitName name).2

/-- Drops the pieces at the end that are no components. -/
def trimPieces (pieces : List String) : List String :=
  (pieces.reverse.dropWhile isEmptyPiece).reverse

/-- The path without its last component. -/
def parent? (path : Path) : Option Path :=
  let front := if path.isAbsolute || path.startsHere then path.text.toList.take 1 else []
  let body := String.ofList (path.text.toList.drop front.length)
  match trimPieces (Text.split '/' body) with
  | [] => if path.startsHere then some ⟨""⟩ else none
  | piece :: pieces =>
    some ⟨String.ofList front ++ "/".intercalate (trimPieces (piece :: pieces).dropLast)⟩

/-- The second path as seen from the first; an absolute path is the same from everywhere. -/
def join (base path : Path) : Path :=
  if path.isAbsolute then path
  else if base.text == "" || base.text.toList.getLast? == some '/' then ⟨base.text ++ path.text⟩
  else ⟨base.text ++ "/" ++ path.text⟩

end Path

end OnePass
