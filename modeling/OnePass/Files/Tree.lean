import OnePass.Files.Path

/-! # File trees

A `FileTree` is what a run can see of a disk: some of its files and folders, and the working folder,
where relative paths begin. Reading and writing walk a path component by component, and stop at the
first component that cannot be followed. -/

namespace OnePass

/-- Why a file cannot be read or written. -/
inductive FileError where
  | notFound
  | notAFolder
  | isAFolder
  | nameTooLong
  /-- the path has a zero character -/
  | zeroInPath
  /-- the file is not UTF-8 text -/
  | notText
  deriving DecidableEq

/-- The text of a file error. -/
def FileError.message : FileError → String
  | notFound => "No such file or directory (os error 2)"
  | notAFolder => "Not a directory (os error 20)"
  | isAFolder => "Is a directory (os error 21)"
  | nameTooLong => "File name too long (os error 36)"
  | zeroInPath => "file name contained an unexpected NUL byte"
  | notText => "stream did not contain valid UTF-8"

/-- What stands at a place of a file tree. -/
inductive FileEntry where
  | file (bytes : List UInt8)
  | folder
  deriving DecidableEq

/-- A place: the names that lead to it from the root. -/
abbrev Place : Type := List String

/-- What is known of a disk. -/
structure FileTree where
  /-- the working folder -/
  home : Place
  /-- files and folders, each place once; the folders on the way to the working folder need no
  entry -/
  entries : List (Place × FileEntry)

namespace FileTree

/-- The tree with the working folder only. -/
def empty (home : Place) : FileTree := ⟨home, []⟩

/-- What stands at a place. -/
def entry? (tree : FileTree) (place : Place) : Option FileEntry :=
  if place.isPrefixOf tree.home then some .folder else tree.entries.lookup place

/-- Puts an entry at a place, in the stead of what stood there. -/
def set (tree : FileTree) (place : Place) (entry : FileEntry) : FileTree :=
  { tree with entries := tree.entries.filter (·.1 != place) ++ [(place, entry)] }

/-- The longest name of a file or folder, in bytes. -/
def maxName : Nat := 255

/-- The length from which on a path is refused, in bytes. -/
def maxPath : Nat := 4096

/-- Follows one piece of a path. The place must be a folder, even for a piece that leads nowhere
else. -/
def follow (tree : FileTree) (place : Place) (piece : String) : Except FileError Place :=
  if tree.entry? place != some .folder then .error .notAFolder
  else if Path.isEmptyPiece piece then .ok place
  else if piece == ".." then .ok place.dropLast
  else if piece.utf8ByteSize > maxName then .error .nameTooLong
  else if (tree.entry? (place ++ [piece])).isSome then .ok (place ++ [piece])
  else .error .notFound

/-- Refuses the texts that name no place in any tree. -/
def checkPath (path : Path) : Except FileError Unit :=
  if path.text.toList.contains '\x00' then .error .zeroInPath
  else if path.text == "" then .error .notFound
  else if path.text.utf8ByteSize ≥ maxPath then .error .nameTooLong
  else .ok ()

/-- Where a path begins. -/
def start (tree : FileTree) (path : Path) : Place := if path.isAbsolute then [] else tree.home

/-- The place that a path leads to. -/
def walk (tree : FileTree) (path : Path) : Except FileError Place := do
  checkPath path
  (Text.split '/' path.text).foldlM tree.follow (tree.start path)

/-- The bytes of the file that a path leads to. -/
def read (tree : FileTree) (path : Path) : Except FileError (List UInt8) := do
  match tree.entry? (← tree.walk path) with
  | some (.file bytes) => .ok bytes
  | some .folder => .error .isAFolder
  | none => .error .notFound

/-- The text of the file that a path leads to. -/
def readText (tree : FileTree) (path : Path) : Except FileError String := do
  let bytes ← tree.read path
  match String.fromUTF8? bytes.toByteArray with
  | some text => .ok text
  | none => .error .notText

/-- Writes a file. The folders on the way must exist, and a path that ends in a slash or in dots
names a folder. -/
def write (tree : FileTree) (path : Path) (bytes : List UInt8) : Except FileError FileTree := do
  checkPath path
  let pieces := Text.split '/' path.text
  let named := (pieces.reverse.dropWhile (· == "")).reverse
  let folder ← named.dropLast.foldlM tree.follow (tree.start path)
  let name := named.getLast?.getD ""
  if tree.entry? folder != some .folder then .error .notAFolder
  else if named.length < pieces.length || name == "." || name == ".." then .error .isAFolder
  else if name.utf8ByteSize > maxName then .error .nameTooLong
  else if tree.entry? (folder ++ [name]) == some .folder then .error .isAFolder
  else .ok (tree.set (folder ++ [name]) (.file bytes))

/-- Puts an entry at a place, with the folders that lead to it. -/
def install (tree : FileTree) (place : Place) (entry : FileEntry) : FileTree :=
  let withFolders := (List.range place.length).foldl (fun tree depth =>
    if (tree.entry? (place.take depth)).isSome then tree else tree.set (place.take depth) .folder) tree
  withFolders.set place entry

/-- The place that the names of a path lead to, whatever stands on the way. -/
def placeOf (tree : FileTree) (path : Path) : Place :=
  (Text.split '/' path.text).foldl (fun place piece =>
    if Path.isEmptyPiece piece then place else if piece == ".." then place.dropLast else place ++ [piece])
    (tree.start path)

end FileTree

end OnePass
