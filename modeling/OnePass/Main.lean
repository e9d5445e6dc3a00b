import OnePass.CommandLine.Needed

/-! # The program

The command line as a program. It takes up the files that a run needs, runs, prints and writes; what
is printed and written is decided by `CommandLine.run`. -/

open OnePass

/-- The text of the path to a place. -/
def OnePass.Place.text (place : Place) : String := "/" ++ "/".intercalate place

/-- Takes up what stands at a place of the disk, if there is anything that can be read. -/
def OnePass.FileTree.takeUp (tree : FileTree) (place : Place) : IO FileTree := do
  let path := (← IO.currentDir) / place.text
  if ← path.isDir then return tree.set place .folder
  try return tree.set place (.file (← IO.FS.readBinFile path).toList)
  catch _ => return tree

/-- Takes up what stands at the end of a path, and the folders on the way. -/
def OnePass.FileTree.takeUpPath (tree : FileTree) (path : Path) : IO FileTree := do
  let place := tree.placeOf path
  (List.range (place.length + 1)).foldlM (fun tree depth => tree.takeUp (place.take depth)) tree

/-- Takes up the files that a run needs, round by round. -/
partial def takeUpNeeded (words : List String) (known : List Path) (tree : FileTree) : IO FileTree := do
  let missing := (CommandLine.needed tree words).filter fun path => !known.any (·.text == path.text)
  if missing.isEmpty then return tree
  else takeUpNeeded words (known ++ missing) (← missing.foldlM (·.takeUpPath ·) tree)

/-- Whether texts are shown in colour. -/
def wantsColour : IO Bool := do
  if (← IO.getEnv "NO_COLOR").isSome then return false
  return (← IO.getEnv "FORCE_COLOR").isSome || (← (← IO.getStderr).isTty)

/-- Runs the command line. -/
def main (words : List String) : IO UInt32 := do
  let folder ← IO.currentDir
  let home := (Text.split '/' folder.toString).filter (!Path.isEmptyPiece ·)
  let files ← takeUpNeeded words [] (FileTree.empty home)
  let colours ← wantsColour
  match CommandLine.run files colours words with
  | .error _ =>
    IO.eprintln "the build broke off"
    return 101
  | .ok outcome =>
    outcome.output.forM IO.println
    match outcome.written with
    | none => pure ()
    | some (path, bytes) => IO.FS.writeBinFile path.text bytes.toByteArray
    (outcome.complaints colours).forM IO.eprintln
    return outcome.code.toUInt32
