import Linkage.Command.Run
/-
The command itself: the files that the arguments name are read, the run is
computed, and its output is written.
-/

namespace Linkage

/-- Reads the class files and archives of a directory, at any depth. -/
partial def readDirectory (path : String) (place : Place) :
    IO (List (Place × List UInt8)) := do
  let mut found : Array (Place × List UInt8) := #[]
  for entry in ← ((← IO.currentDir) / path).readDir do
    let name := entry.fileName
    let below := joinPath path [name]
    if ← entry.path.isDir then
      found := found ++ (← readDirectory below (place ++ [name])).toArray
    else if (FileSort.ofName? (some name)).isSome then
      let content ← IO.FS.readBinFile below
      found := found.push (place ++ [name], content.data.toList)
  return found.toList

/-- Adds the files of a directory in place of those that were known before. -/
def replaceBelow (tree : FileTree) (place : Place) (found : List (Place × List UInt8)) :
    FileTree :=
  { tree with
    files := tree.files.filter (fun file => (dropStart place file.1).isNone) ++ found }

/-- Adds what a path leads to, and every directory on the way there; contents are
read only where they are wanted. -/
def readPath (wantContents : Bool) (tree : FileTree) (path : String) : IO FileTree := do
  let parts := segments path
  let mut tree := tree
  for count in List.range parts.length do
    let reached := String.intercalate "/" (parts.take (count + 1))
    if let .ok place := tree.locate reached then
      let real := (← IO.currentDir) / reached
      if ← real.isDir then
        tree := { tree with directories := tree.directories ++ [place] }
        if wantContents ∧ count + 1 = parts.length then
          tree := replaceBelow tree place (← readDirectory path place)
      else if ← real.pathExists then
        let content ← if wantContents then IO.FS.readBinFile reached else pure .empty
        tree := tree.put place content.data.toList
  return tree

/-- The part of the file system that a run can reach. -/
def readTree (request : CommandRequest) : IO FileTree := do
  let here := namedSegments (← IO.currentDir).toString
  let tree : FileTree := { directories := [here], workingDirectory := here }
  match request with
  | .run options =>
      let paths := options.input :: options.baseline ++ options.systemStubs.toList
      let tree ← options.output.toList.foldlM (readPath false) tree
      paths.foldlM (readPath true) tree
  | _ => return tree

/-- Writes the output file of a run that has one. -/
def writeOutput (request : CommandRequest) (outcome : CommandOutcome) : IO Unit := do
  match request with
  | .run options =>
      if let some path := options.output then
        if outcome.exitCode = 0 ∧ ¬ isDash path then
          if let .ok content := outcome.tree.read path then
            IO.FS.writeBinFile path ⟨content.toArray⟩
  | _ => return ()

/-- Runs the command on the file system. -/
def runOnFiles (arguments : List String) : IO UInt32 := do
  let started ← IO.monoMsNow
  match CommandRequest.ofArguments arguments with
  | .error error =>
      IO.eprintln ("error: " ++ error.message)
      return 2
  | .ok request =>
      let outcome := runCommand (← readTree request) arguments
      writeOutput request outcome
      IO.print outcome.output
      if let some error := outcome.runError then
        IO.eprintln error.report
      if let some counts := outcome.counts then
        let elapsed := (← IO.monoMsNow) - started
        IO.eprintln ("timing: total_ms=" ++ toString elapsed ++ " " ++ counts.text)
      return outcome.exitCode

end Linkage

def main (arguments : List String) : IO UInt32 :=
  Linkage.runOnFiles arguments
