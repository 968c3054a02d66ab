import Linkage.Name
/-
File trees: the files and directories that a program can see, and how paths
lead to them.  A place is the list of names from the root down; a directory
exists if it is listed or if something lies below it.
-/

namespace Linkage

/-- The names that lead from the root to a file or directory. -/
abbrev Place := List String

/-- Why a path leads to nothing that can be used. -/
inductive PathError where
  | missing
  | notDirectory
  | isDirectory
  | nameTooLong
  | nulByte
  deriving DecidableEq, Repr

def PathError.message : PathError → String
  | missing => "No such file or directory (os error 2)"
  | notDirectory => "Not a directory (os error 20)"
  | isDirectory => "Is a directory (os error 21)"
  | nameTooLong => "File name too long (os error 36)"
  | nulByte => "file name contained an unexpected NUL byte"

/-- The files with their contents, and the listed directories. -/
structure FileTree where
  files : List (Place × List UInt8) := []
  directories : List Place := []
  /-- Where relative paths start. -/
  workingDirectory : Place := []
  deriving DecidableEq, Repr

/-- What a path leads to. -/
inductive FileNode where
  | file (content : List UInt8)
  | directory (place : Place)
  deriving DecidableEq, Repr

/-- Cuts a text at every occurrence of a mark. -/
def splitAtMark (mark : Char) : List Char → List (List Char)
  | [] => [[]]
  | c :: rest =>
      if c = mark then [] :: splitAtMark mark rest
      else
        match splitAtMark mark rest with
        | [] => [[c]]
        | first :: more => (c :: first) :: more

/-- The parts of a path between its slashes. -/
def segments (path : String) : List String :=
  (splitAtMark '/' path.toList).map String.ofList

/-- The parts of a path that name something. -/
def namedSegments (path : String) : List String :=
  (segments path).filter (fun segment => segment ≠ "" ∧ segment ≠ ".")

/-- The name of the file that a path leads to, unless it ends by going up. -/
def fileName? (path : String) : Option String :=
  match (namedSegments path).getLast? with
  | some name => if name = ".." then none else some name
  | none => none

/-- What follows the last dot of a name; a name that has its only dot in front has
no extension. -/
def extension? (name : String) : Option String :=
  match beforeLast '.' name.toList with
  | none => none
  | some [] => none
  | some stem => some (String.ofList (name.toList.drop (stem.length + 1)))

/-- The path of something below a directory, given the names that lead there. -/
def joinPath (path : String) (below : Place) : String :=
  let separator := if path.toList.getLast? = some '/' then "" else "/"
  path ++ separator ++ String.intercalate "/" below

namespace FileTree

/-- The content of the file at a place. -/
def contentAt (tree : FileTree) (place : Place) : Option (List UInt8) :=
  (tree.files.find? (fun file => file.1 = place)).map Prod.snd

def isDirectory (tree : FileTree) (place : Place) : Bool :=
  place = [] ||
    tree.directories.any (fun directory => (dropStart place directory).isSome) ||
    tree.files.any (fun file => file.1 ≠ place && (dropStart place file.1).isSome)

/-- The size of the longest name, in bytes. -/
def maxNameSize : Nat := 255

/-- The size of the longest path, in bytes. -/
def maxPathSize : Nat := 4095

/-- Fails for a path that cannot lead anywhere: one that has a NUL, and one that is
empty or too long. -/
def requirePath (path : String) : Except PathError Unit :=
  if path.toList.contains '\x00' then .error .nulByte
  else if path = "" then .error .missing
  else if maxPathSize < path.utf8ByteSize then .error .nameTooLong
  else .ok ()

/-- Succeeds at a directory. -/
def requireDirectory (tree : FileTree) (place : Place) : Except PathError Unit :=
  if tree.isDirectory place then .ok ()
  else if (tree.contentAt place).isSome then .error .notDirectory
  else .error .missing

/-- Follows one part of a path out of a directory. -/
def step (tree : FileTree) (place : Place) (segment : String) :
    Except PathError Place := do
  tree.requireDirectory place
  if segment = "" ∨ segment = "." then return place
  else if segment = ".." then return place.dropLast
  else if maxNameSize < segment.utf8ByteSize then throw .nameTooLong
  else return place ++ [segment]

/-- Where a path starts: at the root if it has a slash in front. -/
def startOf (tree : FileTree) (path : String) : Place :=
  if path.toList.head? = some '/' then [] else tree.workingDirectory

/-- The place that a path names, which need not exist. -/
def locate (tree : FileTree) (path : String) : Except PathError Place := do
  requirePath path
  (segments path).foldlM tree.step (tree.startOf path)

/-- What a path leads to. -/
def find (tree : FileTree) (path : String) : Except PathError FileNode := do
  let place ← tree.locate path
  if tree.isDirectory place then return .directory place
  match tree.contentAt place with
  | some content => return .file content
  | none => throw .missing

def pathExists (tree : FileTree) (path : String) : Bool :=
  (tree.find path).toOption.isSome

/-- The content of the file that a path leads to. -/
def read (tree : FileTree) (path : String) : Except PathError (List UInt8) := do
  match ← tree.find path with
  | .file content => return content
  | .directory _ => throw .isDirectory

/-- The files below a directory, with the names that lead to them from there. -/
def filesBelow (tree : FileTree) (place : Place) : List (Place × List UInt8) :=
  tree.files.filterMap (fun file =>
    (dropStart place file.1).map (fun below => (below, file.2)))

/-- The listed directories below a directory, with the names that lead to them from
there. -/
def directoriesBelow (tree : FileTree) (place : Place) : List Place :=
  tree.directories.filterMap (dropStart place)

/-- The beginnings of a place, the shortest first. -/
def beginnings (place : Place) : List Place :=
  (List.range place.length).map (fun length => place.take (length + 1))

/-- The first beginning of a place below a directory that no path can reach, although
it is there. -/
def firstUnreachable (path : String) (below : Place) : Option (Place × PathError) :=
  (beginnings below).findSome? (fun beginning =>
    match requirePath (joinPath path beginning) with
    | .ok () => none
    | .error cause => some (beginning, cause))

/-- What a walk through the directory at a path comes to: the files below it.  The walk
goes no further than paths can reach, so a directory out of reach is met like a file
that cannot be read. -/
def entriesBelow (tree : FileTree) (path : String) (place : Place) :
    List (Place × Except PathError (List UInt8)) :=
  let files := (tree.filesBelow place).map (fun file =>
    match firstUnreachable path file.1 with
    | some (beginning, cause) => (beginning, .error cause)
    | none => (file.1, .ok file.2))
  let directories := (tree.directoriesBelow place).filterMap (fun directory =>
    (firstUnreachable path directory).map (fun (beginning, cause) =>
      (beginning, .error cause)))
  files ++ directories

/-- Puts a file at a place. -/
def put (tree : FileTree) (place : Place) (content : List UInt8) : FileTree :=
  { tree with files := tree.files.filter (fun file => file.1 ≠ place) ++ [(place, content)] }

/-- Writes a file, new or not, in a directory that exists. -/
def write (tree : FileTree) (path : String) (content : List UInt8) :
    Except PathError FileTree := do
  requirePath path
  let parts := segments path
  let named := (parts.reverse.dropWhile (· = "")).reverse
  let parent ← named.dropLast.foldlM tree.step (tree.startOf path)
  tree.requireDirectory parent
  if named.length < parts.length then throw .isDirectory
  let place ← tree.step parent (named.getLastD "")
  if tree.isDirectory place then throw .isDirectory
  return tree.put place content

/-- Lists a directory, unless it is listed. -/
def listDirectory (tree : FileTree) (place : Place) : FileTree :=
  if place ∈ tree.directories then tree
  else { tree with directories := tree.directories ++ [place] }

/-- Goes one part of a path on, into a directory that is listed by this. -/
def enter (state : FileTree × Place) (segment : String) : FileTree × Place :=
  if segment = "" ∨ segment = "." then state
  else if segment = ".." then (state.1, state.2.dropLast)
  else (state.1.listDirectory (state.2 ++ [segment]), state.2 ++ [segment])

/-- Lists the directories that a path goes through, also those that it goes up from
again. -/
def enterAll (tree : FileTree) (path : String) (parts : List String) : FileTree × Place :=
  parts.foldl enter (tree, tree.startOf path)

/-- Lists a file, and with it the directories on its path. -/
def addFile (tree : FileTree) (path : String) (content : List UInt8) : FileTree :=
  let parts := segments path
  let (entered, parent) := tree.enterAll path parts.dropLast
  entered.put (parent ++ [parts.getLastD ""]) content

/-- Lists a directory, and with it the directories on its path. -/
def addDirectory (tree : FileTree) (path : String) : FileTree :=
  (tree.enterAll path (segments path)).1

end FileTree

example : extension? "a.b.class" = some "class" := by decide
example : extension? ".class" = none ∧ extension? "x." = some "" := by decide
example : fileName? "d/x.jar/." = some "x.jar" := by decide
example :
    ((({} : FileTree).addDirectory "f/../g").addFile "a/../b" []).directories
      = [["f"], ["g"], ["a"]] := by decide
example : joinPath "d/" ["a", "b"] = "d/a/b" ∧ joinPath "." ["a"] = "./a" := by decide

end Linkage
