import Linkage.Archive.Zip
import Linkage.ClassFile.Load
import Linkage.FileTree
/-
Scans: the class files and archives that paths lead to become artifacts, and
their classes are loaded.  A class that cannot be loaded is recorded as a
failure; a path that cannot be read ends the scan.
-/

namespace Linkage

/-- A file, or an entry of an archive, that a scan has read. -/
structure Artifact where
  uri : String
  length : Int
  /-- The index of the archive that an entry belongs to. -/
  parent : Option Nat := none
  /-- Whether the file itself was given as the input. -/
  isTarget : Bool := false
  deriving DecidableEq, Repr

/-- What the classes of a path are for. -/
inductive ScanRole where
  /-- Classes to analyze. -/
  | input
  /-- Classes that only complete the known types. -/
  | baseline
  deriving DecidableEq, Repr

/-- What scans have found so far. -/
structure ScanOutput where
  artifacts : List Artifact := []
  classes : List ClassDecl := []
  baseline : List ClassDecl := []
  failures : List TypeFailure := []
  deriving DecidableEq, Repr

/-- Why a scan ends early. -/
inductive ScanError where
  | unsupported (path : String)
  | unreadable (path : String) (cause : PathError)
  | unopened (path : String) (cause : PathError)
  | badArchive (path : String) (cause : Archive.ArchiveError)
  | badEntry (path entry : String) (cause : Archive.ArchiveError)
  deriving DecidableEq, Repr

namespace ScanError

/-- What was being done. -/
def context : ScanError → String
  | unsupported path => "unsupported input file: " ++ path
  | unreadable path _ => "failed to read " ++ path
  | unopened path _ => "failed to open " ++ path
  | badArchive path _ => "failed to read " ++ path
  | badEntry path entry _ => "failed to read " ++ path ++ ":" ++ entry

/-- What went wrong beneath, and what caused that. -/
def causes : ScanError → List String
  | unsupported _ => []
  | unreadable _ cause => [cause.message]
  | unopened _ cause => [cause.message]
  | badArchive _ cause => cause.causes
  | badEntry _ _ cause => cause.causes

def message (error : ScanError) : String :=
  String.intercalate ": " (error.context :: error.causes)

end ScanError

/-- An archive entry to load. -/
structure ClassEntry where
  name : String
  size : Nat
  content : List UInt8
  deriving DecidableEq, Repr

/-- A file to load. -/
inductive ScanSource where
  | classFile (content : List UInt8)
  | archive (size : Nat) (entries : List ClassEntry)
  deriving DecidableEq, Repr

inductive FileSort where
  | classFile
  | archive
  deriving DecidableEq, Repr

/-- The sort of a file, by its extension. -/
def FileSort.ofName? (name : Option String) : Option FileSort :=
  match name.bind extension? with
  | some "class" => some .classFile
  | some "jar" => some .archive
  | _ => none

/-- Why a file of a sort is not read. -/
def FileSort.pathError (sort : FileSort) (path : String) (cause : PathError) : ScanError :=
  match sort with
  | .classFile => .unreadable path cause
  | .archive => .unopened path cause

/-- Whether an entry is a class to load: descriptors of modules are not. -/
def isClassEntry (name : String) : Bool :=
  (dropEnd ".class".toList name.toList).isSome &&
    (dropEnd "module-info.class".toList name.toList).isNone

/-- The classes of an archive, in the order of their names. -/
def classEntries (path : String) (bytes : List UInt8) :
    Except ScanError (List ClassEntry) := do
  match Archive.readArchive isClassEntry bytes with
  | .error cause => throw (.badArchive path cause)
  | .ok entries =>
      (sortByName Archive.ArchiveEntry.name entries).mapM (fun entry =>
        match entry.content with
        | .ok content => .ok { name := entry.name, size := entry.size, content }
        | .error cause => .error (.badEntry path entry.name cause))

/-- Reads a file of a sort that a scan looks into. -/
def ScanSource.read (path : String) (content : List UInt8) :
    FileSort → Except ScanError ScanSource
  | .classFile => .ok (.classFile content)
  | .archive => do return .archive content.length (← classEntries path content)

namespace ScanOutput

def classCount (output : ScanOutput) : Nat :=
  output.classes.length + output.baseline.length

/-- Adds a loaded class by its role. -/
def addClass (output : ScanOutput) (decl : ClassDecl) : ScanRole → ScanOutput
  | .input => { output with classes := output.classes ++ [decl] }
  | .baseline => { output with baseline := output.baseline ++ [decl] }

/-- Adds the artifact of a class, and the class itself or the failure to load it. -/
def addContent (output : ScanOutput) (role : ScanRole) (artifact : Artifact)
    (content : List UInt8) : ScanOutput :=
  let index := output.artifacts.length
  let next := { output with artifacts := output.artifacts ++ [artifact] }
  match ClassFile.load content index with
  | .ok decl => next.addClass decl role
  | .error error =>
      { next with failures := next.failures ++ [⟨artifact.uri, error.message⟩] }

/-- A size as a signed number of 64 bits. -/
def signedSize (size : Nat) : Int := Int.bmod size 0x10000000000000000

/-- Adds an entry of the archive at an index. -/
def addEntry (role : ScanRole) (path : String) (parent : Nat) (output : ScanOutput)
    (entry : ClassEntry) : ScanOutput :=
  output.addContent role
    { uri := "jar:" ++ path ++ "!/" ++ entry.name, length := signedSize entry.size,
      parent := some parent }
    entry.content

/-- Adds a file with all that it holds. -/
def addSource (output : ScanOutput) (role : ScanRole) (path : String) (isTarget : Bool) :
    ScanSource → ScanOutput
  | .classFile content =>
      output.addContent role { uri := path, length := content.length, isTarget } content
  | .archive size entries =>
      let parent := output.artifacts.length
      entries.foldl (addEntry role path parent)
        { output with
          artifacts := output.artifacts ++ [{ uri := path, length := size, isTarget }] }

end ScanOutput

/-- Scans what a walk through a directory comes to; files of other sorts are passed
over. -/
def scanBelow (path : String) (role : ScanRole) (output : ScanOutput)
    (entry : Place × Except PathError (List UInt8)) : Except ScanError ScanOutput :=
  match FileSort.ofName? entry.1.getLast? with
  | none => .ok output
  | some sort => do
      let name := joinPath path entry.1
      let content ← entry.2.mapError (sort.pathError name)
      return output.addSource role name false (← ScanSource.read name content sort)

/-- Scans the file that a path was given for. -/
def scanFile (found : Except PathError (List UInt8)) (path : String) (role : ScanRole)
    (output : ScanOutput) : Except ScanError ScanOutput :=
  match FileSort.ofName? (fileName? path), found with
  | none, _ => .error (.unsupported path)
  | some sort, .error cause => .error (sort.pathError path cause)
  | some sort, .ok content => do
      return output.addSource role path (role = .input)
        (← ScanSource.read path content sort)

/-- Scans what a path leads to; the files of a directory are taken in the order of
the names that lead to them. -/
def scanPath (tree : FileTree) (role : ScanRole) (output : ScanOutput) (path : String) :
    Except ScanError ScanOutput :=
  match tree.find path with
  | .ok (.directory place) =>
      (sortByNames Prod.fst (tree.entriesBelow path place)).foldlM (scanBelow path role)
        output
  | .ok (.file content) => scanFile (.ok content) path role output
  | .error cause => scanFile (.error cause) path role output

/-- Scans the paths whose classes complete the known types, in the order of names. -/
def scanBaselineInto (tree : FileTree) (paths : List String) (output : ScanOutput) :
    Except ScanError ScanOutput :=
  (sortByName id paths).foldlM (scanPath tree .baseline) output

/-- Scans paths that only serve as known types, such as the stubs of an environment. -/
def scanBaseline (tree : FileTree) (paths : List String) : Except ScanError ScanOutput :=
  scanBaselineInto tree paths {}

/-- Scans the input and then the paths that complete the known types. -/
def scanInputs (tree : FileTree) (input : String) (baseline : List String) :
    Except ScanError ScanOutput := do
  scanBaselineInto tree baseline (← scanPath tree .input {} input)

end Linkage
