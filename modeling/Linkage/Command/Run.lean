import Linkage.Analysis.Analyzer
import Linkage.Command.Arguments
import Linkage.Extraction.Extract
import Linkage.Report.Sarif
/-
A run of the command: the input and the baseline are scanned, the references of
the input are extracted, resolved and checked, and the problems are reported.
-/

namespace Linkage

/-- Why a run ends early. -/
inductive RunError where
  | inputMissing (path : String)
  | baselineMissing (path : String)
  | stubsMissing (path : String)
  | scan (error : ScanError)
  | output (path : String) (cause : PathError)
  deriving DecidableEq, Repr

namespace RunError

/-- What was being done. -/
def context : RunError → String
  | inputMissing path => "input not found: " ++ path
  | baselineMissing path => "baseline entry not found: " ++ path
  | stubsMissing path => "system stubs not found: " ++ path
  | scan error => error.context
  | output path _ => "failed to open " ++ path

/-- What went wrong beneath, and what caused that. -/
def causes : RunError → List String
  | scan error => error.causes
  | output _ cause => [cause.message]
  | _ => []

/-- The causes of an error, one on a line; several are numbered. -/
def causeLines : List String → List String
  | [] => []
  | [cause] => ["    " ++ cause]
  | causes => causes.zipIdx.map (fun (cause, index) =>
      "    " ++ toString index ++ ": " ++ cause)

/-- The error as the command reports it. -/
def report (error : RunError) : String :=
  let head := "Error: " ++ error.context
  match error.causes with
  | [] => head
  | causes => head ++ "\n\nCaused by:\n" ++ String.intercalate "\n" (causeLines causes)

end RunError

/-- How much a run has handled. -/
structure RunCounts where
  classes : Nat
  artifacts : Nat
  references : Nat
  results : Nat
  failures : Nat
  deriving DecidableEq, Repr

def RunCounts.text (counts : RunCounts) : String :=
  "classes=" ++ toString counts.classes ++ " artifacts=" ++ toString counts.artifacts
    ++ " references=" ++ toString counts.references
    ++ " results=" ++ toString counts.results
    ++ " failures=" ++ toString counts.failures

/-- The first of some paths that leads to nothing. -/
def firstMissing (tree : FileTree) (paths : List String) : Option String :=
  paths.find? (fun path => !tree.pathExists path)

/-- All given paths have to lead somewhere: the input, then the baseline, then the
stubs. -/
def requirePaths (tree : FileTree) (options : CommandOptions) : Except RunError Unit :=
  match firstMissing tree [options.input], firstMissing tree options.baseline,
      firstMissing tree options.systemStubs.toList with
  | some path, _, _ => .error (.inputMissing path)
  | none, some path, _ => .error (.baselineMissing path)
  | none, none, some path => .error (.stubsMissing path)
  | none, none, none => .ok ()

/-- The stubs of the execution environment, if there are any. -/
def scanStubs (tree : FileTree) : Option String → Except ScanError (Option Universe)
  | none => .ok none
  | some path => do
      return some (.ofList (← scanBaseline tree [path]).baseline)

def runDetectors (known : Universe) (stubs : Option Universe) : List Detector :=
  Detector.missingFrom known :: (stubs.map Detector.unavailableIn).toList

/-- Extracts and checks the references of scanned classes. -/
def analyzeScan (arguments : List String) (includeLocal : Bool) (scanned : ScanOutput)
    (stubs : Option Universe) : Report × RunCounts :=
  let known := Universe.ofList (scanned.classes ++ scanned.baseline)
  let analyzer := Analyzer.ofDetectors (runDetectors known stubs)
  let extraction := extractAll { includeLocal, kinds := analyzer.kinds } known
    scanned.classes
  let run := analyzer.analyze known false extraction.references
  let report : Report :=
    { arguments, rules := run.analyzer.rules, problems := run.analyzer.problems,
      artifacts := scanned.artifacts }
  (report,
    { classes := scanned.classCount, artifacts := scanned.artifacts.length,
      references := run.references.size, results := report.problems.length,
      failures := scanned.failures.length + extraction.failures.length })

/-- What a run leaves behind. -/
structure CommandOutcome where
  exitCode : UInt32
  /-- What is printed. -/
  output : String := ""
  /-- Why the arguments were refused. -/
  usageError : Option UsageError := none
  /-- Why the run ended early. -/
  runError : Option RunError := none
  /-- The counts, where they are asked for. -/
  counts : Option RunCounts := none
  /-- The files after the run. -/
  tree : FileTree
  deriving DecidableEq, Repr

/-- Whether an output path stands for printing: a dash, with nothing named after it. -/
def isDash (path : String) : Bool :=
  match segments path with
  | "-" :: rest => rest.all (fun segment => segment = "" || segment = ".")
  | _ => false

/-- Prints a report, or writes it to a file. -/
def emitReport (tree : FileTree) (output : Option String) (text : String) :
    Except RunError (String × FileTree) :=
  match output with
  | none => .ok (text, tree)
  | some path =>
      if isDash path then .ok (text, tree)
      else
        match tree.write path text.toUTF8.toList with
        | .ok tree => .ok ("", tree)
        | .error cause => .error (.output path cause)

/-- Does what the options ask for. -/
def runOptions (tree : FileTree) (arguments : List String) (options : CommandOptions) :
    Except RunError CommandOutcome := do
  requirePaths tree options
  let scanned ← (scanInputs tree options.input options.baseline).mapError .scan
  let stubs ← (scanStubs tree options.systemStubs).mapError .scan
  let (report, counts) := analyzeScan arguments options.includeLocalRefs scanned stubs
  let (output, tree) ← emitReport tree options.output report.text
  let shown := if options.timing ∧ ¬ options.quiet then some counts else none
  return { exitCode := 0, output, counts := shown, tree }

def helpText : String :=
  "Find references from JVM class and JAR files that their classpath or execution environment cannot satisfy.\n\nUsage: "
    ++ toolName ++ " [OPTIONS] --input <PATH>\n\nOptions:\n"
    ++ "      --input <PATH>         Class file, JAR file or directory to analyze\n"
    ++ "      --baseline <PATH>      Classes the input is compiled against; repeatable\n"
    ++ "      --system-stubs <PATH>  Stub classes describing the minimum execution environment\n"
    ++ "      --include-local-refs   Also report references from a type to itself and its member types\n"
    ++ "      --output <PATH>        \n"
    ++ "      --quiet                \n"
    ++ "      --timing               \n"
    ++ "  -h, --help                 Print help\n"
    ++ "  -V, --version              Print version\n"

/-- Runs the command on a file tree. -/
def runCommand (tree : FileTree) (arguments : List String) : CommandOutcome :=
  match CommandRequest.ofArguments arguments with
  | .error error => { exitCode := 2, usageError := some error, tree }
  | .ok .version => { exitCode := 0, output := toolName ++ " " ++ toolVersion ++ "\n", tree }
  | .ok .help => { exitCode := 0, output := helpText, tree }
  | .ok (.run options) =>
      match runOptions tree (toolName :: arguments) options with
      | .ok outcome => outcome
      | .error error => { exitCode := 1, runError := some error, tree }

end Linkage
