import Linkage.Analysis.Problem
import Linkage.Report.Json
import Linkage.Scan
/-
Reports in the SARIF format: the tool with its rules, the invocation, the
problems found, and the artifacts they were looked for in.
-/

namespace Linkage

def toolName : String := "apiref"

def toolVersion : String := "0.1.0"

/-- What an analysis reports. -/
structure Report where
  /-- The command line, the name of the tool in front. -/
  arguments : List String
  rules : List Rule
  problems : List Problem
  artifacts : List Artifact
  deriving DecidableEq, Repr

namespace Report

open JsonValue

def ruleJson (rule : Rule) : JsonValue :=
  object [("id", string rule.id), ("name", string rule.name),
    ("shortDescription", object [("text", string rule.description)])]

def problemJson (problem : Problem) : JsonValue :=
  object [
    ("locations", array [object [("logicalLocations", array [object
      [("kind", string problem.location.kind), ("name", string problem.location.name)]])]]),
    ("message", object [("text", string problem.message)]),
    ("ruleId", string problem.ruleId)]

def artifactJson (artifact : Artifact) : JsonValue :=
  object
    ([("length", number artifact.length),
        ("location", object [("uri", string artifact.uri)])]
      ++ (match artifact.parent with
        | some parent => [("parentIndex", number parent)]
        | none => [])
      ++ (if artifact.isTarget then [("roles", array [string "analysisTarget"])] else []))

def invocationJson (arguments : List String) : JsonValue :=
  object [("arguments", array (arguments.map string)),
    ("commandLine", string (String.intercalate " " arguments)),
    ("executionSuccessful", bool true)]

def toolJson (rules : List Rule) : JsonValue :=
  object [("driver", object [("name", string toolName),
    ("rules", array (rules.map ruleJson)), ("version", string toolVersion)])]

/-- The report as a document; a report without artifacts has no such field. -/
def document (report : Report) : JsonValue :=
  let artifacts := match report.artifacts with
    | [] => []
    | listed => [("artifacts", array (listed.map artifactJson))]
  object [
    ("$schema",
      string "https://schemastore.azurewebsites.net/schemas/json/sarif-2.1.0.json"),
    ("runs", array [object
      (artifacts
        ++ [("invocations", array [invocationJson report.arguments]),
          ("results", array (report.problems.map problemJson)),
          ("tool", toolJson report.rules)])]),
    ("version", string "2.1.0")]

/-- The text of the report, which ends its last line. -/
def text (report : Report) : String := report.document.pretty ++ "\n"

end Report

end Linkage
