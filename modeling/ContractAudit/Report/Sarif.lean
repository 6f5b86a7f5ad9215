import ContractAudit.Detect.All

/-! # Findings in an exchange format

The rules that were broken, and one result with a place for each finding that points to something.
-/

namespace ContractAudit.Report.Sarif

def precision : Severity -> String
  | .medium => "high"
  | .low => "medium"
  | .informational => "low"
  | .high | .optimization => "very-high"

def risk : Severity -> String
  | .high => "8.0"
  | .medium => "4.0"
  | .low => "3.0"
  | .informational | .optimization => "0.0"

def ruleId (d : Detector) : String := s!"{d.impact.rank}-{d.confidence.rank}-{d.name}"

def rule (d : Detector) : Json :=
  .obj [("id", .str (ruleId d)), ("name", .str d.name),
    ("properties", .obj [("precision", .str (precision d.confidence)), ("security-severity", .str (risk d.impact))]),
    ("shortDescription", .obj [("text", .str d.title)]), ("help", .obj [("text", .str d.recommendation)])]

def result (d : Detector) (r : Report) (e : Element) : Result Json := do
  let lines := e.source.lines
  let (some first, some last) := (lines.head?, lines.getLast?) | throw .outOfRange
  let region : Json := .obj [("startLine", .int first), ("endLine", .int last)]
  return .obj [("ruleId", .str (ruleId d)), ("message", .obj [("text", .str r.description), ("markdown", .str r.markdown)]),
    ("level", .str "warning"),
    ("locations", .arr [.obj [("physicalLocation", .obj [("artifactLocation", .obj [("uri", .str e.source.file.short)]),
      ("region", region)])]]),
    ("partialFingerprints", .obj [("id", .str r.id)])]

def run (found : List (Detector × Report)) : Result Json := do
  let rules := (Table.ofList (found.map fun (d, _) => (ruleId d, rule d))).values
  let results <- found.mapM fun (d, r) => match r.elements with
    | e :: _ => do return [<- result d r e]
    | [] => .ok []
  return .obj [("tool", .obj [("driver", .obj [("name", .str "Slither"),
      ("informationUri", .str "https://github.com/crytic/slither"), ("version", .str "0.11.0"), ("rules", .arr rules)])]),
    ("results", .arr results.flatten)]

end ContractAudit.Report.Sarif
