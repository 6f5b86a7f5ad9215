import ContractAudit.CommandLine.Switch
import ContractAudit.Print.All
import ContractAudit.Report.Sarif

/-! # Runs

A run reads the archive that a command line names, looks for findings or prints, and ends with a code.
-/

namespace ContractAudit.CommandLine

open Text

structure Results where
  detectors : List (Detector × Report) := []
  printers : List (Option String × String) := []
  listDetectors : Bool := false
  listPrinters : Bool := false
  console : Option String := none

def Results.printed (name : Option String) (text : String) : Json :=
  .obj ([("elements", .arr []), ("description", .str text), ("markdown", .str text), ("first_markdown_element", .str ""),
    ("id", .str (Hash.bytesToHex (Hash.sha3 text.toUTF8)))] ++ name.toList.map fun n => ("printer", .str n))

/-- Empty lists are left out. -/
def Results.fields (r : Results) (detectors : List Report -> Json) (printer : Option String -> String -> Json) :
    List (String × Json) :=
  (if r.detectors.isEmpty then [] else [("detectors", detectors (r.detectors.map (·.2)))]) ++
    (if r.printers.isEmpty then [] else [("printers", .arr (r.printers.map fun (n, t) => printer n t))]) ++
    (if r.listDetectors then [("list-detectors", detectorList)] else []) ++
    (if r.listPrinters then [("list-printers", printerList)] else []) ++
    r.console.toList.map fun text => ("console", .obj [("stdout", .str text), ("stderr", .str "")])

inductive Document where
  | text (s : String)
  | json (j : Json)
  | report (error : Option String) (results : Results)
  | sarif (run : Json)

namespace Document

def ofReport (error : Option String) (results : Json) : Json :=
  .obj [("success", .bool error.isNone), ("error", (error.map .str).getD .null), ("results", results)]

def ofRun (run : Json) : Json :=
  .obj [("$schema", .str
      "https://raw.githubusercontent.com/oasis-tcs/sarif-spec/master/Schemata/sarif-schema-2.1.0.json"),
    ("version", .str "2.1.0"), ("runs", .arr [run])]

def json? : Document -> Option Json
  | text _ => none
  | json j => some j
  | report error results =>
    some (ofReport error (.obj (results.fields (fun rs => .arr (rs.map Report.document)) Results.printed)))
  | sarif run => some (ofRun run)

def said : Document -> String
  | text s => s
  | d => ((d.json?.map Json.print).getD "") ++ "\n"

/-- Reports have indented lines. -/
def written : Document -> String
  | text s => s
  | json j => j.print
  | d => (d.json?.map (Json.pretty 0)).getD ""

end Document

structure World where
  files : Table String String := []
  archives : Table String Json := []
  input : List String := []

def World.has (w : World) (name : String) : Bool := w.files.has name || w.archives.has name

def World.json? (w : World) (name : String) : Option Json :=
  (w.archives.find? name).or ((w.files.find? name).bind Json.parse?)

structure Desk where
  world : World := {}
  said : List Document := []
  written : Table String Document := []
  hidden : List Report := []
  earlier : List Json := []

abbrev Session := EStateM Fault Desk

namespace Session

def world : Session World := do return (<- get).world

variable (name : String) (d : Document)

def say : Session Unit := modify fun s => { s with said := s.said ++ [d] }

def sayLines (lines : List String) : Session Unit := lines.forM fun l => say (.text (l ++ "\n"))

def write : Session Unit := modify fun s => { s with written := s.written.insert name d }

def writeNew : Session Unit := do
  let s <- get
  unless s.world.has name || s.written.has name do write name d

/-- A dash stands for what is said. -/
def give : Session Unit := if name == "-" then say d else writeNew name d

def lift {α : Type} (x : Result α) : Session α :=
  match x with
  | .ok a => return a
  | .error f => throw f

end Session

/-! ## Triage in a session

Which findings are hidden in later runs is asked for after each detector, and kept in a file.
-/

inductive Verdict where
  | hideAll
  | keepAll
  | hide (positions : List Int)
  | malformed
  deriving DecidableEq

namespace Verdict

def unbracketed (s : String) : String :=
  let s := if startsWith s "[" then drop 1 s else s
  if endsWith s "]" then dropLast 1 s else s

def ofText (answer : String) : Verdict :=
  if answer == "All" then .hideAll
  else if answer == "" then .keepAll
  else ((splitOn (unbracketed answer) ",").mapM Number.decimal?).elim .malformed .hide

/-- The findings that are hidden, and those that are kept. -/
def split (v : Verdict) (found : List Report) : List Report × List Report :=
  match v with
  | .hideAll => (found, [])
  | .keepAll | .malformed => ([], found)
  | .hide positions =>
    let (hidden, kept) := found.zipIdx.partition fun (_, i) => positions.contains (.ofNat i)
    (hidden.map (·.1), kept.map (·.1))

def first? : List String -> Option (Verdict × Nat × List String)
  | [] => none
  | answer :: rest =>
    match ofText answer with
    | .malformed => (first? rest).map fun (v, n, rest) => (v, n + 1, rest)
    | v => some (v, 1, rest)

end Verdict

namespace Session

def question (found : List Report) : String :=
  s!"Results to hide during next runs: \"0,1,...,{found.length}\" or \"All\" (enter to not hide results):\n"

def keepHidden (database : String) : Session Unit := do
  let s <- get
  unless s.hidden.isEmpty do write database (.json (.arr (s.hidden.map Report.document ++ s.earlier)))

/-- The others are kept. -/
def triage (database : String) (found : List Report) : Session (List Report) := do
  let input := (<- world).input
  match Verdict.first? input with
  | none =>
    (List.range (input.length + 1)).forM fun _ => say (.text (question found))
    throw .endOfInput
  | some (v, asked, rest) =>
    (List.range asked).forM fun _ => say (.text (question found))
    let (hidden, kept) := v.split found
    modify fun s => { s with world := { s.world with input := rest }, hidden := s.hidden ++ hidden }
    unless v == .keepAll do keepHidden database
    return kept

def earlierFindings (sarif notes database : String) : Session (List String × List String) := do
  let w <- world
  let settled <- match w.json? sarif, w.json? notes with
    | some run, some notes => lift (Report.settledIds run notes)
    | _, _ => pure []
  let earlier := ((w.json? database).bind Json.arr?).getD []
  modify fun s => { s with earlier }
  return (settled ++ earlier.filterMap fun j => (j.fieldOrNull "id").str?,
    earlier.filterMap fun j => (j.fieldOrNull "description").str?)

end Session

end ContractAudit.CommandLine

namespace ContractAudit

/-! ## Runs -/

def Fault.isOfAnalysis : Fault -> Bool
  | parsing _ | unknownVariable _ | analysis _ | model _ | fatal _ | lowering _ | inheritance _ | formatting _ => true
  | _ => false

namespace CommandLine

namespace Settings

variable (s : Settings)

def resultKinds : List String := ["compilations", "console", "detectors", "printers", "list-detectors", "list-printers"]

def resultKindsAsked : Result (List String) := do
  let kinds <- s.parts "json_types"
  let some k := kinds.find? fun k => !resultKinds.contains k | return kinds
  throw (.badValue s!"Error: \"{k}\" is not a valid JSON result output type.")

def printers : Result (List PrinterEntry) := do
  match s.value "printers_to_run" with
  | .null => return []
  | .str "all" => return PrinterEntry.all
  | _ => (<- s.parts "printers_to_run").mapM PrinterEntry.named

def mentions (j : Json) (text : String) : Result Bool :=
  match j with
  | .str s => .ok (Text.contains s text)
  | .arr items => .ok (items.contains (.str text))
  | .obj fields => .ok (fields.any (·.1 == text))
  | j => .error (.badType s!"argument of type '{j.kindName}' is not iterable")

def excludedImpacts : List Severity :=
  ([(.high, "exclude_high"), (.medium, "exclude_medium"), (.low, "exclude_low"),
    (.informational, "exclude_informational"), (.optimization, "exclude_optimization")].filter (s.isOn ·.2)).map (·.1)

/-- Those that are named run in any case, else those that are not left out. -/
def detectors : Result (List Detector) := do
  let add (ds : List DetectorEntry) (name : String) : Result (List DetectorEntry) := do
    let e <- DetectorEntry.named name
    return if ds.any fun d => d.name == e.name then ds else ds ++ [e]
  if s.value "detectors_to_run" != .str "all" then
    return (<- (<- s.parts "detectors_to_run").foldlM add []).map (·.detector)
  let excluded := s.excludedImpacts
  let some_ := DetectorEntry.all.filter (!excluded.contains ·.detector.impact)
  let without := s.value "detectors_to_exclude"
  let some_ <- if without.truthy then some_.filterM fun e => do return !(<- mentions without e.name) else pure some_
  let some_ <- (<- s.partsIfOn "detectors_to_include").foldlM add some_
  return (some_.map (·.detector)).mergeSort fun x y => decide (x.impact.rank ≤ y.impact.rank)

def options : Result AuditOptions := do
  return { disallowPartial := s.isOn "disallow_partial", skipAssembly := s.isOn "skip_assembly"
           showIgnoredFindings := s.isOn "show_ignored_findings", lineMark := s.text "change_line_prefix"
           noFail := s.isOn "no_fail", generatePatches := s.isOn "generate_patches"
           markdownRoot := s.text "markdown_root", filterPaths := <- s.partsIfOn "filter_paths"
           includePaths := <- s.partsIfOn "include_paths", excludeDependencies := s.isOn "exclude_dependencies"
           triageMode := s.isOn "triage_mode", triageDatabase := s.text "triage_database"
           printersToRun := s.text "printers_to_run", includeInterfaces := s.isOn "include_interfaces" }

def failingImpacts : Result (List Severity) :=
  match s.value "fail_on" with
  | .str "pedantic" => .ok [.high, .medium, .low, .informational, .optimization]
  | .str "low" => .ok [.high, .medium, .low]
  | .str "medium" => .ok [.high, .medium]
  | .str "high" => .ok [.high]
  | .str "none" => .ok []
  | j => .error (.badValue s!"{j.inner} is not a valid FailOnLevel")

end Settings

namespace Session

variable (s : Settings)

def configured : Session Settings := do
  let w <- world
  let name := if let .str name := s.value "config_file" then name else "slither.config.json"
  (w.json? name).elim (return s) fun config => lift (s.configure config)

/-- In triage mode it is asked what to do with the findings. -/
def detectIn (audit : Audit) (d : Detector) (i : Nat) : Session (List Report × Audit) := do
  let (found, a, seen) := audit.foundIn d (audit.units.getD i {})
  let found <- lift found
  let audit := { audit.setUnit i a with seen }
  if audit.options.triageMode && !found.isEmpty then return (<- triage audit.options.triageDatabase found, audit)
  return (found.mergeSort fun x y => decide (x.id ≤ y.id), audit)

def detectAll (audit : Audit) (detectors : List Detector) : Session (List (Detector × Report) × Audit) :=
  detectors.foldlM (fun (done, audit) d =>
    (List.range audit.units.length).foldlM (fun (done, audit) i => do
      let (found, audit) <- detectIn audit d i
      return (done ++ found.map fun r => (d, r), audit)) (done, audit)) ([], audit)

def countsOf (found : List (Detector × Report)) : Print.FindingCounts :=
  let count (x : Severity) : Nat := (found.filter fun (d, _) => d.impact == x).length
  { optimization := count .optimization, informational := count .informational, low := count .low
    medium := count .medium, high := count .high }

def namelessPrinters : List String := ["cheatcode", "constructor-calls"]

def printWith (target : String) (detectors : List Detector) (audit : Audit) (e : PrinterEntry) :
    Session (List (Option String × String) × Audit) := do
  let .ok printer := Printer.named e.name | return ([], audit)
  let (found, audit) <- if e.name == "human-summary" then detectAll audit detectors else pure ([], audit)
  let input : PrintInput := { units := audit.units, file := target, includeInterfaces := audit.options.includeInterfaces }
  let out <- lift (if e.name == "human-summary" then Print.overviewOf (countsOf found) input else printer.print input)
  out.files.forM fun (file, text) => write file (.text text)
  let name := if namelessPrinters.contains e.name then none else some e.name
  return ([(name, out.description)], { audit with units := printer.unitsAfter input })

def refuseRepeated : List PrinterEntry -> Session Unit
  | [] => return
  | e :: rest => do
    if rest.any fun x => x.name == e.name then throw (.fatal s!"You can't register {e.name} twice.")
    refuseRepeated rest

def examine (options : AuditOptions) (detectors : List Detector) (printers : List PrinterEntry)
    (target : String) (units : List UnitInput) : Session Results := do
  let audit <- lift (Audit.load options units)
  refuseRepeated printers
  if printers.isEmpty then
    let (ids, descriptions) <- earlierFindings (s.text "sarif_input") (s.text "sarif_triage") options.triageDatabase
    let screen := { audit.screen with hiddenIds := ids, hiddenDescriptions := descriptions }
    let (found, _) <- detectAll { audit with screen } detectors
    return { detectors := found }
  let (printed, _) <- printers.foldlM (fun (done, audit) e => do
    let (printed, audit) <- printWith target detectors audit e
    return (done ++ printed, audit)) (([] : List (Option String × String)), audit)
  return { printers := printed }

/-- A missing JSON file has none. -/
def unitsOf (target : String) : Session (List UnitInput) := do
  match (<- world).json? target with
  | some archive => lift (Archive.ofJson archive)
  | none =>
    if s.isOn "solc_ast" || Text.endsWith target ".json" then return []
    throw (.fatal s!"Invalid compilation: \n{target} is not supported")

/-- A fault of the analysis becomes an error text. -/
def guarded (x : Session Results) : Session (Option String × Results) := do
  try return (none, <- x)
  catch f => if f.isOfAnalysis then return (some f.message, {}) else throw f

def blocked : Bool := s.value "json" == .str "-" || s.value "sarif" == .str "-"

def runWith (given : Settings) : Session Int := do
  let s <- configured given
  let options <- lift s.options
  let kinds <- lift s.resultKindsAsked
  let printers <- lift s.printers
  let detectors <- lift s.detectors
  let target := s.text "filename"
  let (error, found) <- guarded do
    let found <- examine s options detectors printers target (<- unitsOf s target)
    if s.isOn "checklist" then
      sayLines (Report.checklist (s.text "checklist_limit") (s.isOn "show_ignored_findings") (found.detectors.map (·.2)))
    return found
  let text := String.join ((<- get).said.map Document.said)
  if blocked s then modify fun d => { d with said := [] }
  let asked (kind : String) : Bool := kinds.contains kind && error.isNone
  let results : Results :=
    { detectors := if asked "detectors" then found.detectors else []
      printers := if asked "printers" then found.printers else []
      listDetectors := asked "list-detectors", listPrinters := asked "list-printers"
      console := if kinds.contains "console" then some text else none }
  if let .str name := s.value "json" then give name (.report error results)
  if let .str name := s.value "sarif" then give name (.sarif (<- lift (Report.Sarif.run results.detectors)))
  let failing <- lift s.failingImpacts
  let fails := found.detectors.any fun (_, r) => failing.contains r.impact
  return if error.isSome || fails then -1 else 0

def serve (words : List String) : Session Int := do
  match request words with
  | .refused code => return code
  | .tell topic =>
    sayLines (<- lift topic.lines)
    return 0
  | .run settings => runWith settings

end Session

structure Outcome where
  code : Result Int
  said : List Document
  written : Table String Document

def outcome (world : World) (words : List String) : Outcome :=
  match EStateM.run (Session.serve words) { world := world } with
  | .ok code s => ⟨.ok code, s.said, s.written⟩
  | .error f s => ⟨.error f, s.said, s.written⟩

end CommandLine

end ContractAudit
