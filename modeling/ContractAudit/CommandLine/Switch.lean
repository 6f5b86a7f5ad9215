import ContractAudit.Detect.All
import ContractAudit.Print.Basic
import ContractAudit.Report.Document

/-! # Switches

A switch may be written with the first letters of its name, as long as no other switch begins so. The catalogue has the
detectors and printers that can be named.
-/

namespace ContractAudit.CommandLine

open Text Char

/-! ## Settings

What is not said has its default.
-/

abbrev Settings := Table String Json

namespace Settings

variable (s : Settings) (name : String)

def value : Json := (s.find? name).getD .null

def isOn : Bool := (s.value name).truthy

def text : String := ((s.value name).str?).getD ""

def shared : Settings :=
  ["codex", "codex_log", "exclude_dependencies", "exclude_informational", "exclude_optimization", "exclude_low",
    "exclude_medium", "exclude_high", "disable_color", "generate_patches", "skip_assembly", "legacy_ast",
    "show_ignored_findings", "no_fail"].map (·, .bool false) ++
  ["printers_to_run", "detectors_to_exclude", "detectors_to_include", "json", "sarif", "filter_paths", "include_paths", "zip"].map (·, .null) ++
  [("codex_contracts", .str "all"), ("codex_model", .str "text-davinci-003"), ("codex_temperature", .int 0),
    ("codex_max_tokens", .int 300), ("detectors_to_run", .str "all"), ("fail_on", .str "pedantic"),
    ("json-types", .str "detectors,printers"), ("zip_type", .str "lzma"), ("sarif_input", .str "export.sarif"),
    ("sarif_triage", .str "export.sarif.sarifexplorer"), ("triage_database", .str "slither.db.json")]

def initial : Settings :=
  shared.filter (·.1 != "json-types") ++
  ["include_interfaces", "checklist", "triage_mode", "solc_ast", "debug", "perf", "disallow_partial"].map (·, .bool false) ++
  ["config_file", "codex_organization", "filename"].map (·, .null) ++
  [("json_types", .str "detectors,printers"), ("checklist_limit", .str ""), ("markdown_root", .str ""),
    ("change_line_prefix", .str "#")]

/-- Unknown names do not count. -/
def configure (config : Json) (s : Settings) : Result Settings := do
  match config with
  | .obj fields =>
    fields.foldlM (fun s (name, v) =>
      match shared.find? name with
      | none => .ok s
      | some usual =>
        match s.find? name with
        | none => .error (.lacks "Namespace" name)
        | some now => .ok (if now == usual then s.insert name v else s)) s
  | j => throw (.lacks j.kindName "items")

def parts : Result (List String) :=
  match s.value name with
  | .str t => .ok (splitOn t ",")
  | j => .error (.lacks j.kindName "split")

def partsIfOn : Result (List String) := if s.isOn name then s.parts name else .ok []

end Settings

/-! ## Switches -/

inductive Topic where
  | help | version | listDetectors | listDetectorsJson | listPrinters
  | documentation (word : String)
  | wiki (word : String)

inductive SwitchKind where
  | flag
  | value
  | level (value : String)
  | topic (t : Topic)
  | topicOf (f : String -> Topic)

structure Switch where
  names : List String
  setting : String
  kind : SwitchKind
  group : String := ""

namespace Switch

variable (name : String)

/-- A setting is called like its switch if it is not said otherwise. -/
def settingOf : String := replace (drop 2 name) "-" "_"

def flag : Switch := { names := [name], setting := settingOf name, kind := .flag }

def taking (setting : String := settingOf name) : Switch := { names := [name], setting, kind := .value }

def path : Switch := { taking name with group := "paths" }

def level (names : List String) (value : String) : Switch :=
  { names, setting := "fail_on", kind := .level value, group := "level" }

def topic (names : List String) (t : Topic) : Switch := { names, setting := "", kind := .topic t }

def topicOf (f : String -> Topic) : Switch := { names := [name], setting := "", kind := .topicOf f }

def all : List Switch :=
  ["--include-interfaces", "--exclude-dependencies", "--exclude-optimization", "--exclude-informational", "--exclude-low",
    "--exclude-medium", "--exclude-high", "--show-ignored-findings", "--checklist", "--disable-color", "--triage-mode",
    "--solc-ast", "--generate-patches", "--no-fail", "--codex", "--codex-log", "--debug", "--legacy-ast", "--skip-assembly",
    "--perf", "--disallow-partial"].map flag ++
  ["--checklist-limit", "--markdown-root", "--json", "--sarif", "--sarif-input", "--sarif-triage", "--json-types", "--zip",
    "--zip-type", "--triage-database", "--config-file", "--change-line-prefix", "--codex-contracts", "--codex-model",
    "--codex-temperature", "--codex-max-tokens", "--codex-organization"].map (taking ·) ++
  [topic ["--help", "-h"] .help, topic ["--version"] .version, topic ["--list-detectors"] .listDetectors,
    topic ["--list-printers"] .listPrinters, level ["--fail-pedantic"] "pedantic", level ["--fail-low"] "low",
    level ["--fail-medium"] "medium", level ["--fail-high"] "high", level ["--fail-none", "--no-fail-pedantic"] "none",
    path "--filter-paths", path "--include-paths", topicOf "--markdown" .documentation, topicOf "--wiki-detectors" .wiki,
    topic ["--list-detectors-json"] .listDetectorsJson, taking "--detect" "detectors_to_run",
    taking "--print" "printers_to_run", taking "--exclude" "detectors_to_exclude",
    taking "--include-detectors" "detectors_to_include"]

def candidates : List Switch :=
  (all.find? fun s =>
    s.names.contains name).elim (all.flatMap fun s => (s.names.filter (startsWith · name)).map fun _ => s) fun s => [s]

end Switch

inductive Word where
  | value (text : String)
  | switch (s : Switch) (given : Option String)
  | ambiguous
  | unknown

namespace Word

def isNegativeNumber (word : String) : Bool :=
  match splitOn (drop 1 word) "." with
  | [digits] => digits != "" && digits.toList.all isDigit
  | [whole, fraction] => whole.toList.all isDigit && fraction != "" && fraction.toList.all isDigit
  | _ => false

/-- Without a dash in front, a single dash, a negative number and a text with blanks are values. -/
def ofText (text : String) : Word :=
  if !startsWith text "-" || text == "-" then .value text
  else
    let (name, given) := (find? "=" text).elim (text, none) fun i => (take i text, some (drop (i + 1) text))
    match Switch.candidates name with
    | [s] => .switch s given
    | [] => if isNegativeNumber text || contains text " " then .value text else .unknown
    | _ => .ambiguous

def value? : Word -> Option String
  | value t => some t
  | _ => none

end Word

inductive Request where
  | run (settings : Settings)
  | tell (topic : Topic)
  | refused (code : Int)

structure Progress where
  settings : Settings := .initial
  targets : List String := []
  strays : Bool := false
  chosen : List (String × List String) := []

namespace Progress

variable (p : Progress) (s : Switch)

def excludes : Bool := s.group != "" && p.chosen.any fun (group, names) => group == s.group && names != s.names

def set (v : Json) : Progress :=
  { p with settings := p.settings.insert s.setting v, chosen := p.chosen ++ [(s.group, s.names)] }

def settled (text : String) : Json := .str (if s.setting == "markdown_root" then Report.Markdown.root text else text)

/-- What is asked for when all words are read. There is one target. -/
def finish : Request :=
  match p.targets, p.strays with
  | [target], false => .run (p.settings.insert "filename" (.str target))
  | _, _ => .refused 2

inductive Step where
  | done (r : Request)
  | next (p : Progress)
  | skip (p : Progress)

def take (value : String) (go : Progress -> Step) : Step :=
  match s.kind with
  | .value => go (p.set s (settled s value))
  | .topicOf f => .done (.tell (f value))
  | _ => .done (.refused 2)

/-- `following` is the word after it. -/
def step (word : String) (following : Option String) : Step :=
  match Word.ofText word with
  | .value t => .next { p with targets := p.targets ++ [t] }
  | .unknown => .next { p with strays := true }
  | .ambiguous => .done (.refused 2)
  | .switch s given =>
    if p.excludes s then .done (.refused 2)
    else match s.kind, given with
      | .flag, none => .next (p.set s (.bool true))
      | .level l, none => .next (p.set s (.str l))
      | .topic t, none => .done (.tell t)
      | _, some v => p.take s v .next
      | _, none => ((following.map Word.ofText).bind Word.value?).elim (.done (.refused 2)) fun v => p.take s v .skip

/-- After two dashes all are values. -/
def read : List String -> Request
  | [] => p.finish
  | "--" :: rest => { p with targets := p.targets ++ rest }.finish
  | word :: rest =>
    match p.step word rest.head? with
    | .done r => r
    | .next p => read rest
    | .skip p => match rest with
      | [] => p.finish
      | _ :: rest => read rest

end Progress

/-- It must not be empty, and no word may stand for several switches. -/
def request (words : List String) : Request :=
  let isAmbiguous (word : String) : Bool := Word.ofText word matches .ambiguous
  if words.isEmpty then .refused 1
  else if (words.takeWhile (· != "--")).any isAmbiguous then .refused 2
  else ({} : Progress).read words

/-! ## Catalogue -/

structure DetectorEntry where
  detector : Detector
  help : String
  wiki : String := "--"
  description : String := "--"
  scenario : String := "--"

namespace DetectorEntry

def name (e : DetectorEntry) : String := e.detector.name

def all : List DetectorEntry :=
  [(Detect.divisionByZero, "oscv-6.2.1"), (Detect.integerDivision, "oscv-6.2.2"), (Detect.integerOverflow, "oscv-6.1.2"),
    (Detect.integerUnderflow, "oscv-6.1.1"), (Detect.signedness, "oscv-6.3.2"), (Detect.truncation, "oscv-6.3.1")].map
    fun (detector, help) => { detector, help }

def inOrder : List DetectorEntry :=
  all.mergeSort fun x y =>
    let key (e : DetectorEntry) : Nat × String × String := (e.detector.impact.rank, e.detector.confidence.label, e.name)
    let (a, b, c) := key x
    let (a', b', c') := key y
    decide (a < a') || (a == a' && (decide (b < b') || (b == b' && decide (c ≤ c'))))

def named (name : String) : Result DetectorEntry :=
  expect (all.find? fun e => e.name == name) (.badValue s!"Error: {name} is not a detector")

def document (e : DetectorEntry) (number : Nat) : Json :=
  .obj [("index", .int number), ("check", .str e.name), ("title", .str e.help), ("impact", .str e.detector.impact.label),
    ("confidence", .str e.detector.confidence.label), ("wiki_url", .str e.wiki), ("description", .str e.description),
    ("exploit_scenario", .str e.scenario), ("recommendation", .str e.detector.recommendation)]

def page (e : DetectorEntry) : List String :=
  [s!"\n## {e.detector.title}", "### Configuration", s!"* Check: `{e.name}`",
    s!"* Severity: `{e.detector.impact.label}`", s!"* Confidence: `{e.detector.confidence.label}`", "\n### Description",
    e.description] ++ (if e.scenario == "" then [] else ["\n### Exploit Scenario:", e.scenario]) ++
    ["\n### Recommendation", e.detector.recommendation]

end DetectorEntry

structure PrinterEntry where
  name : String
  help : String
  wiki : String

namespace PrinterEntry

def of (name help : String) (anchor : String := name) : PrinterEntry :=
  ⟨name, help, "https://github.com/trailofbits/slither/wiki/Printer-documentation#" ++ anchor⟩

def all : List PrinterEntry :=
  [of "cfg" "Export the CFG of each functions",
    of "ck" "Chidamber and Kemerer (CK) complexity metrics and related function attributes",
    of "cheatcode" ("\n        Print the usage of (Foundry) cheatcodes in the code.\n" ++
      "        For the complete list of Cheatcodes, see https://book.getfoundry.sh/cheatcodes/\n    "),
    ⟨"constructor-calls", "Print the constructors executed",
      "https://github.com/crytic/slither/wiki/Printer-documentation#constructor-calls"⟩,
    of "contract-summary" "Print a summary of the contracts",
    of "data-dependency" "Print the data dependencies of the variables" "data-dependencies",
    ⟨"declaration", "Prototype showing the source code declaration, implementation and references of the contracts objects",
      "TODO"⟩,
    of "dominator" "Export the dominator tree of each functions", of "echidna" "Export Echidna guiding information",
    of "function-id" "Print the keccak256 signature of the functions",
    of "function-summary" "Print a summary of the functions",
    of "halstead" "Computes the Halstead complexity metrics for each contract",
    of "loc" ("Count the total number lines of code (LOC), source lines of code (SLOC),\n" ++
      "            and comment lines of code (CLOC) found in source files (SRC), dependencies (DEP),\n" ++
      "            and test files (TEST)."),
    of "martin" "Martin agile software metrics (Ca, Ce, I, A, D)",
    of "modifiers" "Print the modifiers called by each function",
    of "call-graph" "Export the call-graph of the contracts to a dot file",
    of "evm" "Print the evm instructions of nodes in functions",
    of "entry-points" "Print all the state-changing entry point functions of the contracts",
    of "human-summary" "Print a human-readable summary of the contracts",
    of "inheritance" "Print the inheritance relations between contracts",
    of "inheritance-graph" "Export the inheritance graph of each contract to a dot file",
    of "slithir" "Print the slithIR representation of the functions",
    of "slithir-ssa" "Print the slithIR representation of the functions",
    of "not-pausable" "Print functions that do not use whenNotPaused" "when-not-paused",
    of "vars-and-auth" "Print the state variables written and the authorization of the functions"
      "variables-written-and-authorization",
    of "require" "Print the require and assert calls of each function",
    of "variable-order" "Print the storage order of the state variables"]

def inOrder : List PrinterEntry := all.mergeSort fun x y => decide (x.name ≤ y.name)

def named (name : String) : Result PrinterEntry :=
  expect (all.find? fun e => e.name == name) (.badValue s!"Error: {name} is not a printer")

def document (e : PrinterEntry) (number : Nat) : Json :=
  .obj [("index", .int number), ("check", .str e.name), ("title", .str e.help)]

end PrinterEntry

def numbered {α : Type} (entries : List α) : List (α × Nat) := entries.zipIdx 1

def detectorList : Json := .arr ((numbered DetectorEntry.inOrder).map fun (e, i) => e.document i)

def printerList : Json := .arr ((numbered PrinterEntry.inOrder).map fun (e, i) => e.document i)

def linked (help wiki : String) : String := if wiki == "" then help else "[" ++ help ++ "](" ++ wiki ++ ")"

def documentation (word : String) : List String :=
  let detectors := numbered (DetectorEntry.inOrder.filter (contains ·.wiki word))
  let printers := numbered PrinterEntry.inOrder
  [word] ++ (detectors.map fun (e, i) =>
      s!"{i} | `{e.name}` | {linked e.help e.wiki} | {e.detector.impact.label} | {e.detector.confidence.label}") ++
    [""] ++ printers.map fun (e, i) => s!"{i} | `{e.name}` | {linked e.help e.wiki}"

def Topic.lines : Topic -> Result (List String)
  | help => .ok ["usage: arscan target [flag]"]
  | version => .ok ["0.11.0"]
  | listDetectors => do
    let rows := (numbered DetectorEntry.inOrder).map fun (e, i) =>
      [toString i, e.name, e.help, e.detector.impact.label, e.detector.confidence.label]
    return [<- (Report.TextTable.ofRows ["Num", "Check", "What it Detects", "Impact", "Confidence"] rows).render]
  | listDetectorsJson => .ok [detectorList.print]
  | listPrinters => do
    let rows := (numbered PrinterEntry.inOrder).map fun (e, i) =>
      [toString i, e.name, " ".intercalate ((Text.lines e.help).map Text.strip)]
    return [<- (Report.TextTable.ofRows ["Num", "Printer", "What it Does"] rows).render]
  | documentation word => .ok (CommandLine.documentation word)
  | wiki word => .ok ((DetectorEntry.inOrder.filter (contains ·.wiki word)).flatMap DetectorEntry.page)

end ContractAudit.CommandLine
