import ContractAudit.Analysis.Dependency
import ContractAudit.Report.Filter
import ContractAudit.Vyper.Unit

/-! # Audits

An audit loads compilation units and keeps what is known about them.
-/

namespace ContractAudit

structure AuditOptions where
  disallowPartial : Bool := false
  skipAssembly : Bool := false
  showIgnoredFindings : Bool := false
  lineMark : String := "#"
  noFail : Bool := false
  generatePatches : Bool := false
  markdownRoot : String := ""
  filterPaths : List String := []
  includePaths : List String := []
  excludeDependencies : Bool := false
  triageMode : Bool := false
  triageDatabase : String := "slither.db.json"
  printersToRun : String := ""
  includeInterfaces : Bool := false
  skipAnalyze : Bool := false

structure UnitInput where
  compiler : String := "solc"
  version : String
  files : List Reader.InputFile

structure Audit where
  options : AuditOptions := {}
  units : List Analysis := []
  screen : Report.Screen := {}
  seen : List String := []

namespace Audit

variable (options : AuditOptions)

inductive Remainder where
  | solidity
  | vyper (contracts : List Vyper.Outline)

/-- A fault counts unless the options say otherwise. -/
def advance {α : Type} (options : AuditOptions) (x : Load α) (s : Reader.State) :
    Result (Reader.State × Option α) :=
  match x.run s with
  | .ok a s => .ok (s, some a)
  | .error f s => if options.noFail then .ok (s, none) else .error f

def languageOf (compiler : String) : Result Language :=
  if compiler == "solc" then .ok .solidity
  else if compiler == "vyper" then .ok .vyper
  else .error (.badValue s!"Unknown language: {compiler}")

/-- `known` are the files that were read before. -/
def readHeadsOf (language : Language) (known : List String) (files : List Reader.InputFile) : Load Remainder := do
  match language with
  | .vyper => return .vyper (<- Vyper.readHeads files)
  | _ =>
    Reader.readHeadsOfUnit known files
    return .solidity

def readHeads (units : List UnitInput) : Result (List (Reader.State × Remainder)) := do
  let (states, _) <- units.zipIdx.foldlM (fun (done, known) (u, i) => do
    let language <- languageOf u.compiler
    let start := Reader.State.initial { disallowPartial := options.disallowPartial, skipAssembly := options.skipAssembly }
      options.lineMark { name := s!"u{i}", version := u.version, language, files := u.files }
    let known' := if language == .vyper then known else addAllNew known (u.files.map (·.path))
    match (readHeadsOf language known u.files).run start with
    | .ok rest s => return (done ++ [(s, rest)], known')
    | .error f _ => throw f) (([] : List (Reader.State × Remainder)), ([] : List String))
  return states

/-- What is left of a Vyper unit are the types and the code. -/
def readContracts : Remainder -> Load (List Vyper.Members)
  | .solidity => do
    Reader.readContracts
    return []
  | .vyper outlines => outlines.mapM Vyper.declareMembers

def analyse (s : Reader.State) (members : List Vyper.Members) : Result Analysis := do
  let (s, done) <- advance options (Vyper.readContents members) s
  let start : Analysis := { program := s.program }
  if done.isNone then return start
  let how : Analyze.Options :=
    { disallowPartial := options.disallowPartial, skipDependency := options.printersToRun == "echidna" }
  match (Analyze.unit how).run start with
  | .ok _ a => return a
  | .error f a => if options.noFail then return a else throw f

def screenFor (programs : List Program) : Report.Screen :=
  programs.foldl (fun s p => p.files.foldl (fun s f =>
    if p.language == .vyper then s.addPlainFile f.name.absolute f.text else s.addFile f.name.absolute f.text) s)
    { showSilenced := options.showIgnoredFindings, includePaths := options.includePaths
      filterPaths := options.filterPaths }

def load (units : List UnitInput) : Result Audit := do
  let states <- readHeads options units
  let read <- states.mapM fun (s, rest) => advance options (readContracts rest) s
  let analyses <- read.mapM fun (s, members) =>
    members.elim (return { program := s.program }) fun members =>
      if options.skipAnalyze then return { program := s.program } else analyse options s members
  let screen := screenFor options (states.map fun (s, _) => s.program)
  return { options, units := analyses, screen }

end Audit

/-! ## Archives

An archive holds compilation units: for each the compiler, its version, and the files with their texts and trees.
-/

namespace Archive

variable (j : Json) (key : String)

def need : Result Json := expect (j.field? key) (.missing key)

def needText : Result String := do
  match <- need j key with
  | .str s => .ok s
  | v => .error (.badType s!"{v.kindName}")

def file : Result Reader.InputFile := do
  return { path := <- needText j "path", text := <- needText j "source", tree := <- need j "ast" }

/-- The compiler need not be named. -/
def unit : Result UnitInput := do
  let files <- ((<- need j "files").arr?.getD []).mapM file
  return { compiler := ((j.fieldOrNull "compiler").str?).getD "solc", version := <- needText j "version", files }

def units : Result (List UnitInput) := (j.arr?.getD []).mapM unit

def ofJson : Result (List UnitInput) := do units (<- need j "units")

end Archive

end ContractAudit
