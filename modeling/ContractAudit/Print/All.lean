import ContractAudit.Metrics
import ContractAudit.Print.Fuzzing
import ContractAudit.Print.Graphs
import ContractAudit.Print.Listings

/-! # Overviews and the list of all printers -/

namespace ContractAudit.Print

open Metrics Text Number Table

def measureTable (keys : List String) (data : Table String (Table String String)) : Result String :=
  table ("Contract" :: keys) (data.map fun (name, values) => name :: keys.map fun k => (values.find? k).getD "")

variable (units : List Analysis) (x : PrintInput) (s : Seat)

def seatPairs : List (Analysis × ContractId) := x.contracts.map fun s => (s.unit, s.contract)

def halstead : Printer where
  name := "halstead"
  print x := do
    if x.contracts.isEmpty then return { kept := some "No contract found" }
    let sequences <- x.contracts.mapM fun s => do return (s, <- Sequence.ofContract s.unit s.contract)
    let measured <- sequences.mapM fun (s, q) => do return (s.name, (<- Halstead.ofSequence s.program q).rows)
    let data := ofList measured
    let parts <- [("Core", ["Total Operators", "Unique Operators", "Total Operands", "Unique Operands"]),
      ("Extended 1/2", ["Vocabulary", "Program Length", "Estimated Length", "Volume"]),
      ("Extended 2/2", ["Difficulty", "Effort", "Time", "Estimated Bugs"])].mapM fun (title, keys) => do
      return s!"\n\nHalstead complexity metrics ({title}):\n" ++ (<- measureTable keys data) ++ "\n"
    return .ofText (.join parts)

def martin : Printer where
  name := "martin"
  print x := do
    if x.contracts.isEmpty then return { kept := some "No contract found" }
    let abstractness := Metrics.abstractness (seatPairs x)
    let couplings <- Coupling.ofContracts (seatPairs x)
    let rows := couplings.map fun (name, c) => [name, toString c.dependents, toString c.dependencies,
      fixed 2 c.instability, fixed 2 (c.distance abstractness)]
    let shown <- table ["Contract", "Dependents", "Dependencies", "Instability", "Distance from main sequence"] rows
    return .ofText ("Martin agile software metrics\n" ++
      "Efferent Coupling (Ce) - Number of contracts that a contract depends on\n" ++
      "Afferent Coupling (Ca) - Number of contracts that depend on the contract\n" ++
      "Instability (I) - Ratio of efferent coupling to total coupling (Ce / (Ce + Ca))\n" ++
      "Abstractness (A) - Number of abstract contracts / total number of contracts\n" ++
      "Distance from the Main Sequence (D) - abs(A + I - 1)\n\n" ++
      s!"Abstractness (overall): {Number.rounded 2 abstractness}\n" ++ shown ++ "\n")

def totalTable (keys : List String) (data : Table String (Table String Nat)) : Result String :=
  let value (k : String) (values : Table String Nat) : Nat := (values.find? k).getD 0
  table ("Contract" :: keys) ((data.map fun (name, values) => name :: keys.map fun k => toString (value k values)) ++
    [("TOTAL" :: keys.map fun k => toString (data.foldl (fun n x => n + value k x.2) 0))])

def contractMeasures : Printer where
  name := "ck"
  print x := do
    if x.contracts.isEmpty then return { kept := some "No contract found" }
    let couplings <- Coupling.ofContracts (seatPairs x)
    let measured <- x.contracts.mapM fun s => do
      return (s.name, (<- ContractMetrics.ofContract (seatPairs x) couplings s.unit s.contract).rows)
    let data := ofList measured
    let parts <- [("Variables", ["State variables", "Constants", "Immutables"]),
      ("Function visibility", ["Public", "External", "Internal", "Private"]),
      ("State mutability", ["Mutating", "View", "Pure"]),
      ("External mutating functions", ["External mutating", "No auth or onlyOwner", "No modifiers"])].mapM
      fun (title, keys) => do return s!"\n\nCK complexity metrics ({title}):\n" ++ (<- totalTable keys data) ++ "\n"
    let core <- measureTable ["Ext calls", "RFC", "NOC", "DIT", "CBO"]
      (data.map fun (name, values) => (name, values.map fun (k, n) => (k, toString n)))
    return .ofText (.join parts ++ "\n\nCK complexity metrics (Core):\nRFC: Response For a Class\n" ++
      "NOC: Number of Children\nDIT: Depth of Inheritance Tree\nCBO: Coupling Between Object Classes\n" ++ core ++ "\n")

structure LineTotals where
  sources : Source.LineCount := {}
  tests : Source.LineCount := {}

def LineTotals.plus (a b : Source.LineCount) : Source.LineCount := ⟨a.comments + b.comments, a.code + b.code, a.all + b.all⟩

/-- Counts the lines of files. Each path counts once. -/
def LineTotals.ofUnits : LineTotals :=
  let files := ofList (units.flatMap fun a => a.program.files.map fun f => (f.name.absolute, f.text))
  files.foldl (fun t (path, text) =>
    let count := Source.LineCount.ofLines (lines text)
    if (Path.parts path).any Program.testWords.contains then { t with tests := plus t.tests count }
    else { t with sources := plus t.sources count }) {}

/-- No file is one of a dependency. -/
def linesOfCode : Printer where
  name := "loc"
  print x := do
    let t := LineTotals.ofUnits x.units
    let row (name : String) (f : Source.LineCount -> Nat) : List String :=
      [name, toString (f t.sources), "0", toString (f t.tests)]
    let shown <- table ["", "src", "dep", "test"] [row "loc" (·.all), row "sloc" (·.code), row "cloc" (·.comments),
      row "Total" fun c => c.all + c.code + c.comments]
    return .ofText ("Lines of Code \n" ++ shown)

open Ir

/-! ## Overview -/

def isComplex : Bool := s.functions.any fun f => (s.unit.flow f).cyclomaticComplexity > 7

def tokenFeatures : String :=
  let p := s.program
  let functions := s.functions.map p.functionName
  let vars := s.vars.map fun v => (p.var v).name
  let minting := if functions.contains "mint" then
      if vars.contains "mintingFinished" then "Minting\n" else "∞ Minting\n"
    else "No Minting\n"
  let mitigated := functions.contains "increaseApproval" || functions.contains "safeIncreaseAllowance"
  (if functions.contains "pause" then "Pausable\n" else "") ++ minting ++ (if mitigated then "" else "Approve Race Cond.\n")

structure Abilities where
  sends : Bool := false
  destructs : Bool := false
  recovers : Bool := false
  delegates : Bool := false
  usesTokens : Bool := false

def Abilities.add (p : Program) (x : Abilities) (op : Op) : Result Abilities := do
  match op with
  | .call c => match c.kind with
    | .send .. | .transfer .. => return { x with sends := true }
    | .lowLevel _ name =>
      return { x with
        sends := x.sends || c.value.isSome
        delegates := x.delegates || name.render == "delegatecall" || name.render == "callcode" }
    | .highLevel _ _ callee | .library _ _ callee =>
      let owner <- match callee with
        | some (.func g) => match p.functionContract? g with
          | some d => pure (some d)
          | none => throw (.lacks "FunctionTopLevel" "contract")
        | some (.var v) => pure (p.stateOwner? v)
        | _ => pure none
      let isToken <- owner.elim (pure false) p.mayBeToken
      return { x with sends := x.sends || c.value.isSome, usesTokens := x.usesTokens || isToken }
    | .builtin (.builtinFunction n) =>
      return { x with
        destructs := x.destructs || n == "suicide(address)" || n == "selfdestruct(address)"
        recovers := x.recovers || n == "ecrecover(bytes32,uint8,bytes32,bytes32)" }
    | _ => return x
  | _ => return x

def features : Result (List String) := do
  let p := s.program
  let file := s.declaration.source.file.absolute
  let encoder := units.any fun a => a.program.pragmaTable.any fun d =>
    d.source.file.absolute == file && d.literals == ["experimental", "ABIEncoderV2"]
  let x <- (s.functions.flatMap s.unit.operationsOf).foldlM (fun x i => Abilities.add p x i.instr.op) {}
  return ([("Receive ETH", s.functions.any fun f => (p.function f).payable), ("Send ETH", x.sends),
    ("Selfdestruct", x.destructs), ("Ecrecover", x.recovers), ("Delegatecall", x.delegates),
    ("Tokens interaction", x.usesTokens), ("AbiEncoderV2", encoder),
    ("Assembly", s.functions.any fun f => (p.function f).containsAssembly),
    ("Upgradeable", p.isUpgradeable s.contract), ("Proxy", s.unit.isProxy s.contract)].filter (·.2)).map (·.1)

def assemblyLines : Result Nat := do
  let counts <- x.contracts.mapM fun s => (s.program.declaredFunctions s.contract).mapM fun f =>
    (s.unit.nodeIds f).mapM fun n =>
      let node := (s.unit.flow f).node n
      match node.kind, node.code with
      | .assembly, some (.str code) => .ok (lines code).length
      | .assembly, some j => if j.truthy then .error (.lacks j.kindName "splitlines") else .ok 0
      | _, _ => .ok 0
  return counts.flatten.flatten.foldl (· + ·) 0

structure FindingCounts where
  optimization : Nat := 0
  informational : Nat := 0
  low : Nat := 0
  medium : Nat := 0
  high : Nat := 0

def FindingCounts.text (c : FindingCounts) : String :=
  s!"Number of optimization issues: {c.optimization}\nNumber of informational issues: {c.informational}\n" ++
    s!"Number of low issues: {c.low}\nNumber of medium issues: {c.medium}\nNumber of high issues: {c.high}\n" ++
    (if c.high > 0 then "" else "\n")

def overviewRow : Result (List String) := do
  let p := s.program
  let signatures <- p.openSignatures s.contract
  let token := if TokenStandard.isMetBy "ERC20" signatures then tokenFeatures s else ""
  return [s.name, toString s.functions.length, ",".intercalate (<- p.standards s.contract), token,
    if isComplex s then "Yes" else "No", "\n".intercalate (<- features units s)]

/-- The table of contracts is not kept. -/
def overviewOf (counts : FindingCounts) (x : PrintInput) : Result Printout := do
  let tests := (x.contracts.filter fun s => s.program.isTest s.contract).length
  let lines := LineTotals.ofUnits x.units
  let standards := (<- x.contracts.mapM fun s => s.program.standards s.contract).flatten.eraseDups
  let shown := x.mostDerived.filter fun s => !s.program.isTest s.contract
  let rows <- shown.mapM (overviewRow x.units)
  let head := "\nCompiled with 101\n" ++ s!"Total number of contracts in source files: {x.contracts.length - tests}\n"
    ++ (if tests > 0 then s!"Number of contracts in tests       : {tests}\n" else "")
    ++ s!"Source lines of code (SLOC) in source files: {lines.sources.code}\n"
    ++ (if lines.tests.code > 0 then s!"Source lines of code (SLOC) in tests       : {lines.tests.code}\n" else "")
    ++ s!"Number of  assembly lines: {<- assemblyLines x}\n" ++ counts.text
    ++ (if standards.isEmpty then "" else "ERCs: " ++ ", ".intercalate (sort standards) ++ "\n")
  let contracts <- table ["Name", "# functions", "ERCS", "ERC20 info", "Complex code", "Features"] rows
  return { info := [head ++ "\n" ++ contracts], kept := some head }

def overview : Printer where
  name := "human-summary"
  print := overviewOf {}

end ContractAudit.Print

namespace ContractAudit.Printer

open Print

/-! ## All printers -/

def all : List Printer :=
  [callGraph, authorization, flowGraphs, dominatorTrees, fuzzing, Print.inheritance, inheritanceGraph, cheatcodes,
    contractMeasures, constructorCalls, contractSummary, dataDependency, declarations, entryPoints, functionSummary,
    functionIds, halstead, overview, linesOfCode, martin, modifierCalls, requireCalls, operations,
    versionedOperations, variableOrder, notPausable]

def named (name : String) : Result Printer := expect (all.find? fun d => d.name == name) (.missing name)

end ContractAudit.Printer
