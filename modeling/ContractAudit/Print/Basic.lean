import ContractAudit.Analysis.Dependency
import ContractAudit.Analysis.Kinds
import ContractAudit.Report.TextTable

/-! # Printers -/

namespace ContractAudit

structure Printout where
  info : List String := []
  files : Table String String := []
  kept : Option String := none

structure PrintInput where
  units : List Analysis
  file : String := ""
  includeInterfaces : Bool := false

structure Printer where
  name : String
  print : PrintInput -> Result Printout
  asks : PrintInput -> Analysis -> List FunctionId := fun _ _ => []

def Printer.unitsAfter (printer : Printer) (x : PrintInput) : List Analysis :=
  x.units.map fun a => a.widen (printer.asks x a)

def Printout.ofText (text : String) : Printout := { info := [text] }

def Printout.description (x : Printout) : String := x.kept.getD (.join x.info)

def PrintInput.contracts (x : PrintInput) : List Seat := x.units.flatMap fun a => a.program.contracts.map fun c => ⟨a, c⟩

def PrintInput.mostDerived (x : PrintInput) : List Seat := x.units.flatMap fun a => a.program.mostDerived.map fun c => ⟨a, c⟩

def Report.TextTable.ofRows (fields : List String) (rows : List (List String)) : TextTable := ⟨fields, rows, true, none⟩

namespace Print

open Ir Text Analysis

/-! ## Printed tables -/

section

variable (a : Analysis) (s : Seat) (f : FunctionId)

def table (fields : List String) (rows : List (List String)) : Result String := (Report.TextTable.ofRows fields rows).render

def senderConditions : List String :=
  let modifiers := (a.program.function f).modifiers.filterMap fun m => if let .func g := m.target then some g else none
  let code := (a.allInternalCalls f).filterMap (calledFunction? ·.op) ++ [f] ++ modifiers
  code.flatMap fun g => (a.nodeIds g).filterMap fun n =>
    if (a.branches true g n || a.requires g n) && (a.nodeCode g n).read.any (·.same sender) then
      some (a.program.nodeExprText ((a.flow g).node n))
    else none

def authorization : Printer where
  name := "vars-and-auth"
  print x := do
    let parts <- x.contracts.mapM fun s => do
      let a := s.unit
      let rows := s.functions.map fun f =>
        let written := ((a.allStateWritten f).map fun v => (s.program.var v).name).filter (· != "")
        [s.program.functionName f, quotedList (sort written), quotedList (sort (senderConditions a f))]
      let shown <- table ["Function", "State variables written", "Conditions on msg.sender"] rows
      return s!"\nContract {s.name}\n" ++ shown ++ "\n"
    return .ofText (.join parts)

def selectorText (signature : String) : String := "0x" ++ padLeft 8 '0' (hexDigits (Hash.functionId signature))

def functionIds : Printer where
  name := "function-id"
  print x := do
    let parts <- x.mostDerived.mapM fun s => do
      let p := s.program
      let shown := s.functions.filter fun f => !(p.function f).shadowed && !p.isInitial f
      let functions <- shown.filterM (isOpen p)
      let signatures := functions.map p.soliditySignature ++ s.publicVars.map p.getterSignature
      let shown <- table ["Name", "ID"] (signatures.map fun t => [t, selectorText t])
      return s!"\n{s.name}:\n" ++ shown ++ "\n"
    return .ofText (.join parts)

def modifierCalls : Printer where
  name := "modifiers"
  print x := do
    let parts <- x.mostDerived.mapM fun s => do
      let a := s.unit
      let p := s.program
      let named (f : FunctionId) : List Target := (p.function f).modifiers.map (·.target)
      let rows := s.functions.map fun f =>
        let called := (a.allInternalCalls f ++ a.allLibraryCalls f).filterMap (calledFunction? ·.op)
        let all := (named f ++ called.flatMap named).eraseDups
        [p.functionName f, quotedList (sort (all.map p.targetText))]
      return s!"\nContract {s.name}\n" ++ (<- table ["Function", "Modifiers"] rows)
    return { info := parts }

def isCheck (op : Op) : Bool :=
  if let .call { kind := .builtin (.builtinFunction name), .. } := op then requireNames.contains name else false

def requireCalls : Printer where
  name := "require"
  print x := do
    let parts <- x.mostDerived.mapM fun s => do
      let a := s.unit
      let p := s.program
      let rows := s.functions.map fun f =>
        let checks := (a.allPlacedInstrs f).filter (isCheck ·.instr.op)
        let places := (checks.map fun i => (i.function, i.node)).eraseDups
        let exprs := places.map fun (g, n) => p.nodeExprText ((a.flow g).node n)
        [p.functionName f, "\n".intercalate (sort exprs)]
      return s!"\nContract {s.name}\n" ++ (<- table ["Function", "require or assert"] rows)
    return { info := parts }
  asks _ a := a.program.mostDerived.flatMap a.program.functionsOf

def variableOrder : Printer where
  name := "variable-order"
  print x := do
    let parts <- x.mostDerived.mapM fun s => do
      let p := s.program
      let row (state : String) (v : VariableId) : Result (List String) := do
        let at_ <- p.positionIn s.unit.layouts s.contract v
        return [p.variableCanonicalName v, p.variableTypeText v, toString at_.slot, toString at_.offset, state]
      let stored <- (p.storedVariables s.contract).mapM (row "Storage")
      let transient <- (p.transientVariables s.contract).mapM (row "Transient")
      let shown <- table ["Name", "Type", "Slot", "Offset", "State"] (stored ++ transient)
      return s!"\n{s.name}:\n" ++ shown ++ "\n"
    return .ofText (.join parts)

/-- Functions that call others cannot be judged. -/
def notPausable : Printer where
  name := "not-pausable"
  print x := do
    let parts <- x.contracts.mapM fun s => do
      let p := s.program
      let entries := (p.entryPoints s.contract).filter fun f =>
        let g := p.function f
        g.kind != .constructor && !g.view && !g.pure
      let rows <- entries.mapM fun f => do
        if !(s.unit.allInternalCalls f).isEmpty then throw (.badType "isinstance expected 2 arguments, got 3")
        return [p.soliditySignature f, ""]
      return s!"\n{s.name}:\n" ++ (<- table ["Name", "Use whenNotPaused"] rows) ++ "\n"
    return .ofText ("Constructor and pure/view functions are not displayed\n" ++ .join parts)

/-- Results of operations and parts of variables have none that is shown. -/
def dependencyName? : Item -> Option String
  | .target t => some (a.program.targetText t)
  | .tuple i => some (a.program.valueText a.store (.tuple i))
  | .version i => some (a.program.valueText a.store (.version i))
  | .type t => some t
  | .temporary _ | .part _ | .versionPart _ => none

def dependencyNames (context : Context) (v : VariableId) : Result String := do
  let items := (<- a.dependenciesIn context false).of (.target (.var v))
  let names := (items.filterMap (dependencyName? a)).filter (· != "")
  return quotedList (sort names.eraseDups)

def contractDependencies : Result String := do
  let p := s.program
  let a := s.unit
  let fields := ["Variable", "Dependencies"]
  let own <- s.vars.mapM fun v => do
    if (p.var v).name == "" then throw (.broken "")
    return [(p.var v).name, <- dependencyNames a (.contract s.contract) v]
  let functions <- (p.declaredCode s.contract).mapM fun f => do
    let inner <- (p.function f).vars.values.mapM fun v => do return [(p.var v).name, <- dependencyNames a (.function f) v]
    let outer <- s.vars.mapM fun v => do return [p.variableCanonicalName v, <- dependencyNames a (.function f) v]
    return s!"\nFunction {p.functionFullName f}\n" ++ (<- table fields (inner ++ outer))
  return s!"\nContract {s.name}\n" ++ (<- table fields own) ++ "\n" ++ .join functions

/-- What is said about a contract is repeated with each later one. -/
def dataDependency : Printer where
  name := "data-dependency"
  print x := do
    let parts <- x.contracts.mapM contractDependencies
    return { info := (List.range parts.length).map fun i => String.join (parts.take (i + 1)) }

def inPairs : List String -> List String
  | a :: b :: rest => quotedList [a, b] :: inPairs rest
  | [a] => [quotedList [a]]
  | [] => []

def pairLines (xs : List String) : String := if xs.isEmpty then "[]" else "\n".intercalate (inPairs (sort xs))

def functionFacts : List String :=
  let p := a.program
  let vars (vs : List VariableId) : List String := vs.map fun v => (p.var v).name
  let read := vars (a.stateRead f) ++ (a.builtinsRead f).map (p.valueText a.store)
  let opText := (OpStyle.plain p a.store false).text
  let outward := if (a.functionCode f).callsKnown then (a.nodeIds f).flatMap (a.outwardExprs f) else []
  [pairLines read, pairLines (vars (a.stateWritten f)),
    pairLines ((a.internalCalls f).map (opText ·.op)), pairLines (outward.map p.exprText),
    toString (a.flow f).cyclomaticComplexity]

def functionSummary : Printer where
  name := "function-summary"
  print x := do
    let parts <- x.contracts.mapM fun s => do
      let p := s.program
      let facts := ["Read", "Write", "Internal Calls", "External Calls", "Cyclomatic Complexity"]
      let functions <- s.functions.mapM fun f => do
        return [p.functionFullName f, <- visibilityOf p f, quotedList (sort (p.modifierNames f))] ++ functionFacts s.unit f
      let modifiers <- s.modifiers.mapM fun f => do
        return [p.functionFullName f, <- visibilityOf p f] ++ functionFacts s.unit f
      let names (xs : List String) : String := quotedList xs
      return s!"\nContract {s.name}" ++ "\nContract vars: " ++ names (s.vars.map fun v => (p.var v).name)
        ++ "\nInheritance:: " ++ names (s.declaration.inheritance.map fun c => (p.contract c).name)
        ++ "\n \n" ++ (<- table (["Function", "Visibility", "Modifiers"] ++ facts) functions)
        ++ "\n\n" ++ (<- table (["Modifiers", "Visibility"] ++ facts) modifiers) ++ "\n"
    return { info := parts }

structure Mark where
  code : String

namespace Mark

def bold : Mark := ⟨"\x1b[1m"⟩
def red : Mark := ⟨"\x1b[91m"⟩
def green : Mark := ⟨"\x1b[92m"⟩
def yellow : Mark := ⟨"\x1b[93m"⟩
def magenta : Mark := ⟨"\x1b[95m"⟩

def around (marks : List Mark) (text : String) : String := .join (marks.map (·.code)) ++ text ++ "\x1b[0m"

end Mark

/-- No interface, library or abstract contract, and not below the paths of dependencies and mocks. -/
def isCallable : Bool :=
  let c := s.declaration
  let path := c.source.file.absolute
  !c.isInterface && !c.isLibrary && !c.isAbstract.truthy && !contains path "lib/" &&
    !contains path "node_modules/" && !contains path.toLower "mock"

/-- Those that cannot be called from inside come first. -/
def changingEntries : Result (List FunctionId) := do
  let p := s.program
  let open_ <- s.functions.filterM (isOpen p)
  let changing := open_.filter fun f =>
    let g := p.function f
    let declarer := ((p.functionDeclarer? f).map p.contract).getD default
    g.kind != .constructor && !g.view && !g.pure && !declarer.isInterface && !declarer.isLibrary && !g.shadowed
  let inner (f : FunctionId) : Bool := (p.function f).visibility != some "external"
  return changing.mergeSort fun f g =>
    if inner f != inner g then inner g else decide (p.functionFullName f ≤ p.functionFullName g)

def entryRow : List String :=
  let p := s.program
  let modifiers := ", ".intercalate (p.modifierNames f ++ if (p.function f).payable then ["payable"] else [])
  let declarer := if p.isDeclaredBy s.contract f then "" else
    ((p.functionDeclarer? f).map fun c => (p.contract c).name).getD ""
  let full := p.functionFullName f
  let (name, rest) := (find? "(" full).elim (full, "") fun i => (take i full, drop i full)
  [Mark.around [.bold, .red] name ++ rest,
    if modifiers == "" then "" else Mark.around [.green] modifiers,
    if declarer == "" then "" else Mark.around [.magenta] declarer]

def entryPoints : Printer where
  name := "entry-points"
  print x := do
    let seats := (x.contracts.filter isCallable).mergeSort fun s t => decide (s.name ≤ t.name)
    let parts <- seats.mapM fun s => do
      let entries <- changingEntries s
      if entries.isEmpty then return none
      let place := s.program.sourceText s.declaration.source
      let shown <- table ["Function", "Modifiers", "Inherited From"] (entries.map (entryRow s))
      return some ("\nContract " ++ Mark.around [.bold, .yellow] s.name ++ s!" ({place})\n" ++ shown)
    return .ofText ("\n".intercalate (parts.filterMap id))

end

end Print

end ContractAudit
