import ContractAudit.Print.Basic
import ContractAudit.Program.Occurrence

/-! # Printed listings -/

namespace ContractAudit.Print

open Ir Text

variable (s : Seat) (a : Analysis) (os : List Occurrence) (p : Program) (f : FunctionId) (c : ContractId)

def contractNames (cs : List ContractId) : String := ", ".intercalate (cs.map fun c => (p.contract c).name)

def kinText (all direct : List ContractId) : String :=
  let others := all.filter fun c => !direct.contains c
  s!"\n+ {s.name}\n" ++ (if all.isEmpty then "" else " -> " ++ contractNames s.program direct ++ "\n") ++
    (if others.isEmpty then "" else ", [" ++ contractNames s.program others ++ "]\n")

def basesText : String := kinText s s.declaration.inheritance s.declaration.immediateInheritance

def derivedText : String :=
  let derived := s.program.derivedContracts s.contract
  kinText s derived (derived.filter fun c => (s.program.contract c).immediateInheritance.contains s.contract)

def inheritance : Printer where
  name := "inheritance"
  print x := return .ofText ("Inheritance\nChild_Contract -> Immediate_Base_Contracts [Not_Immediate_Base_Contracts]" ++
    .join (x.contracts.map basesText) ++
    "\n\nBase_Contract -> Immediate_Child_Contracts\n [Not_Immediate_Child_Contracts]\n" ++
    .join (x.contracts.map derivedText))

def isTestContract : Bool :=
  (s.program.stateByName? s.contract "IS_TEST").any fun v => match (s.program.var v).expr with
    | some (.literal _ value _ _) => value.render == "true"
    | _ => false

def cheatLines (vm : ContractId) (f : FunctionId) (n : NodeId) : Result (List String) := do
  let p := a.program
  let node := (a.flow f).node n
  let line (name : String) : String := s!"\t\t{name} - ({node.source.detailed p.lineMark})\n\t\t{p.nodeExprText node}\n\n"
  let found <- (a.placedWithCallees f n).mapM fun i => do
    let callee : Option (Option Target) := match i.instr.op with
      | .call { kind := .highLevel _ _ t, .. } | .call { kind := .library _ _ t, .. } => some t
      | _ => none
    match callee with
    | none => return none
    | some (some (.func g)) =>
      if p.functionContract? g == some vm && (<- Analysis.visibilityOf p g) == "external" then
        return some (line (p.functionName g))
      else return none
    | some (some (.var v)) =>
      if p.stateOwner? v == some vm && (p.var v).visibility == some "external" then return some (line (p.var v).name)
      else return none
    | some _ => throw (.lacks "NoneType" "contract")
  return found.filterMap id

def cheatText (vm : Option ContractId) (s : Seat) : Result String := do
  let p := s.program
  let functions <- (p.declaredFunctions s.contract).mapM fun f => do
    let lines <- (s.unit.nodeIds f).mapM fun n => vm.elim (.ok []) fun vm => cheatLines s.unit vm f n
    return if lines.flatten.isEmpty then "" else s!"\t{p.functionName f}\n" ++ .join lines.flatten
  let body := .join functions
  return if body == "" then "" else s!"{s.name} ({s.declaration.source.file.short})\n" ++ body

def cheatcodes : Printer where
  name := "cheatcode"
  print x := do
    let drivers := x.units.zipIdx.flatMap fun (a, i) =>
      (a.program.contracts.filter fun c => (a.program.contract c).name == "Vm").map fun c => (i, c)
    let some (unit, vm) := drivers.getLast? | return {}
    let parts <- x.units.zipIdx.flatMap (fun (a, i) => a.program.mostDerived.map fun c => (i, (⟨a, c⟩ : Seat))) |>.mapM
      fun (i, s) => if isTestContract s then cheatText (if i == unit then some vm else none) s else .ok ""
    return .ofText (.join parts)
  asks x a :=
    if x.units.any fun b => b.program.contracts.any fun c => (b.program.contract c).name == "Vm" then
      (a.program.mostDerived.filter fun c => isTestContract ⟨a, c⟩).flatMap fun c =>
        (a.program.declaredFunctions c).flatMap fun f => (a.nodeIds f).flatMap (a.enteredAt f)
    else []

def constructorsOf : Result (List (String × String)) := do
  let p := s.program
  let found := (s.contract :: s.declaration.inheritance).filterMap fun c => (p.declaredConstructor? c).map fun f => (c, f)
  found.mapM fun (c, f) => do
    let source := (p.function f).source
    return ((p.contract c).name, times source.startColumn " " ++ (<- p.textOf source))

def constructorText : Result String := do
  let found := (<- constructorsOf s).reverse
  if found.isEmpty then return ""
  let line := "########" ++ times s.name.length "#" ++ "########\n"
  return "\n" ++ line ++ s!"####### {s.name} #######\n" ++ line ++ "\n## Constructor Call Sequence\n"
    ++ .join (found.map fun (name, _) => s!"\t- {name}\n") ++ "\n## Constructor Definitions\n"
    ++ .join (found.map fun (name, text) => s!"\n### {name}\n\n{text}\n")

def constructorCalls : Printer where
  name := "constructor-calls"
  print x := do return .ofText (.join (<- x.mostDerived.mapM constructorText))

def summaryLine : Result String := do return s!"    - {p.functionFullName f} ({<- Analysis.visibilityOf p f})\n"

def summaryOf : Result String := do
  let p := s.program
  let marks := (if s.unit.isProxy s.contract then " (Upgradeable Proxy)" else "")
    ++ (if p.isUpgradeable s.contract then " (Upgradeable)" else "")
    ++ (if p.mostDerived.contains s.contract then " (Most derived contract)" else "")
  let shown := s.functions.filter fun f => !(p.function f).shadowed && !p.isInitial f
  let groups := shown.foldl (fun (t : Table String (List FunctionId)) f =>
    t.alter (((p.functionDeclarer? f).map fun c => (p.contract c).name).getD "") [] (· ++ [f])) []
  let parts <- groups.mapM fun (declarer, fs) => do
    let fs := fs.mergeSort fun f g => decide (p.functionFullName f ≤ p.functionFullName g)
    return s!"  - From {declarer}\n" ++ .join (<- fs.mapM (summaryLine p))
  return s!"\n+ Contract {s.name}{marks}\n" ++ .join parts

def contractSummary : Printer where
  name := "contract-summary"
  print x := do return .ofText (.join (<- x.contracts.mapM summaryOf))

def exprLine (n : NodeId) : String :=
  ((a.flow f).node n).expr.elim "" fun e => "\t\tExpression: " ++ a.program.exprText e ++ "\n"

def codeText : String :=
  .join ((a.nodeIds f).map fun n =>
    let expr := exprLine a f n
    let ops := .join ((a.instrs f n).map fun i => "\t\t\t" ++ a.opText f n i ++ "\n")
    if expr == "" && ops == "" then "" else expr ++ "\t\tIRs:\n" ++ ops)

def contractCode : String :=
  let p := a.program
  let functions := (p.functionsOf c).map fun f =>
    let mark := if (p.function f).shadowed then "" else "(*)"
    s!"\tFunction {p.functionCanonicalName f} {mark}\n" ++ codeText a f
  let modifiers := (p.modifiersOf c).map fun f => s!"\tModifier {p.functionCanonicalName f}\n" ++ codeText a f
  s!"Contract {(p.contract c).name}\n" ++ .join (functions ++ modifiers)

def operations : Printer where
  name := "slithir"
  print x := return .ofText (.join (x.units.map fun a =>
    let p := a.program
    .join (p.contracts.map (contractCode a)) ++ (if p.functions.isEmpty then "" else "Top level functions\n") ++
      .join (p.functions.map fun f => s!"\tFunction {p.functionCanonicalName f}\n" ++ codeText a f)))

/-- The nodes of a modifier are named. -/
def versionCode : String :=
  .join ((a.nodeIds f).map fun n =>
    let node := (a.flow f).node n
    let label := if (a.program.function f).isModifier then a.program.nodeText node ++ "\n" else ""
    let ops := (a.ssa f n).map fun i => "\t\t\t" ++ (OpStyle.numbered a.program a.store node.checked).text i.op ++ "\n"
    label ++ exprLine a f n ++ (if ops.isEmpty then "" else "\t\tIRs:\n" ++ .join ops))

def versionedOperations : Printer where
  name := "slithir-ssa"
  print x := return .ofText (.join (x.contracts.map fun s =>
    let p := s.program
    let functions := (p.functionsOf s.contract).map fun f => s!"\tFunction {p.functionCanonicalName f}\n" ++ versionCode s.unit f
    let modifiers := (p.modifiersOf s.contract).map fun f => s!"\tModifier {p.functionCanonicalName f}\n" ++ versionCode s.unit f
    s!"Contract {s.name}\n" ++ .join (functions ++ modifiers)))

def placesText (places : List Source) : String := quotedList (places.map (·.detailed p.lineMark))

def referenceLine (indent : String) (t : Target) : String :=
  indent ++ "- References: " ++ placesText p ((Entry.declared t).references p) ++ "\n"

def occurrenceLines (indent : String) (t : Target) : Result String := do
  let e := Entry.declared t
  let definition <- e.definition p
  let found <- Occurrence.implementationsAt os (e.source p).file definition.start
  let places := quotedList (sort (found.map (·.detailed p.lineMark)))
  return indent ++ s!"- Declaration: {definition.detailed p.lineMark}\n" ++ indent ++ s!"- Implementation(s): {places}\n"
    ++ referenceLine p indent t

/-- The declaration is given in words. -/
def memberLines (declaration : String) (t : Target) : String :=
  s!"\t\t- {p.targetText t}\n\t\t\t- Declaration: {declaration}\n" ++
    s!"\t\t\t- Implementation: {((Entry.declared t).source p).detailed p.lineMark}\n" ++ referenceLine p "\t\t\t" t

def contractPlaces : Result String := do
  let functions <- (p.declaredFunctions c).mapM fun f => do
    return s!"\t\t- {p.functionCanonicalName f}\n" ++ (<- occurrenceLines os p "\t\t\t" (.func f))
  let vars <- (p.stateVariables c).mapM fun v => do
    let definition <- (Entry.declared (.var v)).definition p
    return memberLines p (definition.detailed p.lineMark) (.var v)
  let structs <- (p.contract c).structs.values.mapM fun x => do
    return memberLines p (<- p.textOf (p.struct x).source) (.struct x)
  return s!"# {(p.contract c).name}\n" ++ (<- occurrenceLines os p "\t" (.contract c)) ++ "\n\t## Function\n"
    ++ String.join functions ++ "\n\t## State variables\n" ++ String.join vars ++ "\n\t## Structures\n"
    ++ String.join structs

def declarations : Printer where
  name := "declaration"
  print x := do
    let programs := x.units.map (·.program)
    let os := (<- Occurrence.ofPrograms programs).map (·.2)
    let parts <- programs.mapM fun p => do
      return "\n# Contracts\n" ++ String.join (<- p.contracts.mapM (contractPlaces os p))
    return .ofText (.join parts)

end ContractAudit.Print
