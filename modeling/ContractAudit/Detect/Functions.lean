import ContractAudit.Detect.Attributes

/-! # Defects of functions as a whole -/

namespace ContractAudit.Detect

open Ir Analysis Analyze Detector

section

variable (a : Analysis) (p : Program) (f : FunctionId) (c : ContractId) (g : Flow) (n : NodeId)

def edgesOf : Nat := g.order.foldl (fun k n => k + (g.sons n).length) 0

def complexity : Int := edgesOf g - g.order.length + 2

def cyclomaticComplexity : Detector :=
  .plain "cyclomatic-complexity" .informational .high "Cyclomatic complexity"
    "Reduce cyclomatic complexity by splitting the function into several smaller subroutines." <| .inUnit fun p a =>
    let found := (p.allDeclared ++ p.functions).map fun f => (f, complexity (a.flow f))
    return (found.filter (·.2 > 11)).map fun (f, n) => .of [.func f, s!" has a high cyclomatic complexity ({n}).\n"]

def usedNames : List String :=
  let p := a.program
  let entries := p.mostDerived.flatMap p.entryPoints
  let called := entries.flatMap fun f => (a.allInternalCalls f).filterMap (calledFunction? ·.op)
  (called.eraseDups.map p.functionCanonicalName).eraseDups

def mayBeDead : Result Bool := do
  let x := p.function f
  if <- isOpen p f then return false
  if x.kind == .constructor || x.kind == .fallback || p.isInitial f then return false
  let inLibrary := (p.functionDeclarer? f).any fun c => (p.contract c).isLibrary
  return !inLibrary && x.implemented == some true

def deadFunctions : Result (List FunctionId) := do
  let p := a.program
  let used := usedNames a
  let named := p.allFunctions.map fun f => (p.functionCanonicalName f, f)
  let dead <- (named.mergeSort fun x y => decide (x.1 ≤ y.1)).filterM fun (name, f) => do
    return (<- mayBeDead p f) && !used.contains name
  return dead.map (·.2)

def deadCode : Detector :=
  .plain "dead-code" .informational .medium "Dead-code"
    "Remove unused functions." <| .inUnit fun _ a => do
    return (<- deadFunctions a).map fun f => .of [.func f, " is never used and should be removed\n"]

def oldCompilers : List String := "0.5.0" :: series4

def unimplementedIn : List FunctionId :=
  let p := a.program
  if p.isSignatureOnly c then []
  else
    let missing := (a.contractCode c).filter fun f =>
      let x := p.function f
      x.implemented != some true && x.kind != .constructor && x.kind != .fallback && !p.isInitial f
    if oldCompilers.contains p.version then missing
    else
      let getters := (p.stateVariables c).map p.getterSignature
      missing.filter fun f => !getters.contains (p.functionFullName f)

def unimplementedFunctions : Detector :=
  .plain "unimplemented-functions" .informational .high "Unimplemented functions"
    ("Implement all unimplemented functions in any contract you intend to use directly (not simply inherit " ++
      "from).") <| .inUnit fun p a =>
    findEach p.mostDerived (.ok <| unimplementedIn a ·) fun c fs =>
      let sorted := fs.mergeSort fun f g => decide (p.functionFullName f ≤ p.functionFullName g)
      .of [.contract c, " does not implement functions:\n"] (Phrase.lines "\t- " (sorted.map fun f => .declared (.func f)))

def callsVariables : Bool :=
  (a.contractCode c).any fun f => (a.allInstrs f).any fun i => i.op matches .call { kind := .dynamic .., .. }

def firstDeclaration : FunctionId :=
  (p.functionContract? f).elim f fun c =>
    (((p.contract c).inheritance ++ [c]).flatMap p.declaredFunctions).find?
      (p.functionFullName · == p.functionFullName f) |>.getD f

def isReferenceType (v : VariableId) : Bool :=
  (p.var v).type matches some (.array _ _) | some (.struct _) | some (.elementary .bytes) | some (.elementary .string)

def copiedParameters : List VariableId :=
  (p.function f).parameters.filter fun v => isReferenceType p v && (p.var v).location == some "memory"

def declarationsOf (base : FunctionId) : List FunctionId :=
  let derived := (p.functionContract? base).elim [] p.derivedContracts
  base :: (derived.flatMap p.functionsOf).filter (p.functionFullName · == p.functionFullName base)

def functionsCalledIn : List FunctionId :=
  (a.contractCode c).flatMap fun f => (a.internalCalls f).filterMap (calledFunction? ·.op)

def externalFinding (copied : List VariableId) (declarations : List FunctionId) : List Finding :=
  let own := declarations.eraseDups.filter fun g =>
    (p.function g).visibility == some "public" && p.functionContract? g == p.functionDeclarer? g
  match own.mergeSort fun g h => decide (p.functionCanonicalName g ≤ p.functionCanonicalName h) with
  | [] => []
  | first :: rest =>
    let locations : List Phrase := if decide ("0.5." ≤ p.version) then
        .text "Moreover, the following function parameters should change its data location:\n" ::
          copied.map fun v => .text ((p.var v).name ++ " location should be calldata\n")
      else []
    let head := p.functionFullName first
    [.of [s!"{head} should be declared external:\n", "\t- ", .func first, "\n"] locations
      (Phrase.lines "\t- " (rest.map fun g => .declared (.func g)))]

/-- `done` are the functions that were looked at. -/
def couldBeExternal (dynamic : List ContractId) (done : List FunctionId) (f : FunctionId) :
    List Finding × List FunctionId :=
  let p := a.program
  let x := p.function f
  let copied := copiedParameters p f
  let written := a.variablesWritten f
  if copied.isEmpty || x.kind == .constructor || x.visibility != some "public" || done.contains f
      || x.parameters.any fun v => written.any (·.same (.var v)) then ([], done)
  else
    let base := firstDeclaration p f
    let sources := (p.functionContract? base).elim [] fun c => c :: p.derivedContracts c
    let declarations := declarationsOf p base
    let done := done ++ declarations
    let dynamicSources := sources.filter dynamic.contains
    if !dynamicSources.isEmpty then
      ([], done ++ (dynamicSources.flatMap p.functionsOf).filter fun g => (p.function g).kind != .constructor)
    else if sources.any fun c => (functionsCalledIn a c).any declarations.contains then ([], done)
    else (externalFinding p copied declarations, done)

def externalFunction : Detector :=
  .inVersions (series4 ++ series5 ++ series 6 0 8) <| .repairedBy .makeExternal <|
  .plain "external-function" .optimization .high "Public function that could be declared external"
    ("Use the `external` attribute for functions never called from the contract, and change the location " ++
      "of immutable parameters to `calldata` to save gas.") <| .inUnit fun p a =>
    let dynamic := p.contracts.filter (callsVariables a)
    let fs := (p.contracts.filter (!dynamic.contains ·)).flatMap p.declaredFunctions
    return (fs.foldl (fun (found, done) f =>
      let (new, done) := couldBeExternal a dynamic done f
      (found ++ new, done)) (([] : List Finding), ([] : List FunctionId))).1

/-! ## Changes that no event tells of -/

def emits : Bool := (a.allInstrs f).any fun i => i.op matches .call { kind := .event _, .. }

def isSilent : Result Bool := do
  if emits a f then return false
  if (a.program.function f).kind == .constructor then return false
  a.isProtected f

def statesWrittenAt : List VariableId := a.statesIn (a.nodeCode f n).written

def statesReadAt : List VariableId := a.statesIn (a.nodeCode f n).read

def silentChanges (reasons : Analysis -> ContractId -> FunctionId -> VariableId -> Result Nat) :
    Analyze (List Finding) := do
  let p := (<- get).program
  (p.mostDerived.flatMap fun c => (p.entryPoints c).map (c, ·)).flatMapM fun (c, f) => do
    let a <- get
    if !(<- lifted (isSilent a f)) then return []
    let nodes <- (a.nodeIds f).mapM fun n => do
      let counts <- (statesWrittenAt a f n).mapM fun v => do
        if <- isTainted (.var v) (.function f) then lifted (reasons a c f v) else return 0
      return counts.flatMap (.replicate · n)
    if nodes.flatten.isEmpty then return []
    return [.of [.func f, " should emit an event for: \n"]
      (nodes.flatten.flatMap fun n => [.text "\t- ", .node f n, .text " \n"])]

def modifiersReading (_ : ContractId) (f : FunctionId) (v : VariableId) : Result Nat :=
  let p := a.program
  match (p.var v).type, p.functionContract? f with
  | some (.elementary .address), some c => return ((p.modifiersOf c).filter fun m => (a.stateRead m).contains v).length
  | _, _ => return 0

def missingEventsAccess : Detector :=
  .plain "events-access" .low .medium "Missing events access control"
    "Emit an event for critical parameter changes." <| .asking (silentChanges modifiersReading)

def openReading (_ : FunctionId) (v : VariableId) : Result Nat := do
  match (a.program.var v).type with
  | some (.elementary t) =>
    if !t.isInteger then return 0
    let fs <- (a.program.declaredFunctions c).filterM fun g => return !(<- a.isProtected g)
    return if fs.any fun g => (a.nodeIds g).any fun n => (statesReadAt a g n).contains v then 1 else 0
  | _ => return 0

def missingEventsArithmetic : Detector :=
  .plain "events-maths" .low .medium "Missing events arithmetic"
    "Emit an event for critical parameter changes." <| .asking (silentChanges openReading)

end

/-! ## Inputs that are not checked or not told apart -/

section

variable (a : Analysis) (f : FunctionId) (v : VariableId) (n : NodeId)

def isValidatedBefore : Bool :=
  let g := a.flow f
  (Search.reach g.fathers (g.nodes.foldl (fun k m => k + m.fathers.length) 2) [n]).any fun m =>
    (a.branches true f m || a.requires f m) && (a.nodeCode f m).read.any (·.same (.var v))

def argumentPlace? : Option Nat :=
  match a.instrs f n with
  | [i] => match i.op with
    | .call c => c.arguments.findIdx? (·.same (.var v))
    | _ => none
  | _ => none

def isValidatedByModifier : Result Bool :=
  (a.program.function f).modifiers.anyM fun m => m.nodes.anyM fun n =>
    match argumentPlace? a f n v, m.target with
    | some i, .func g =>
      match (a.program.function g).parameters[i]?, (a.nodeIds g).getLast? with
      | some parameter, some last => return isValidatedBefore a g parameter last
      | _, _ => throw .outOfRange
    | _, _ => return false

def isAddress (p : Program) (v : VariableId) : Bool := (p.var v).type matches some (.elementary .address)

def usesAddress : Bool :=
  (a.statesIn (a.nodeCode f n).written).any (isAddress a.program) ||
    (a.instrs f n).any fun i => if let .call c := i.op then (c.kind matches .send .. | .transfer .. | .lowLevel ..) else false

def uncheckedAddresses : Analyze (Table VariableId (List NodeId)) := do
  let a <- get
  ((a.nodeIds f).filter (usesAddress a f)).foldlM (fun found n =>
    (a.localsIn (a.nodeCode f n).read).foldlM (fun found v => do
      if !isAddress a.program v then return found
      if !(<- isTainted (.var v) (.function f) false true) then return found
      if <- lifted (isValidatedByModifier a f v) then return found
      if isValidatedBefore a f v n then return found
      return found.alter v [] (· ++ [n])) found) []

def missingZeroCheck : Detector :=
  .plain "missing-zero-check" .low .medium "Missing zero address validation"
    "Check that the address is not zero." <| .asking do
    let p := (<- get).program
    (p.mostDerived.flatMap p.entryPoints).flatMapM fun f => do
      return (<- uncheckedAddresses f).map fun (v, nodes) =>
        Finding.of [.var v, " lacks a zero-check on ", ":\n"] (Phrase.lines "\t\t- " (nodes.map (.node f)))

def isDynamicValue (v : Value) : Result Bool := do
  return (<- a.program.typing a.store v) matches .one (.elementary .string) | .one (.elementary .bytes) | .one (.array _ none)

def ambiguousRuns (c : ContractId) : List Value -> Nat -> Analyze Nat
  | [], run => return if run > 1 then 1 else 0
  | v :: rest, run => do
    let counts <- if <- isTainted v (.contract c) then do lifted (isDynamicValue (<- get) v) else pure false
    if counts then ambiguousRuns c rest (run + 1)
    else return (<- ambiguousRuns c rest 0) + (if run > 1 then 1 else 0)

def encodePackedCollision : Detector :=
  .plain "encode-packed-collision" .high .high "ABI encodePacked Collision"
    ("Do not use more than one dynamic type in `abi.encodePacked()`\n(see the [Solidity " ++
      "documentation](https://solidity.readthedocs.io/en/v0.5.10/abi-spec.html?highlight=abi.encodePacked#non-standard-packed-modeDynamic)). " ++
      "\nUse `abi.encode()`, preferably.") <| .asking do
    let a <- get
    (a.program.contracts.flatMap fun c => (a.program.declaredCode c).map (c, ·)).flatMapM fun (c, f) => do
      let calls := (a.placedCalls f (·.builtinCalls)).filter fun x => builtinCallee? x.instr.op == some "abi.encodePacked()"
      let places <- calls.mapM fun x => do
        let runs <- if let .call call := x.instr.op then ambiguousRuns c call.arguments 0 else pure 0
        return .replicate runs x.node
      return places.flatten.map fun n =>
        .of [.func f, " calls abi.encodePacked() with multiple dynamic arguments:\n\t- ", .node f n, "\n"]

def isPlainConstant : Value -> Bool
  | .constant c => !Text.startsWith c.written "0x"
  | _ => false

def incorrectExponentiation : Detector :=
  .plain "incorrect-exp" .high .medium "Incorrect exponentiation"
    "Use the correct operator `**` for exponentiation." <| .inUnit fun p a =>
    let fs := p.mostDerived.flatMap fun c => p.functionsOf c ++ p.modifiersOf c
    let places := (fs.flatMap a.placedInstrs).filter fun x => match x.instr.op with
      | .binary _ .caret l r => isPlainConstant l || isPlainConstant r
      | _ => false
    return places.map fun x => .of [.func x.function,
      " has bitwise-xor operator ^ instead of the exponentiation operator **: \n", "\t - ",
      .node x.function x.node, "\n"]

def lowLevelCalls : Detector :=
  .plain "low-level-calls" .informational .high "Low-level calls"
    ("Avoid low-level calls. Check the call success. If the call is meant for a contract, check for code " ++
      "existence.") <| .inUnit fun p a =>
    findEach p.allDeclared (fun f => .ok ((a.placedCalls f (·.lowLevelCalls)).map (·.node))) fun f nodes =>
      .ofNodes ["Low level call in ", .func f, ":\n"] f nodes.mergeSort

def voidConstructor : Detector :=
  .plain "void-cst" .low .high "Void constructor"
    "Remove the constructor call." <| .inUnit fun p a =>
    return (p.contracts.filterMap p.constructor?).flatMap fun f =>
      let nodes := ((p.function f).baseCalls.flatMap (·.nodes)).filter fun n => (a.instrs f n).any fun i => i.op matches .nop
      nodes.map fun n => .of ["Void constructor called in ", .func f, ":\n", "\t- ", .node f n, "\n"]

end

end ContractAudit.Detect
