import ContractAudit.Analysis.Kinds
import ContractAudit.Detect.Basic

/-! # Variables -/

namespace ContractAudit.Detect

open Ir Analysis

section

variable (p : Program) (a : Analysis) (f : FunctionId)

def foldedFunctions : List String :=
  ["keccak256()", "keccak256(bytes)", "sha256()", "sha256(bytes)", "ripemd160()", "ripemd160(bytes)",
    "ecrecover(bytes32,uint8,bytes32,bytes32)", "addmod(uint256,uint256,uint256)", "mulmod(uint256,uint256,uint256)"]

def isFixed : Target -> Bool
  | .builtinFunction n => foldedFunctions.contains n
  | .var v => p.isStateVariable v && (p.var v).isConstant
  | _ => false

def hasFixedStart (v : VariableId) : Bool :=
  match (p.var v).expr with
  | none => true
  | some (.call _ (.newContract ..) _ _ _ _ _ _ _) => false
  | some e => e.targets.all (isFixed p)

def writtenBy (fs : List FunctionId) (counts : FunctionKind -> Bool) : List VariableId :=
  (fs.filter fun f => counts (a.program.function f).kind).flatMap a.stateWritten

inductive Steadiness where
  | constant | immutable
  deriving DecidableEq

def isPlainType : Option Ty -> Bool
  | some (.elementary _) | some (.contract _) => true
  | _ => false

def isDynamicType : Option Ty -> Bool
  | some (.elementary t) => t.isDynamic
  | _ => false

def knowsImmutable : Result Bool := do return !(<- Version.parse p.version).isBefore (.ofRelease [0, 6, 5])

/-- By the variables that are written later, in the constructor and where variables are declared. -/
def steadiness? (later inConstructor initially : List VariableId) (v : VariableId) :
    Result (Option Steadiness) := do
  if later.contains v then return none
  if hasFixedStart p v && !inConstructor.contains v then return some .constant
  if isDynamicType (p.var v).type then return none
  if !(<- knowsImmutable p) then return none
  return if inConstructor.contains v || initially.contains v then some .immutable else none

def steadyVariables : Result (List (VariableId × Steadiness)) := do
  let p := a.program
  let contracts := p.mostDerived.filter (!p.isSignatureOnly ·)
  let found <- contracts.mapM fun c => do
    let fs := a.contractCode c
    let later := writtenBy a fs fun k => k != .constructor && k != .constructorVariables
    let inConstructor := writtenBy a fs (· == .constructor)
    let initially := writtenBy a fs (· == .constructorVariables)
    let candidates := (p.storedVariables c).filter fun v => isPlainType (p.var v).type
    candidates.mapM fun v => do return (v, <- steadiness? p later inConstructor initially v)
  return found.flatten.filterMap fun (v, s) => s.map fun s => (v, s)

def steadyFindings (kind : Steadiness) (words : String) : Result (List Finding) := do
  let found := (<- steadyVariables a).filter (·.2 == kind)
  let named := Table.ofList (found.map fun (v, _) => (a.program.variableCanonicalName v, v))
  return (named.mergeSort fun x y => decide (x.1 ≤ y.1)).map fun (_, v) => .of [.var v, words]

def constableStates : Detector :=
  .repairedBy (.declareAs "constant") <|
  .plain "constable-states" .optimization .high "State variables that could be declared constant"
    "Add the `constant` attribute to state variables that never change." <|
    .inUnit fun _ a => steadyFindings a .constant " should be constant \n"

def immutableStates : Detector :=
  .repairedBy (.declareAs "immutable") <|
  .plain "immutable-states" .optimization .high "State variables that could be declared immutable"
    ("Add the `immutable` attribute to state variables that never change or are set only in the " ++
      "constructor.") <| .inUnit fun _ a => steadyFindings a .immutable " should be immutable \n"

def isUnsettled : Target -> Bool
  | .var v => p.isStateVariable v && !(p.var v).isConstant
  | .func f => !(p.function f).pure
  | _ => false

def functionInitState : Detector :=
  .plain "function-init-state" .informational .high "Function Initializing State"
    ("Remove any initialization of state variables via non-constant state variables or function calls. If " ++
      "variables must be set upon contract deployment, locate initialization in the constructor instead.") <|
    .inUnit fun p _ =>
    return (p.contracts.flatMap p.declaredVariables).filterMap fun v =>
      (p.var v).expr.bind fun e =>
        if e.targets.any (isUnsettled p) then
          some (.of [.var v, " is set pre-construction with a non-constant function or state variable:\n",
            "\t- " ++ p.exprText e ++ "\n"])
        else none

structure ScopeSearch where
  known : Table NodeId (List (List VariableId)) := []
  found : List (NodeId × VariableId) := []

def sameMembers (xs ys : List VariableId) : Bool := xs.all ys.contains && ys.all xs.contains

/-- A node is left alone if it is on the way already, or was looked at with the same declarations. -/
def searchScopes :
    Nat -> List NodeId -> List VariableId -> ScopeSearch -> NodeId -> ScopeSearch
  | 0, _, _, s, _ => s
  | fuel + 1, way, declared, s, n =>
    if way.contains n then s
    else
      let declared := ((a.flow f).node n).declared.elim declared fun v => addNew v declared
      let known := (s.known.find? n).getD []
      if !declared.isEmpty && known.any (sameMembers declared) then s
      else
        let code := a.nodeCode f n
        let used := (a.localsIn (code.read ++ code.written)).eraseDups
        let early := (used.filter (!declared.contains ·)).map fun v => (n, v)
        let s := { known := s.known.insert n (known ++ [declared]), found := addAllNew s.found early }
        ((a.flow f).sons n).foldl (searchScopes fuel (n :: way) declared) s

/-- The uses of variables in a function before they are declared, with their nodes. -/
def earlyUses : List (NodeId × VariableId) :=
  let x := a.program.function f
  match x.flow.order with
  | [] => []
  | n :: _ => (searchScopes a f (x.flow.nodes.size + 1) [] (x.parameters ++ x.returns) {} n).found

def variableScope : Detector :=
  .inVersions Detector.series4 <|
  .plain "variable-scope" .low .high "Pre-declaration usage of local variables"
    ("Move all variable declarations prior to any usage of the variable, and ensure that reaching a " ++
      "variable declaration does not depend on some conditional if it is used unconditionally.") <| .inUnit fun p a =>
    return p.allCode.flatMap fun f => (earlyUses a f).map fun (n, v) =>
      .of ["Variable '", .var v, "' in ", .func f, " potentially used before declaration: ", .node f n, "\n"]

def variablesInLengths (vs : List VariableId) : List VariableId :=
  vs.flatMap fun v => match (p.var v).type with
    | some (.array _ (some length)) => length.reads.filterMap fun
      | .var w => if p.isStateVariable w then some w else none
      | _ => none
    | _ => []

def unusedVariables (c : ContractId) : List VariableId :=
  let p := a.program
  let fs := a.contractCode c ++ p.modifiersOf c
  let used := fs.flatMap a.stateRead
    ++ (fs.filter fun f => (p.function f).kind != .constructorVariables).flatMap a.stateWritten
    ++ variablesInLengths p (fs.flatMap (fun f => (p.function f).vars.values) ++ p.stateVariables c)
  let isHidden (v : VariableId) : Bool :=
    if (p.contract c).isAbstract.truthy then (p.var v).visibility == some "private"
    else (p.var v).visibility != some "public"
  (p.stateVariables c).filter fun v => !used.contains v && isHidden v

def unusedState : Detector :=
  .repairedBy .removeVariables <|
  .plain "unused-state" .informational .high "Unused state variable"
    "Remove unused state variables." <| .inUnit fun p a =>
    let contracts := p.mostDerived.filter fun c => !p.isSignatureOnly c && !(p.contract c).isLibrary
    return contracts.flatMap fun c => (unusedVariables a c).map fun v =>
      .of [.var v, " is never used in ", .contract c, "\n"]

def isPublicCallee : Option Target -> Bool
  | some (.func f) => (p.function f).visibility == some "public"
  | some (.var v) => (p.var v).visibility == some "public"
  | _ => false

def selfReads : List NodeId :=
  ((a.placedOutward f).filterMap fun (n, c) => match c.instr.op with
    | .call { kind := .highLevel d _ callee, .. } | .call { kind := .library d _ callee, .. } =>
      if d.same .this && Call.isStatic a.program callee && isPublicCallee a.program callee then some n else none
    | _ => none).mergeSort

def varReadUsingThis : Detector :=
  .plain "var-read-using-this" .optimization .high "Public variable read in external context"
    "Read the variable directly from storage instead of calling the contract." <| .inUnit fun p a =>
    return (p.contracts.flatMap p.functionsOf).flatMap fun f => (selfReads a f).map fun n =>
      .of ["The function ", .func f, " reads ", .node f n, " with `this` which adds an extra STATICCALL.\n"]

end

/-! ## Variables that are not set -/

section

variable (a : Analysis) (c : ContractId) (p : Program) (f : FunctionId)

structure UnsetSearch where
  unset : Table Place (List VariableId) := []
  known : Table NodeId (List VariableId) := []
  found : List VariableId := []

def declaresCounter (g : Flow) (n : NodeId) : Bool :=
  g.kind n == .declaration && if let [m] := g.sons n then g.kind m == .startLoop else false

variable (countersAreSet : Bool) (s : UnsetSearch) (n : NodeId)

def unsetBefore : List VariableId := ((a.flow f).fathers n).flatMap fun m => (s.unset.find? (f, m)).getD []

def UnsetSearch.visit : UnsetSearch :=
  let g := a.flow f
  let before := unsetBefore a f s n
  let known := s.known.alter n [] (addAllNew · before)
  let before := if countersAreSet && declaresCounter g n then (g.node n).declared.elim before before.erase else before
  let unset := before ++ (s.unset.find? (f, n)).getD []
  let code := a.nodeCode f n
  let isIn (vs : List Value) (v : VariableId) : Bool := vs.any (·.same (.var v))
  let after := (unset.filter (!isIn code.written ·)).eraseDups
  { unset := s.unset.insert (f, n) after, known, found := addAllNew s.found (unset.filter (isIn code.read)) }

/-- A node is left alone if it is on the way already, or if nothing new is known about the ways to it. -/
def searchUnset : Nat -> List NodeId -> UnsetSearch -> NodeId -> UnsetSearch
  | 0, _, s, _ => s
  | fuel + 1, way, s, n =>
    if way.contains n || (s.known.find? n).any ((unsetBefore a f s n).all ·.contains) then s
    else ((a.flow f).sons n).foldl (searchUnset fuel (n :: way)) (s.visit a f countersAreSet n)

/-- Read though they may not be set, if some are not set at the start, and what is known about the nodes then. -/
def unsetReads (countersAreSet : Bool) (start : List VariableId)
    (before : Table Place (List VariableId)) :
    List VariableId × Table Place (List VariableId) :=
  (a.flow f).entry.elim ([], before) fun n =>
    let s := searchUnset a f countersAreSet ((a.flow f).nodes.size + 1) [] { unset := before.insert (f, n) start } n
    (s.found, s.unset)

def unsetLocals : List VariableId := (localVariables p f).filter fun v => !p.isStorageLocal v && !(p.var v).initialized

def unsetPointers : List VariableId :=
  ((p.function f).vars.values.filter fun v => !(p.function f).parameters.contains v).filter fun v =>
    p.isStorageLocal v && !(p.var v).initialized

def unsetFindings (fs : List FunctionId) (countersAreSet : Bool) (start : FunctionId -> List VariableId) (words : String)
    (before : Table Place (List VariableId)) : List Finding × Table Place (List VariableId) :=
  fs.foldl (fun (found, unset) f =>
    let (reads, unset) := unsetReads a f countersAreSet (start f) unset
    (found ++ reads.map fun v => .of [.var v, words], unset)) ([], before)

def uninitializedLocal : Detector :=
  .plain "uninitialized-local" .medium .medium "Uninitialized local variables"
    ("Initialize all the variables. If a variable is meant to be initialized to zero, explicitly set it to " ++
      "zero to improve code readability.") <| .asking do
    let a <- get
    let p := a.program
    let fs := p.allDeclared.filter fun f =>
      (p.function f).implemented == some true && !(p.function f).containsAssembly
    let (found, unset) := unsetFindings a fs true (unsetLocals p) " is a local variable never initialized\n" a.memo.unsetLocals
    set { a with memo := { a.memo with unsetLocals := unset } }
    return found

def uninitializedStorage : Detector :=
  .plain "uninitialized-storage" .high .high "Uninitialized storage variables"
    "Initialize all storage variables." <| .asking do
    let a <- get
    let p := a.program
    let fs := (p.contracts.flatMap p.functionsOf).filter fun f => (p.function f).implemented == some true
    let (found, unset) := unsetFindings a fs false (unsetPointers p) " is a storage variable never initialized\n" a.memo.unsetPointers
    set { a with memo := { a.memo with unsetPointers := unset } }
    return found

def storageArguments (op : Op) : Result (List Value) :=
  match op, innerCallee? op with
  | .call c, some g => do
    (a.program.function g).parameters.zipIdx.flatMapM fun (v, i) => do
      if (a.program.var v).location != some "storage" then return []
      c.arguments[i]?.elim (throw .outOfRange) fun x => return [if x.isReference then rootOf a.store x else x]
  | _, _ => return []

def writtenInContract : Result (List Value) := do
  let fs := a.contractCode c ++ a.program.modifiersOf c
  let found <- fs.mapM fun f => (a.nodeIds f).mapM fun n => do
    let passed <- (a.instrs f n).mapM (storageArguments a ·.op)
    return (a.statesIn (a.nodeCode f n).written).map .var ++ passed.flatten
  return found.flatten.flatten

def writtenInProxies : Result (List VariableId) := do
  let p := a.program
  if !p.isUpgradeable c then return []
  let written <- (p.contracts.filter a.isProxy).mapM (writtenInContract a)
  let names <- written.flatten.mapM (p.valueName a.store)
  return names.eraseDups.filterMap (p.stateByName? c)

def unsetStates : Result (List VariableId) := do
  let p := a.program
  let written <- writtenInContract a c
  let inProxies <- writtenInProxies a c
  let read := (a.contractCode c ++ p.modifiersOf c).flatMap a.stateRead
  return (p.stateVariables c).filter fun v =>
    !written.any (·.same (.var v)) && !inProxies.contains v && (p.var v).expr.isNone && read.contains v

def uninitializedState : Detector :=
  .plain "uninitialized-state" .high .high "Uninitialized state variables"
    ("\nInitialize all the variables. If a variable is meant to be initialized to zero, explicitly set it " ++
      "to zero to improve code readability.\n") <| .inUnit fun p a => do
    p.mostDerived.flatMapM fun c => do
      return (<- unsetStates a c).map fun v =>
        let readers := (p.functionsOf c).filter fun f => (a.stateRead f).contains v
        .of [.var v, " is never initialized. It is used in:\n"]
          (Phrase.lines "\t- " (readers.map fun f => .declared (.func f)))

end

end ContractAudit.Detect
