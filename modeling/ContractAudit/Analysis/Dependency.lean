import ContractAudit.Analysis.Summary

/-! # Data dependency

Dependencies are found for the versions in each function, closed under transitivity, and put together for each contract.
-/

namespace ContractAudit

open Ir

namespace Analysis

def itemOf (p : Program) : Value -> Result Item
  | .version i => .ok (.version i)
  | .versionReference i => .ok (.versionPart i)
  | .temporary i => .ok (.temporary i)
  | .tuple i => .ok (.tuple i)
  | .reference i => .ok (.part i)
  | .type t => .ok (.type (p.typeText t))
  | .target t => .ok (.target t)
  | _ => .error (.broken "")

def sources (a : Analysis) (op : Op) : List Value :=
  match op with
  | .index _ v _ => [v]
  | .call { kind := .internal (some g) _ _, .. } => a.returnedIn g (a.ssa g)
  | op => op.reads

end Analysis

namespace Dependencies

variable (m : Dependencies) (key : Item)

def add (items : List Item) : Dependencies := m.alter key [] (addAllNew · items)

def of : List Item := (m.find? key).getD []

def size : Nat := (m.flatMap (·.2)).length

/-- Sources of sources that a key does not have yet, other than the key itself. -/
def further (items : List Item) : List Item :=
  addAllNew [] (items.flatMap fun x => (m.of x).filter fun y => y != key && !items.contains y)

def round : Dependencies := m.map fun (key, items) => (key, items ++ m.further key items)

def rounds : Nat -> Dependencies -> Dependencies
  | 0, m => m
  | fuel + 1, m =>
    let next := m.round
    if next.size == m.size then m else rounds fuel next

/-- Each round but the last adds something, and a key has no more to add than all items. -/
def close : Dependencies := rounds (m.length * m.size) m

/-- What the contract has already stays as it is. -/
def absorb (m new : Dependencies) : Dependencies :=
  new.foldl (fun m (key, items) => if m.has key then m else m.insert key items) m

def withoutVersions (s : Store) (m : Dependencies) : Dependencies :=
  m.foldl (fun r (key, items) => r.add (plain key) (items.map plain)) []
where
  plain : Item -> Item
    | .version i => .target (.var (s.version i).variable_)
    | .versionPart i => .part i
    | x => x

end Dependencies

namespace Analysis

def addSources (a : Analysis) (isOpen : Bool) (m : DependencyMaps) (op : Op) : Result DependencyMaps := do
  let some v := op.lvalue? | return m
  match v with
  | .version i => if a.program.isStorageVersion (a.store.version i) then return m
  | _ => pure ()
  let items <- ((a.sources op).filter (!·.isConstant)).mapM (itemOf a.program)
  let whole := if v.isReference then (a.store.pointsTo v).toList else []
  let keys <- (whole ++ [v]).mapM (itemOf a.program)
  return keys.foldl (fun m key =>
    { m with
      versions := m.versions.add key items
      openVersions := if isOpen then m.openVersions.add key items else m.openVersions }) m

def checkItems (m : Dependencies) : Result Unit :=
  m.forM fun (key, items) => (key :: items).forM fun
    | .target (.event _) | .target (.error _) | .target (.opcode _) => .error (.broken "")
    | _ => .ok ()

def settleMaps (a : Analysis) (m : DependencyMaps) : DependencyMaps :=
  { m with plain := m.versions.withoutVersions a.store, openPlain := m.openVersions.withoutVersions a.store }

def dependenciesOf (a : Analysis) (f : FunctionId) : Result DependencyMaps := do
  let isOpen := !(<- a.isProtected f)
  let ops := (a.nodeIds f).flatMap fun n => (a.ssa f n).map (·.op)
  let m <- ops.foldlM (a.addSources isOpen) {}
  checkItems m.versions
  return a.settleMaps { m with versions := m.versions.close, openVersions := m.openVersions.close }

end Analysis

namespace Analyze

/-- The parameters of functions that can be called from outside are inputs. -/
def functionDependencies (m : DependencyMaps) (f : FunctionId) : Analyze DependencyMaps := do
  let a <- get
  let d <- lifted (a.dependenciesOf f)
  modify fun a => { a with functionDependencies := a.functionDependencies.insert f d }
  if <- lifted (Analysis.isOpen a.program f) then
    modify fun a => { a with
      inputs := addAllNew a.inputs ((a.program.function f).parameters.map fun v => .target (.var v))
      inputVersions := addAllNew a.inputVersions ((a.functionCode f).parameterVersions.map .version) }
  return { m with versions := m.versions.absorb d.versions, openVersions := m.openVersions.absorb d.openVersions }

def contractDependencies (c : ContractId) : Analyze Unit := do
  modify fun a => { a with contractDependencies := a.contractDependencies.insert c {} }
  let m <- (codeOf (<- program) c).foldlM functionDependencies {}
  let a <- get
  let m := a.settleMaps { m with versions := m.versions.close, openVersions := m.openVersions.close }
  modify fun a => { a with contractDependencies := a.contractDependencies.insert c m }

def dependencies : Analyze Unit := do for c in (<- program).contracts do contractDependencies c

end Analyze

inductive Context where
  | contract (c : ContractId)
  | function (f : FunctionId)

namespace Analysis

variable (a : Analysis) (p : Program) (v : Value) (context : Context)

def contextOf (f : FunctionId) : Context := (p.functionContract? f).elim (.function f) .contract

def maps : Context -> Result DependencyMaps
  | .contract c => found (a.contractDependencies.find? c)
  | .function f => found (a.functionDependencies.find? f)
where
  found : Option DependencyMaps -> Result DependencyMaps
    | some m => .ok m
    | none => .error (.missing "DATA_DEPENDENCY")

def dependenciesIn (onlyOpen : Bool) : Result Dependencies := do
  let m <- a.maps context
  return if onlyOpen then m.openPlain else m.plain

def item? : Option Item := (itemOf p v).toOption

def versionDependenciesIn (onlyOpen : Bool) : Result Dependencies := do
  let m <- a.maps context
  return if onlyOpen then m.openVersions else m.versions

def dependsBy (known : Result Dependencies) (v source : Value) : Result Bool := do
  if v.isConstant then return false
  if v.same source then return true
  let m <- known
  match item? a.program v, item? a.program source with
  | some key, some source => return (m.of key).contains source
  | _, _ => return false

def isDependent (v source : Value) (context : Context) (onlyOpen : Bool := false) : Result Bool :=
  a.dependsBy (a.dependenciesIn context onlyOpen) v source

def isDependentVersion (v source : Value) (context : Context) (onlyOpen : Bool := false) :
    Result Bool :=
  a.dependsBy (a.versionDependenciesIn context onlyOpen) v source

def genericTaint : List Item :=
  ["msg.sender", "msg.value", "msg.data", "tx.origin", "tx.gasprice"].map fun n => .target (.member n)

/-- Once the generic ones counted, they count ever after. -/
def taints (ignoreGeneric : Bool) : List Item × Analysis :=
  let a := if ignoreGeneric then a else { a with memo := { a.memo with genericTaint := true } }
  (if a.memo.genericTaint then addAllNew a.inputs genericTaint else a.inputs, a)

/-- Once the generic ones counted, they count ever after. -/
def versionTaints (ignoreGeneric : Bool) : List Item × Analysis :=
  let a := if ignoreGeneric then a else { a with memo := { a.memo with genericVersionTaint := true } }
  (if a.memo.genericVersionTaint then addAllNew a.inputVersions genericTaint else a.inputVersions, a)

def isTaintedBy (taints : List Item) (known : Result Dependencies) (v : Value) :
    Result Bool := do
  let some key := item? a.program v | return false
  if taints.contains key then return true
  if taints.isEmpty then return false
  let sources := (<- known).of key
  return taints.any sources.contains

/-- The question may change what counts as taint later, also when it fails. -/
def isTainted (onlyOpen : Bool := false) (ignoreGeneric : Bool := false) : Result Bool × Analysis :=
  if v.isConstant then (.ok false, a)
  else
    let (taints, a) := a.taints ignoreGeneric
    (a.isTaintedBy taints (a.dependenciesIn context onlyOpen) v, a)

def isTaintedVersion (onlyOpen : Bool := false) (ignoreGeneric : Bool := false) : Result Bool × Analysis :=
  if v.isConstant then (.ok false, a)
  else
    let (taints, a) := a.versionTaints ignoreGeneric
    (a.isTaintedBy taints (a.versionDependenciesIn context onlyOpen) v, a)

end Analysis

namespace Analyze

def isTainted (v : Value) (context : Context) (onlyOpen : Bool := false) (ignoreGeneric : Bool := false) :
    Analyze Bool := do
  let (b, a) := (<- get).isTainted v context onlyOpen ignoreGeneric
  set a
  lifted b

/-! ## Analysing a unit -/

structure Options where
  disallowPartial : Bool := false
  skipDependency : Bool := false

def unit (options : Options) : Analyze Unit := do
  for c in (<- program).contracts do
    generateContract options.disallowPartial c
    contractVersions c
  for f in (<- program).functions do
    generateTopLevel f
    topLevelVersions f
  findCallers
  for c in (<- program).contracts do
    mergeContract c
    for f in codeOf (<- program) c do noteVersions f
  if !options.skipDependency then dependencies
  if (<- program).language == .solidity then
    let layouts <- lifted (<- program).layouts
    modify fun a => { a with layouts }

end Analyze

end ContractAudit
