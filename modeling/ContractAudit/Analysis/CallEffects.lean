import ContractAudit.Analysis.Renaming

/-! # Versions across calls

What a function leaves in state variables reaches the starts of other functions and the places after calls.
-/

namespace ContractAudit

open Ir Value Table

/-- Nodes share their sets of versions, which live in cells: a set that grows at one node grows at all that share its cell. -/
structure LastVersions where
  cells : Array (List Nat) := #[]
  known : Table NodeId (Table String Nat) := []
  result : Table String (List Nat) := []

namespace LastVersions

variable (s : LastVersions)

def cell (i : Nat) : List Nat := s.cells.getD i []

def add (versions : List Nat) : LastVersions × Nat := ({ s with cells := s.cells.push versions }, s.cells.size)

def sameSets (a b : Table String Nat) : Bool :=
  a.length == b.length && a.all fun (k, i) =>
    (b.find? k).any fun j => (s.cell i).all (s.cell j).contains && (s.cell j).all (s.cell i).contains

def merge (known values : Table String Nat) : LastVersions × Table String Nat :=
  values.foldl (fun (s, known) (k, i) =>
    let (s, j, known) := match known.find? k with
      | some j => (s, j, known)
      | none =>
        let (s, j) := s.add []
        (s, j, known.insert k j)
    ({ s with cells := s.cells.modify j fun vs => addAllNew vs (s.cell i) }, known)) (s, known)

def finish (values : Table String Nat) : LastVersions :=
  { s with result := values.foldl (fun r (k, i) => r.alter k [] (fun vs => addAllNew vs (s.cell i))) s.result }

end LastVersions

namespace Analysis

variable (a : Analysis) (e : Effects) (f : FunctionId) (n : NodeId)

def willReturn : Bool :=
  ((a.flow f).sons n).isEmpty && (a.flow f).kind n != .throws &&
    (a.nodeCode f n).builtinCalls.all fun i =>
      (builtinCallee? i.op).all fun name => name != "revert()" && name != "revert(string)"

def stateVersionsWritten : List Nat :=
  (a.ssa f n).filterMap fun i =>
    match i.op.lvalue?.bind a.store.origin with
    | some (.version v) => if a.program.isStateVariable (a.store.version v).variable_ then some v else none
    | _ => none

/-- The entry counts for nothing. -/
def afterWrites (s : LastVersions) (values : Table String Nat) :
    LastVersions × Table String Nat :=
  if (a.flow f).kind n == .entryPoint then (s, values)
  else (a.stateVersionsWritten f n).foldl (fun (s, values) v =>
    let (s, i) := s.add [v]
    (s, values.insert (a.program.variableCanonicalName (a.store.version v).variable_) i)) (s, values)

def lastFrom (a : Analysis) (f : FunctionId) : Nat -> List (NodeId × Table String Nat) -> LastVersions -> LastVersions
  | 0, _, s => s
  | _, [], s => s
  | fuel + 1, (n, values) :: todo, s =>
    let (s, values) := a.afterWrites f n s values
    let proceed (s : LastVersions) (values : Table String Nat) : LastVersions :=
      let s := { s with known := s.known.insert n values }
      let s := if a.willReturn f n then s.finish values else s
      a.lastFrom f fuel (todo ++ ((a.flow f).sons n).map fun m => (m, values)) s
    match s.known.find? n with
    | some known =>
      if s.sameSets values known then a.lastFrom f fuel todo s
      else
        let (s, values) := s.merge known values
        proceed s values
    | none => proceed s values

/-- The versions of state variables when a function ends, by canonical name. -/
def lastVersions : Table String (List Nat) :=
  match (a.program.function f).implemented, (a.flow f).entry with
  | some true, some entry => (a.lastFrom f (4096 * ((a.flow f).nodes.size + 2)) [(entry, [])] {}).result
  | _, _ => []

/-- Constants do not count. -/
def passed (k : Nat) : Result (List Value) := do
  let items <- (a.functionCode f).callers.mapM fun c => c.call.arguments[k]?.elim (.error .outOfRange) fun v => .ok v.flat
  return items.flatten.filter (!·.isConstant)

structure Effects where
  last : Table String (List Nat) := []
  initial : Table String Nat := []

def entryValues (version : Nat) (values : List Value) :
    Result (List Value) := do
  let v := (a.store.version version).variable_
  if a.program.isStateVariable v then
    let name := a.program.variableCanonicalName v
    match e.initial.find? name, e.last.find? name with
    | some i, some last => return Value.distinct ((i :: last).map Value.version ++ values)
    | _, _ => throw (.missing name)
  else
    let some k := (a.program.function f).parameters.findIdx? (· == v) | return values
    return distinct ((<- a.passed f k) ++ values)

/-- The values that a state variable may have after a call. -/
def callValues (version : Nat) (values : List Value) (call : Call) :
    Result (List Value) :=
  let name := a.program.variableCanonicalName (a.store.version version).variable_
  match call.kind with
  | .internal (some g) _ _ =>
    match (a.lastVersions g).find? name with
    | some vs => .ok (vs.map .version)
    | none => .ok [.version version]
  | _ =>
    (e.last.find? name).elim (.error (.missing name)) fun last => .ok (Value.distinct (last.map Value.version ++ values))

def isIdle : Op -> Bool
  | .phi r values _ | .phiCallback r values _ _ =>
    match values with
    | [] => true
    | [v] => v.same r
    | _ => false
  | _ => false

def mergedOp (isEntry : Bool) (op : Op) : Result Op := do
  match op with
  | .phi (.version r) values nodes =>
    if isEntry then return .phi (.version r) (<- a.entryValues e f r values) nodes else return op
  | .phiCallback (.version r) values call unchanged =>
    return .phiCallback (.version r) (<- a.callValues e r values call) call unchanged
  | op => return op

end Analysis

namespace Analyze

def mergeNode (e : Analysis.Effects) (f : FunctionId) (n : NodeId) : Analyze Unit := do
  let a <- get
  let isEntry := (a.flow f).entry == some n
  let merged <- lifted ((a.ssa f n).mapM fun i => do return { i with op := <- a.mergedOp e f isEntry i.op })
  modify (·.modifyNode f n fun c => { c with ssa := merged.filter fun i => !Analysis.isIdle i.op })

def mergeContract (c : ContractId) : Analyze Unit := do
  let a <- get
  let p := a.program
  let initial := (a.initialVersions.find? c).getD []
  let names := initial.map fun i => (p.variableCanonicalName (a.store.version i).variable_, i)
  let start : Table String (List Nat) := ofList (names.map fun (name, _) => (name, []))
  let last <- lifted <| (codeOf p c).foldlM (fun last f =>
    (a.lastVersions f).foldlM (fun last (name, vs) =>
      (last.find? name).elim (.error (.missing name)) fun known => .ok (last.insert name (known ++ vs))) last) start
  for (f, n) in (codeOf p c).flatMap fun f => (a.nodeIds f).map fun n => (f, n) do
    mergeNode { last, initial := ofList names } f n

def findCallers : Analyze Unit := do
  let a <- get
  for f in a.program.allFunctions ++ a.program.allModifiers do
    for n in a.nodeIds f do
      for i in a.ssa f n do
        match i.op with
        | .call c => match c.kind with
          | .internal (some g) _ _ =>
            modify fun a => a.modifyCode g fun x => { x with callers := x.callers ++ [{ function := f, node := n, call := c }] }
          | .internal none _ _ => throw (.broken "")
          | _ => pure ()
        | _ => pure ()

end Analyze

namespace Analysis

def versionsReadBy (s : Store) (op : Op) : List Value :=
  let versions (vs : List Value) := vs.filter fun
    | .version _ => true
    | _ => false
  let roots (vs : List Value) := versions ((vs.filter (·.isReference)).map (rootOf s))
  match op with
  | .phi .. | .phiCallback .. | .member .. => []
  | .index _ _ v => versions [v] ++ roots [v]
  | op => versions op.reads ++ roots op.reads

/-- What may have changed in a call does not count. -/
def versionsWrittenBy (s : Store) (op : Op) : List Value :=
  match op with
  | .phiCallback .. | .index .. | .member .. | .length .. => []
  | op => if let some (.version i) := op.lvalue?.bind s.origin then [.version i] else []

def unversioned? (p : Program) (s : Store) : Value -> Option Value
  | .version i =>
    let x := s.version i
    match (p.var x.variable_).kind with
    | .state c => (p.stateByName? c (p.versionName x)).map .var
    | .inFunction (some f) _ => (p.localByName? f (p.versionName x)).map .var
    | _ => none
  | _ => none

def withVersions (a : Analysis) (c : NodeCode) : NodeCode :=
  let ops := c.ssa.map (·.op)
  let read := distinct (ops.flatMap (versionsReadBy a.store))
  let written := distinct (ops.flatMap (versionsWrittenBy a.store))
  let add (old new : List Value) : List Value :=
    (new.filterMap (unversioned? a.program a.store)).foldl (fun vs v => Value.addNew v vs) old
  { c with
    versionsRead := read, versionsWritten := written
    read := add c.read read, written := add c.written written }

end Analysis

def Analyze.noteVersions (f : FunctionId) : Analyze Unit := do
  let a <- get
  for n in a.nodeIds f do if ((a.flow f).node n).expr.isSome then modify fun a => a.modifyNode f n a.withVersions
  modify fun a => a.modifyCode f fun c => { c with usageKnown := true }

end ContractAudit
