import ContractAudit.Analysis.Generate

/-! # Versions of variables

Each write of a variable makes a new version of it. A walk over the dominator tree keeps the versions at a place, and
versions from several nodes meet at the nodes of dominance frontiers.
-/

namespace ContractAudit

open Ir

/-! ## Variables that are used later

A search of the flow graph meets a node that reads the variable before one that writes it. Variables go by their names.
-/

variable (p : Program)

def Program.sameName (x y : VariableId) : Bool :=
  (p.var x).name == (p.var y).name &&
    match (p.var x).kind, (p.var y).kind with
    | .state c, .state d => c == d
    | .inFunction _ _, .inFunction _ _ => true
    | _, _ => false

def Program.isNamedIn (x : VariableId) (vs : List Value) : Bool :=
  vs.any fun
    | .target (.var y) => p.sameName x y
    | _ => false

/-- Searches from a worklist. `fuel` bounds the number of nodes. -/
def Analysis.usedFrom (a : Analysis) (f : FunctionId) (x : VariableId) : Nat -> List NodeId -> List NodeId -> Bool
  | 0, _, _ => false
  | _, [], _ => false
  | fuel + 1, n :: todo, seen =>
    let c := a.nodeCode f n
    if a.program.isNamedIn x c.read then true
    else if a.program.isNamedIn x c.written then false
    else
      let seen := n :: seen
      let sons := ((a.flow f).sons n).filter fun s => !seen.contains s
      a.usedFrom f x fuel (addAllNew todo sons) seen

def Analysis.usedLater (a : Analysis) (f : FunctionId) (n : NodeId) (x : VariableId) : Bool :=
  a.usedFrom f x ((a.flow f).nodes.size + 1) [n] []

/-! ## Where versions meet -/

structure Origin where
  variable_ : VariableId
  nodes : List NodeId := []

/-- Of local variables by name, and of state variables by canonical name. -/
structure Origins where
  locals : Array (Table String Origin) := #[]
  states : Array (Table String Origin) := #[]

structure Definitions where
  locals : Table String (VariableId × NodeId) := []
  states : Table String (VariableId × NodeId) := []

def Origins.addTo (origins : Table String Origin) (name : String) (v : VariableId) (n : NodeId) :
    Result (Table String Origin) :=
  let origin := (origins.find? name).getD { variable_ := v }
  if origin.variable_ != v then .error (.broken "")
  else .ok (origins.insert name { origin with nodes := addNew n origin.nodes })

namespace Analysis

variable (a : Analysis) (c : NodeCode) (f : FunctionId)

def localsWritten : List VariableId :=
  c.written.filterMap fun
    | .target (.var v) => if a.program.isLocalVariable v then some v else none
    | _ => none

def statesWritten : List VariableId :=
  c.written.filterMap fun
    | .target (.var v) => if a.program.isStateVariable v then some v else none
    | _ => none

def define (n : NodeId) (d : Definitions) : Definitions :=
  let p := a.program
  let c := a.nodeCode f n
  let locals := (a.localsWritten c).foldl (fun t v => t.insert (p.var v).name (v, n)) d.locals
  let states := (a.statesWritten c).foldl (fun t v => t.insert (p.variableCanonicalName v) (v, n)) d.states
  let locals := match ((a.flow f).node n).declared with
    | some v => if locals.has (p.var v).name then locals else locals.insert (p.var v).name (v, n)
    | none => locals
  { locals, states := states }

def addOrigins (d : Definitions) (o : Origins) (n : NodeId) : Result Origins := do
  let locals <- d.locals.foldlM (fun t (name, v, m) =>
    if name.isEmpty then throw (.broken "") else Origins.addTo t name v m) (o.locals.getD n [])
  let states <- d.states.foldlM (fun t (name, v, m) => Origins.addTo t name v m) (o.states.getD n [])
  return { locals := o.locals.setIfInBounds n locals, states := o.states.setIfInBounds n states }

def originsFrom (a : Analysis) (f : FunctionId) : Nat -> NodeId -> Definitions -> Origins -> Result Origins
  | 0, _, _, o => .ok o
  | fuel + 1, n, d, o => do
    let d := a.define f n d
    let below := (a.dominance f).successors (a.nodeIds f) n
    let frontier := (a.dominance f).frontierOf n
    let o <- if !frontier.isEmpty && below.length != 1 then frontier.foldlM (addOrigins d) o else pure o
    below.foldlM (fun o m => a.originsFrom f fuel m d o) o

/-- Parameters and named results are defined at the entry. -/
def origins (entry : NodeId) : Result Origins :=
  let p := a.program
  let size := (a.flow f).nodes.size
  let named := ((p.function f).parameters ++ (p.function f).returns).filter fun v => (p.var v).name != ""
  let start : Definitions := { locals := named.foldl (fun t v => t.insert (p.var v).name (v, entry)) [] }
  let none_ : Origins := { locals := .replicate size [], states := .replicate size [] }
  a.originsFrom f (size + 1) entry start none_

end Analysis

/-! ## Versions of variables -/

structure Naming where
  locals : Table String Nat := []
  states : Table String Nat := []
  allLocals : Table String Nat := []
  allStates : Table String Nat := []
  visited : List NodeId := []
  parts : List Nat := []

/-- A call of a variable keeps no options. -/
def Ir.Call.bare (c : Call) : Call :=
  match c.kind with
  | .dynamic .. => { c with value := none, gas := none, salt := none }
  | _ => c

/-- The operation without what is lost on conversion: the options of a call of a variable. -/
def Ir.Op.bare : Op -> Op
  | .call c => .call c.bare
  | op => op

/-- What the versions of a variable are kept under. -/
inductive Key where
  /-- The name of a local variable. -/
  | inner (name : String)
  /-- The full name of a state variable. -/
  | state (name : String)
  deriving DecidableEq

def Key.name : Key -> String
  | inner name | state name => name

namespace Naming

variable (s : Naming)

def current : Key -> Option Nat
  | .inner x => s.locals.find? x
  | .state x => s.states.find? x

/-- The latest version of all. -/
def latest : Key -> Option Nat
  | .inner x => s.allLocals.find? x
  | .state x => s.allStates.find? x

/-- A new version is that at the place and the latest. -/
def put (K : Key) (i : Nat) : Naming :=
  match K with
  | .inner x => { s with locals := s.locals.insert x i, allLocals := s.allLocals.insert x i }
  | .state x => { s with states := s.states.insert x i, allStates := s.allStates.insert x i }

end Naming

def Program.keyOf (x : Version) : Key :=
  if p.isLocalVariable x.variable_ then .inner (p.versionName x) else .state (p.variableCanonicalName x.variable_)

/-- The version of a variable after its latest one. -/
def Program.next (old latest : Version) : Version :=
  { variable_ := old.variable_, index := latest.index + 1, standIn := p.isLocalVariable old.variable_ && old.standIn }

namespace Analysis

variable (a : Analysis)

def key (i : Nat) : Key := a.program.keyOf (a.store.version i)

def addVersion (x : Version) : Analysis := { a with store := { a.store with versions := a.store.versions.push x } }

end Analysis

abbrev Rename := StateT Naming Analyze

namespace Rename

variable (f : FunctionId) (n : NodeId) (i : Nat) (v : VariableId) (a : Analysis) (op : Op) (first : Table String Nat)

def analysis : Rename Analysis := fun s => do return (<- get, s)

def modifyAnalysis (f : Analysis -> Analysis) : Rename Unit := fun s => do modify f; return ((), s)

def fail {α : Type} (fault : Fault) : Rename α := fun _ => throw fault

def lifted {α : Type} (x : Result α) : Rename α := fun s => do return (<- Analyze.lifted x, s)

def make (v : Version) : Rename Nat := do
  let i := (<- analysis).store.versions.size
  modifyAnalysis (·.addVersion v)
  return i

def version : Rename Version := return (<- analysis).store.version i

def modifyVersion (f : Version -> Version) : Rename Unit :=
  modifyAnalysis fun a => { a with store := { a.store with versions := a.store.versions.modify i f } }

def setPart (v : Option Value) : Rename Unit :=
  modifyAnalysis fun a =>
    { a with store := { a.store with versionParts := (Analysis.grown a.store.versionParts i none).setIfInBounds i v } }

def emit (i : Instr) : Rename Unit := modifyAnalysis fun a => a.modifyNode f n fun c => { c with ssa := c.ssa ++ [i] }

def replace (k : Nat) (op : Op) : Rename Unit :=
  modifyAnalysis fun a => a.modifyNode f n fun c => { c with ssa := c.ssa.modify k fun i => { i with op } }

def ofLocal : Rename Nat := do
  let name := ((<- analysis).program.var v).name
  match (<- get).current (.inner name) with
  | some i => return i
  | none =>
    let i <- make { variable_ := v }
    modify (·.put (.inner name) i)
    return i

/-- A state variable that the contract does not have is a fault. -/
def ofVariable : Rename Value := do
  let p := (<- analysis).program
  match (p.var v).kind with
  | .inFunction _ _ => return .version (<- ofLocal v)
  | .state _ =>
    match (<- get).current (.state (p.variableCanonicalName v)) with
    | some i => return .version i
    | none => fail (.broken "")
  | .topLevel _ => return .var v
  | _ => fail (.broken "")

def ofPart : Nat -> Value -> Rename Value
  | fuel + 1, .reference i => do
    if !(<- get).parts.contains i then
      match ((<- analysis).store.reference i).pointsTo with
      | some w => do
        let v <- ofPart fuel w
        setPart i (some v)
      | none => setPart i none
      modify fun s => { s with parts := i :: s.parts }
    return .versionReference i
  | _, .target (.var v) => ofVariable v
  | _, v => return v

def ofValue (v : Value) : Rename Value := do
  match v with
  | .reference i => ofPart (i + 2 + (<- analysis).store.references.size) v
  | .target (.var v) => ofVariable v
  | .target (.event _) | .target (.error _) | .target (.opcode _) | .file _ => fail (.broken "")
  | v => return v

mutual
def ofAny : Value -> Rename Value
  | .list items => do return .list (<- ofAll items)
  | v => ofValue v

def ofAll : List Value -> Rename (List Value)
  | [] => pure []
  | v :: vs => do
    let w <- ofAny v
    return w :: (<- ofAll vs)
end

def ofOp : Rename Op := op.bare.mapM ofAny

def renew : Rename Nat := do
  let a <- analysis
  let key := a.key i
  match (<- get).latest key with
  | none => fail (.missing key.name)
  | some latest =>
    let k <- make (a.program.next (a.store.version i) (a.store.version latest))
    modify (·.put key k)
    return k

def lastPart (s : Store) : Nat -> Nat -> Nat
  | 0, i => i
  | fuel + 1, i =>
    match s.versionParts.getD i none with
    | some (.versionReference j) => lastPart s fuel j
    | _ => i

def throughPart : Op -> Bool
  | .assign (.versionReference _) _ | .binary (.versionReference _) _ _ _ => true
  | _ => false

/-- An assignment to a part makes a new version of the variable the part belongs to. -/
def writeNew : Rename Op := do
  let store := (<- analysis).store
  let root := match op.lvalue? with
    | some v => if throughPart op then store.origin v else some v
    | none => none
  match root with
  | some (.version i) =>
    let k <- renew i
    if throughPart op then emit f n { op := .phi (.version k) [.version i] [n] }
    match op.lvalue? with
    | some (.versionReference r) =>
      setPart (lastPart store (store.references.size + 1) r) (some (.version k))
      return op
    | _ => return op.withLvalue (.version k)
  | _ => return op

def addReferred (v : Option Value) : Rename Unit :=
  match v with
  | some v =>
    match v with
    | .version _ | .temporary _ | .tuple _ | .constant _ =>
      modifyVersion i fun x => { x with refersTo := Value.addNew v x.refersTo }
    | _ => fail (.broken "")
  | none => fail (.broken "")

def noteReferred : Rename Unit := do
  let a <- analysis
  match op.lvalue? with
  | some (.version i) =>
    if a.program.isStorageVersion (a.store.version i) then
      match op with
      | .assign _ v =>
        if v.isReference then addReferred i (a.store.origin v)
        else if v.isConstant then pure ()
        else addReferred i (some v)
      | .binary .. => fail (.lacks "Binary" "rvalue")
      | _ => pure ()
  | _ => pure ()

def mayCallBack : Op -> Option Call
  | .call c => match c.kind with
    | .internal .. | .highLevel .. | .dynamic .. | .lowLevel .. => some c
    | _ => none
  | _ => none

def afterCall (call : Call) : Rename Unit := do
  for name in (<- get).allStates.keys do
    let a <- analysis
    match (<- get).latest (.state name) with
    | some i =>
      if a.usedLater f n (a.store.version i).variable_ then
        let k <- renew i
        emit f n { op := .phiCallback (.version k) [.version i] call (.version i) }
    | none => pure ()

def renewPhis : Rename Unit := do
  for (i, k) in ((<- analysis).ssa f n).zipIdx do
    let op <- writeNew f n i.op
    replace f n k op

def convert (i : Instr) : Rename Unit := do
  let op <- writeNew f n (<- ofOp i.op)
  emit f n { i with op }
  match mayCallBack i.op, op with
  | some _, .call c => afterCall f n c
  | _, _ => pure ()
  noteReferred op

def node : Rename Unit := do
  modify fun s => { s with visited := n :: s.visited, parts := [] }
  renewPhis f n
  for i in (<- analysis).instrs f n do convert f n i

def isWaiting (g : Flow) (visited : List NodeId) (n : NodeId) : Bool :=
  (g.kind n == .endIf || g.kind n == .endLoop) && (g.fathers n).any fun f => !visited.contains f

def inPlace (x : Rename Unit) : Rename Unit := do
  let s <- get
  x
  modify fun t => { t with locals := s.locals, states := s.states }

/-- From a node down the dominator tree, then to its frontier. `fuel` bounds the depth. -/
def walk (f : FunctionId) : Nat -> NodeId -> Rename Unit
  | 0, _ => pure ()
  | fuel + 1, n => do
    let visited := (<- get).visited
    let g := (<- analysis).flow f
    if visited.contains n || isWaiting g visited n then return
    node f n
    let d := (<- analysis).dominance f
    for m in d.successors g.order n do inPlace (walk f fuel m)
    for m in d.frontierOf n do inPlace (walk f fuel m)

def writtenName? : Option (Value × String) :=
  match op.lvalue? with
  | some v => match a.store.origin v with
    | some w => match a.program.valueName a.store w with
      | .ok name => some (w, name)
      | .error _ => none
    | none => none
  | none => none

def latest (s : Store) : List Value -> Option Value
  | [] => none
  | v :: vs => some (vs.foldl (fun best w => if index w > index best then w else best) v)
where
  index : Value -> Nat
    | .version i => (s.version i).index
    | .temporary i | .tuple i | .reference i | .versionReference i => i
    | _ => 0

def declaredVersion (name : String) (n : NodeId) : Rename (List Value) := do
  let a <- analysis
  match ((a.flow f).node n).declared with
  | some v => if (a.program.var v).name == name then return [.version (<- make { variable_ := v })] else return []
  | none => return []

def lastVersion (name : String) (n : NodeId) : Rename Value := do
  let a <- analysis
  let written := (a.ssa f n).filterMap fun i =>
    (writtenName? a i.op).bind fun (v, other) => if other == name then some v else none
  let declared <- declaredVersion f name n
  let entry := if (a.flow f).kind n == .entryPoint then ((first.find? name).map .version).toList else []
  match latest (<- analysis).store (written ++ declared ++ entry) with
  | some v => return v
  | none => fail (.broken "")

def referredBy (vs : List Value) : Result (List Value) := do
  let items <- vs.mapM fun
    | .version i =>
      let x := a.store.version i
      if a.program.isLocalVariable x.variable_ then .ok (if a.program.isStorageVersion x then x.refersTo else [])
      else .error (.lacks "StateIRVariable" "refers_to")
    | v => .error (a.program.lacks v "refers_to")
  return Value.distinct items.flatten

def fillPhi (n : NodeId) (k : Nat) (op : Op) : Rename Unit :=
  match op with
  | .phi (.version r) [] nodes => do
    let name := (<- analysis).program.versionName (<- version r)
    let values <- nodes.mapM (lastVersion f first name)
    replace f n k (.phi (.version r) values nodes)
  | _ => pure ()

def joinReferred (r : Nat) (values : List Value) : Rename Unit := do
  if a.program.isStorageVersion (a.store.version r) then
    let referred <- lifted (referredBy a values)
    modifyVersion r fun x => { x with refersTo := referred }

def writeReferred (v : Value) : Rename Unit := do
  let op <- writeNew f n (.phi v [.version i] [n])
  emit f n { op := op }

/-- A write through a part writes what the local variable that it belongs to refers to. -/
def writeThrough (r : Nat) : Rename Unit :=
  match a.store.origin (.versionReference r) with
  | some (.version i) =>
    let x := a.store.version i
    if a.program.isStorageVersion x then for v in x.refersTo do writeReferred f n i v
    else pure ()
  | _ => pure ()

def noteStorage (op : Option Op) : Rename Unit := do
  let a <- analysis
  match op with
  | some (.phi (.version r) values _) | some (.phiCallback (.version r) values _ _) => joinReferred a r values
  | some (.assign (.versionReference r) _) | some (.binary (.versionReference r) _ _ _) => writeThrough f n a r
  | _ => pure ()

/-- Sets the values of a phi, what it refers to, and what a write through a local variable in storage changes. -/
def completeAt (n : NodeId) (k : Nat) : Rename Unit := do
  match ((<- analysis).ssa f n)[k]? with
  | none => pure ()
  | some i =>
    fillPhi f first n k i.op
    noteStorage f n ((((<- analysis).ssa f n)[k]?).map (·.op))

/-- Operations that are added on the way are completed as well. `fuel` bounds their number. -/
def completeFrom (f : FunctionId) (first : Table String Nat) (n : NodeId) : Nat -> Nat -> Rename Unit
  | 0, _ => pure ()
  | fuel + 1, k => do
    if k < ((<- analysis).ssa f n).length then
      completeAt f first n k
      completeFrom f first n fuel (k + 1)

/-- Completes the operations below a node of the dominator tree. `fuel` bounds the depth. -/
def complete (f : FunctionId) (first : Table String Nat) : Nat -> NodeId -> Rename Unit
  | 0, _ => pure ()
  | fuel + 1, n => do
    let a <- analysis
    completeFrom f first n (2 * (a.ssa f n).length + a.store.versions.size + 2) 0
    for m in (a.dominance f).successors (a.nodeIds f) n do inPlace (complete f first fuel m)

/-- The first version of a parameter or a result. One in storage refers to a stand-in. -/
def firstVersion : Rename Nat := do
  let p := (<- analysis).program
  let name := (p.var v).name
  let i <- make { variable_ := v }
  if p.isStorageVersion { variable_ := v } then
    let j <- make { variable_ := v, standIn := true }
    modifyVersion i fun x => { x with refersTo := [.version j] }
    modify fun s => { s with locals := s.locals.insert ("STORAGE_" ++ name) j }
  modify fun s => { s with locals := s.locals.insert name i }
  return i

def nextIndex (name : String) : Rename Nat := do
  match (<- get).latest (.inner name) with
  | some i => return (<- version i).index + 1
  | none => return 0

def declareAll : Rename Unit := do
  let a <- analysis
  for n in a.nodeIds f do
    match ((a.flow f).node n).declared with
    | some v =>
      let name := (a.program.var v).name
      let i <- make { variable_ := v, index := <- nextIndex name }
      modify (·.put (.inner name) i)
    | none => pure ()

def placePhi (nodes : List NodeId) : Rename Unit := do
  let i <- make { variable_ := v }
  emit f n { op := .phi (.version i) [] nodes }

def placePhis (entry : NodeId) : Rename Unit := do
  let a <- analysis
  for v in (a.program.function f).parameters do if (a.program.var v).name != "" then placePhi f entry v []
  for i in (<- get).allStates.values do
    let v := (<- version i).variable_
    if a.usedLater f entry v then placePhi f entry v []
  let origins <- lifted (a.origins f entry)
  for n in a.nodeIds f do
    for (_, o) in origins.locals.getD n [] do
      if o.nodes.length ≥ 2 && a.usedLater f n o.variable_ then placePhi f n o.variable_ o.nodes
    for (_, o) in origins.states.getD n [] do if o.nodes.length ≥ 2 then placePhi f n o.variable_ o.nodes

def function (f : FunctionId) : Rename Unit := do
  let p := (<- analysis).program
  let states := (<- get).allStates
  match (p.function f).implemented, (p.function f).flow.entry with
  | some true, some entry =>
    placePhis f entry
    let named := fun (vs : List VariableId) => vs.filter fun v => (p.var v).name != ""
    let parameters <- (named (p.function f).parameters).mapM firstVersion
    let returns <- (named (p.function f).returns).mapM firstVersion
    modifyAnalysis fun a => a.modifyCode f fun c => { c with parameterVersions := parameters, returnVersions := returns }
    modify fun s => { s with allLocals := s.locals }
    declareAll f
    let first := (<- get).locals
    let depth := (p.function f).flow.nodes.size + 2
    modify fun s => { s with states }
    inPlace (walk f depth entry)
    complete f first depth entry
  | _, _ => pure ()

end Rename

namespace Analyze

def dominate (f : FunctionId) : Analyze Unit := do
  let d <- lifted ((<- get).flow f).dominance
  modify fun a => a.modifyCode f fun c => { c with dominance := d }

/-- From the latest versions of state variables. Gives the latest versions after it. -/
def versions (f : FunctionId) (states : Table String Nat) : Analyze (Table String Nat) := do
  let ((), s) <- (Rename.function f).run { states, allStates := states }
  return s.allStates

def initialVersion (v : VariableId) : Analyze Nat := do
  let i := (<- get).store.versions.size
  modify fun a => { a with store := { a.store with versions := a.store.versions.push { variable_ := v } } }
  return i

def stateVariables (p : Program) (c : ContractId) : List VariableId :=
  let declared (d : ContractId) := (p.contract d).vars.values.filter fun v => (p.var v).kind == .state d
  (p.contract c).inheritance.flatMap declared ++ declared c

def contractVersions (c : ContractId) : Analyze Unit := do
  let p <- program
  let initial <- (stateVariables p c).mapM fun v => do return (p.variableCanonicalName v, <- initialVersion v)
  modify fun a => { a with initialVersions := a.initialVersions.insert c (initial.map (·.2)) }
  let _ <- (codeOf p c).foldlM (fun states f => do
    dominate f
    if ((<- program).contract c).incomplete then return states else versions f states)
    (Table.ofList initial)

def topLevelVersions (f : FunctionId) : Analyze Unit := do
  dominate f
  let _ <- versions f []

end Analyze

end ContractAudit
