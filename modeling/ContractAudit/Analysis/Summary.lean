import ContractAudit.Analysis.CallEffects

/-! # What functions read, write and call

What is known about the nodes of a function, also over the functions that it calls.
-/

namespace ContractAudit

open Ir Value

structure Placed where
  function : FunctionId
  node : NodeId
  instr : Instr

namespace Analysis

variable (a : Analysis) (p : Program) (f : FunctionId) (n : NodeId) (c : ContractId) (vs : List Value) (fs : List FunctionId)

def oneForEachName : List Value :=
  let named := (vs.map fun v => (a.program.valueText a.store v, v)).mergeSort fun x y => decide (x.1 ≤ y.1)
  (named.foldl (fun (seen : List (String × Value)) x =>
    match seen with
    | y :: _ => if x.1 == y.1 then seen else x :: seen
    | [] => [x]) []).reverse.map (·.2)

def overNodes {α : Type} (a : Analysis) (f : FunctionId) (g : NodeCode -> List α) : List α :=
  (a.nodeIds f).flatMap fun n => g (a.nodeCode f n)

def variablesRead : List Value := if (a.functionCode f).usageKnown then a.oneForEachName (a.overNodes f (·.read)) else []

def variablesWritten : List Value :=
  if (a.functionCode f).usageKnown then a.oneForEachName (distinct (a.overNodes f (·.written))) else []

def statesIn : List VariableId :=
  vs.filterMap fun
    | .target (.var v) => if a.program.isStateVariable v then some v else none
    | _ => none

def localsIn : List VariableId :=
  vs.filterMap fun
    | .target (.var v) => if a.program.isLocalVariable v then some v else none
    | _ => none

def stateRead : List VariableId := a.statesIn (a.variablesRead f)

def stateWritten : List VariableId := a.statesIn (a.variablesWritten f)

def builtinsRead : List Value := (a.variablesRead f).filter (·.isBuiltin)

def localVariables : List VariableId :=
  let x := p.function f
  x.vars.values.filter fun v => !x.returns.contains v && !x.parameters.contains v

def callsOf {α : Type} (a : Analysis) (f : FunctionId) (g : NodeCode -> List α) : List α :=
  if (a.functionCode f).callsKnown then a.overNodes f g else []

def internalCalls : List Instr := a.callsOf f (·.internalCalls)

def builtinCalls : List Instr := a.callsOf f (·.builtinCalls)

def outwardCalls : List OutwardCall := a.callsOf f (·.outwardCalls)

def libraryCalls : List Instr := a.callsOf f (·.libraryCalls)

def lowLevelCalls : List Instr := a.callsOf f (·.lowLevelCalls)

def placedCalls (g : NodeCode -> List Instr) : List Placed :=
  if (a.functionCode f).callsKnown then
    (a.nodeIds f).flatMap fun n => (g (a.nodeCode f n)).map fun i => { function := f, node := n, instr := i }
  else []

def callExprs : List Expr :=
  let node := (a.flow f).node n
  if node.surveyed then Expr.distinct ((node.expr.map Expr.calls).getD []) else []

def isOutwardExpr : Expr -> Bool
  | .call _ (.name ..) _ _ _ _ _ _ _ => false
  | _ => true

def outwardExprs : List Expr := (a.callExprs f n).filter isOutwardExpr

def directCallees : List FunctionId :=
  (a.functionCode f).callees ++ (a.program.function f).modifiers.filterMap fun m =>
    if let .func g := m.target then some g else none

/-- Functions from here on are empty. -/
def functionBound : Nat := max a.program.functionTable.size a.code.size

def callBound (next : FunctionId -> List FunctionId) : Nat := ((List.range a.functionBound).flatMap next).length + 2

def withCallees : List FunctionId := Search.reach a.directCallees (a.callBound a.directCallees) [f]

def overCallees {α : Type} (a : Analysis) (f : FunctionId) (g : FunctionId -> List α) : List α :=
  (a.withCallees f).flatMap g

def allStateRead : List VariableId := (a.overCallees f a.stateRead).eraseDups

def allStateWritten : List VariableId := (a.overCallees f a.stateWritten).eraseDups

def allBuiltinsRead : List Value := distinct (a.overCallees f a.builtinsRead)

def allInternalCalls : List Instr := a.overCallees f a.internalCalls

def allLibraryCalls : List Instr := a.overCallees f a.libraryCalls

def allOutwardCalls : List OutwardCall := a.overCallees f a.outwardCalls

def allBuiltinCalls : List Instr := a.overCallees f a.builtinCalls

def allLowLevelCalls : List Instr := a.overCallees f a.lowLevelCalls

def placedInstrs : List Placed :=
  (a.nodeIds f).flatMap fun n => (a.instrs f n).map fun i => { function := f, node := n, instr := i }

def allPlacedInstrs : List Placed := a.overCallees f a.placedInstrs

/-- A function, or those whose values are kept with its own since they were asked for. -/
def keptFor (widened : Table FunctionId (List FunctionId)) (f : FunctionId) : List FunctionId := (widened.find? f).getD [f]

/-- Notes that the values of a function were asked for together with those of all that it calls. From then on they are
kept together. -/
def widenOne (widened : Table FunctionId (List FunctionId)) (f : FunctionId) :
    Table FunctionId (List FunctionId) :=
  if widened.has f then widened
  else widened.insert f ((a.withCallees f).flatMap (keptFor widened)).eraseDups

def noteAsked (m : Memo) : Memo := { m with widened := fs.foldl a.widenOne m.widened }

def widen : Analysis := { a with memo := a.noteAsked fs a.memo }

/-- Once asked for, the operations of all that it calls are kept with its own. -/
def operationsOf : List Placed := (keptFor a.memo.widened f).flatMap a.placedInstrs

def entered? : Op -> Option FunctionId
  | .call { kind := .internal g _ _, .. } => g
  | _ => none

def enteredAt : List FunctionId := (a.instrs f n).filterMap (entered? ·.op)

def placedWithCallees : List Placed :=
  (a.instrs f n).map (fun i => { function := f, node := n, instr := i }) ++ (a.enteredAt f n).flatMap a.allPlacedInstrs

def requireNames : List String := ["require(bool)", "require(bool,string)", "require(bool,error)", "assert(bool)"]

def requires : Bool :=
  (a.nodeCode f n).internalCalls.any fun i =>
    match callee? i.op with
    | some (.builtinFunction name) => requireNames.contains name
    | some (.func g) => requireNames.contains (a.program.functionName g)
    | _ => false

variable (loops : Bool)

def branches (f : FunctionId) (n : NodeId) : Bool :=
  (a.flow f).kind n == .branch || (loops && (a.flow f).kind n == .loopBranch)

def isConditional (f : FunctionId) (n : NodeId) : Result Bool := do
  if a.branches loops f n || a.requires f n then return true
  let last : Option Op := (a.instrs f n).getLast?.map (·.op)
  match last with
  | some (.returns vs) =>
    vs.foldlM (fun (found : Bool) v => do
      if found then return true
      return (<- a.program.typing a.store v).elementary? == some .bool) false
  | _ => return false

def conditionalNodes (f : FunctionId) : Result (List NodeId) :=
  (a.nodeIds f).filterM (a.isConditional loops f)

def overConditionals {α : Type} (a : Analysis) (loops : Bool) (f : FunctionId)
    (g : FunctionId -> NodeId -> List α) : Result (List α) := do
  (a.withCallees f).flatMapM fun h => do return (<- a.conditionalNodes loops h).flatMap (g h)

def conditionalStateRead (f : FunctionId) : Result (List VariableId) := do
  return (<- a.overConditionals loops f fun h n => a.statesIn (a.nodeCode h n).read).eraseDups

def builtinsInBinary : List Value :=
  ((a.instrs f n).flatMap fun i => if let .binary .. := i.op then i.op.reads else []).filter (·.isBuiltin)

def conditionalBuiltinsRead (f : FunctionId) : Result (List Value) := do
  return distinct (<- a.overConditionals loops f a.builtinsInBinary)

def builtinsPassed : List Value :=
  distinct ((a.allPlacedInstrs f).flatMap fun i => match i.instr.op with
    | .call c => match c.kind with
      | .internal .. => c.reads.filter (·.isBuiltin)
      | _ => []
    | _ => [])

def sender : Value := .target (.member "msg.sender")

def messageValue : Value := .target (.member "msg.value")

def isProtected : Result Bool := do
  let x := a.program.function f
  if x.kind == .constructor then return true
  if x.modifiers.any fun m => a.program.targetText m.target == "onlyOwner" then return true
  let conditional <- a.conditionalBuiltinsRead false f
  return (conditional ++ a.builtinsPassed f).any (·.same sender)

/-- Constants do not count. -/
def returnedIn (code : NodeId -> List Instr) : List Value :=
  let returned := ((a.nodeIds f).filter fun n => (a.flow f).kind n == .returns).flatMap fun n =>
    (code n).flatMap fun i => if let .returns vs := i.op then vs else []
  distinct (returned.filter (!·.isConstant))

def returnValues : List Value := a.returnedIn f (a.instrs f)

def contractReach : List FunctionId :=
  ((a.program.functionsOf c ++ a.program.modifiersOf c).flatMap a.withCallees).eraseDups

def placedOutward : List (NodeId × OutwardCall) :=
  if (a.functionCode f).callsKnown then (a.nodeIds f).flatMap fun n => (a.nodeCode f n).outwardCalls.map fun c => (n, c)
  else []

def contractOutward : List (FunctionId × NodeId × OutwardCall) :=
  (a.contractReach c).flatMap fun f => (a.placedOutward f).map fun x => (f, x)

/-- Its own and inherited functions unless shadowed, what they call in the contract, and the constructors of its bases. -/
def contractCode : List FunctionId :=
  let p := a.program
  let own := (p.functionsOf c ++ p.modifiersOf c).filter fun f => !(p.function f).shadowed
  let called := own.flatMap fun f => (a.allInternalCalls f).filterMap (calledFunction? ·.op)
  let constructors := (p.contract c).inheritance.filterMap p.constructor?
  (called ++ own ++ constructors).eraseDups

def isUnchecked : Bool :=
  let count := (a.nodeIds f).foldl (fun k n =>
    if ((a.flow f).node n).checked then k
    else k + ((a.instrs f n).filter fun i => i.op matches .binary ..).length) 0
  3 ≤ count

def directCallers : List FunctionId := ((a.functionCode f).callers.map (·.function)).eraseDups

def allCallers : List FunctionId :=
  Search.reach a.directCallers (a.callBound a.directCallers + (a.directCallers f).length) (a.directCallers f)

def visibilityOf : Result String := expect (p.function f).visibility (.broken "")

def isOpen : Result Bool := do
  let v <- visibilityOf p f
  return v == "public" || v == "external"

def isGuarded (guard : String) : Bool := (p.function f).modifiers.any (p.targetText ·.target == guard)

/-- A function that cannot be called from outside is as guarded as those that call it. -/
def isReentrant : Result Bool := do
  let p := a.program
  let guard := if (p.function f).language == .vyper then "nonreentrant(lock)" else "nonReentrant"
  if isGuarded p f guard then return false
  if <- isOpen p f then return true
  let entries <- (a.allCallers f).filterM (isOpen p)
  return entries.isEmpty || entries.any (!isGuarded p · guard)

end Analysis

/-! ## Looking things up in a contract -/

namespace Seat

variable (s : Seat) (v : VariableId) (name : String)

/-- A function that is overridden is not found. -/
def functionByFullName? : Option FunctionId :=
  s.functions.find? fun f => s.program.functionFullName f == name && !(s.program.function f).shadowed

/-- A function that is overridden is not found. -/
def functionBySignature? (signature : String) : Option FunctionId :=
  s.functions.find? fun f => s.program.soliditySignature f == signature && !(s.program.function f).shadowed

def functionByCanonicalName? : Option FunctionId := s.functions.find? (s.program.functionCanonicalName · == name)

/-- A modifier that is overridden is not found. -/
def modifierByFullName? : Option FunctionId :=
  s.modifiers.find? fun m => s.program.functionFullName m == name && !(s.program.function m).shadowed

def modifierByCanonicalName? : Option FunctionId := s.modifiers.find? (s.program.functionCanonicalName · == name)

def variableByName? : Option VariableId := s.vars.find? fun v => (s.program.var v).name == name

def variableByCanonicalName? : Option VariableId := s.vars.find? (s.program.variableCanonicalName · == name)

def structByName? : Option StructId := s.declaration.structs.values.find? fun x => (s.program.struct x).name == name

def structByCanonicalName? : Option StructId :=
  s.declaration.structs.values.find? fun x => (s.program.struct x).canonicalName == name

def enumByName? : Option EnumId := s.declaration.enums.values.find? fun x => (s.program.enum x).name == name

def enumByCanonicalName? : Option EnumId :=
  s.declaration.enums.values.find? fun x => (s.program.enum x).canonicalName == name

def eventByFullName? : Option EventId := s.declaration.events.values.find? (s.program.eventFullName · == name)

def eventByCanonicalName? : Option EventId :=
  s.declaration.events.values.find? fun e => s.program.targetCanonicalName (.event e) == name

def readersOf : List FunctionId := s.functions.filter fun f => (s.unit.variablesRead f).any (·.same (.var v))

def writersOf : List FunctionId := s.functions.filter fun f => (s.unit.variablesWritten f).any (·.same (.var v))

end Seat

/-! ## Paths of calls

Chains of calls that start at a function which can be called from outside.
-/

namespace Analysis

variable (a : Analysis) (f : FunctionId)

def declaredCode : List FunctionId := a.program.allCode

def definitionsOf : List FunctionId :=
  let p := a.program
  (p.functionContract? f).elim [] fun c => f :: (p.contract c).inheritance.flatMap fun d =>
    (p.declaredCode d).filter (p.functionFullName · == p.functionFullName f)

def calledFunctions : List FunctionId :=
  (a.outwardCalls f).filterMap (calledFunction? ·.instr.op) ++
    (a.libraryCalls f).filterMap (calledFunction? ·.op) ++
    (a.internalCalls f).filterMap (calledFunction? ·.op)

/-- A function calls another, or a definition of it in a base contract. -/
def leadsTo (f g : FunctionId) : Bool := (a.calledFunctions f).any (a.definitionsOf g).contains

/-- No function occurs twice on a path, so `fuel` need not be more than the number of declared functions. -/
def pathsEndingWith (a : Analysis) : Nat -> List FunctionId -> List (List FunctionId)
  | 0, _ => []
  | _, [] => []
  | fuel + 1, f :: rest =>
    let callers := a.declaredCode.filter fun g => !(f :: rest).contains g && a.leadsTo g f
    callers.flatMap (fun g => a.pathsEndingWith fuel (g :: f :: rest)) ++
      if a.program.isPublic f && !rest.isEmpty then [f :: rest] else []

def pathsTo : List (List FunctionId) := a.pathsEndingWith (a.declaredCode.length + 2) [f]

def pathText (p : Program) (path : List FunctionId) : String := " -> ".intercalate (path.map p.functionCanonicalName)

end Analysis

def resolveFunction (units : List Analysis) (text : String) : Result (Analysis × FunctionId) := do
  let (contract, name) <- if let c :: f :: _ := Text.splitOn text "." then pure (c, f)
    else throw (.unresolved "Provided string descriptor must be of form 'ContractName.FunctionName'")
  match units.flatMap fun a =>
      (a.program.contracts.filter fun c => (a.program.contract c).name == contract).map fun c => (a, c) with
  | [(a, c)] =>
    match (a.program.functionsOf c).find? fun f =>
        a.program.functionName f == name || a.program.functionFullName f == name with
    | some f => return (a, f)
    | none => throw (.unresolved s!"Could not resolve target function: {contract}.{name}")
  | _ => throw (.unresolved s!"Could not resolve target contract: {contract}")

end ContractAudit
