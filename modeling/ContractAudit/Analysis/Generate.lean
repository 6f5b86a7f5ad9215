import ContractAudit.Analysis.Basic
import ContractAudit.Ir.Settlement

/-! # What a node reads, writes and calls -/

namespace ContractAudit

open Ir Value

namespace Analysis

variable (a : Analysis) (f : FunctionId) (n : NodeId) (s : Store) (e : Option Expr) (v : Value)

def isNamed : Bool := !v.isIntermediate && !v.isConstant

def rootOf : Value := (s.origin v).getD .absent

/-- Of an access only the member or the index counts. -/
def readBy : Op -> List Value
  | .member _ v _ | .index _ _ v =>
    (if isNamed v then [v] else []) ++ (if v.isReference then [rootOf s v].filter isNamed else [])
  | .phi .. | .phiCallback .. => []
  | op => op.reads.filter isNamed ++ (op.reads.filter (·.isReference)).map (rootOf s)

/-- An access writes nothing. -/
def writtenBy : Op -> List Value
  | .index .. | .member .. | .length .. => []
  | op => op.lvalue?.elim [] fun l =>
    let v := if l.isReference then rootOf s l else l
    if v.isAbsent || !isNamed v then [] else [v]

def builtinCallee? : Op -> Option String
  | .call { kind := .builtin (.builtinFunction n), .. } => some n
  | _ => none

def storageWritten : Op -> List Value
  | .call { kind := .builtin (.builtinFunction "sstore(uint256,uint256)"), arguments := args, .. } =>
    match e with
    | some (.call _ _ (.name .. :: _) _ _ _ _ _ _) => args.take 1
    | _ => []
  | _ => []

/-- The first argument, if it is written as a name and the result is assigned. -/
def storageRead : Op -> List Value
  | .call { kind := .builtin (.builtinFunction "sload(uint256)"), arguments := args, .. } =>
    match e with
    | some (.assign _ _ _ (.call _ _ (.name .. :: _) _ _ _ _ _ _) _) => args.take 1
    | _ => []
  | _ => []

def madeOf (p : Program) : ValueTyping -> Result Value
  | .one (.contract c) => .ok (.target (.contract c))
  | .one (.struct s) => .ok (.target (.struct s))
  | .one (.enum e) => .ok (.target (.enum e))
  | .one (.elementary t) => .ok (.type (.elementary t))
  | .one (.array t _) | .one (.information t) => .ok (.type t)
  | .one (.valueType v) => .ok (.type (.elementary (p.valueType v).underlying))
  | .one t => .error (p.lacks (.type t) "type")
  | .unknown => .error (p.lacks .absent "type")
  | .several _ => .error (p.lacks (.list []) "type")
  | .function f => if let .unknown := p.resultTyping f then .ok .absent else .ok (.list [])

def outward (i : Instr) (d : Value) : Result OutwardCall := do
  let p := a.program
  if d.same .this then
    let c <- expect (p.functionContract? f) (.broken "")
    return ⟨.contract c, i⟩
  let owner := do madeOf p (<- p.typing a.store d)
  match owner with
  | .ok v => return ⟨v, i⟩
  | .error (.noProperty why) =>
    let node := (a.flow f).node n
    let text := match node.expr, node.declared with
      | some e, _ => " " ++ p.exprText e
      | none, some v => " " ++ (p.var v).name
      | none, none => ""
    throw (.analysis s!"Function not found on IR: {a.opText f n i}.\nNode: {node.kind.label}{text} ({p.sourceText node.source})\nFunction: {p.functionName f}\nPlease try compiling with a recent Solidity version. {why}")
  | .error e => throw e

def addUsage (c : NodeCode) (i : Instr) : Result NodeCode := do
  let e := ((a.flow f).node n).expr
  let c := { c with
    read := c.read ++ readBy a.store i.op ++ storageRead e i.op
    written := c.written ++ writtenBy a.store i.op ++ storageWritten e i.op }
  match i.op with
  | .call call =>
    match call.kind with
    | .internal .. => return { c with internalCalls := c.internalCalls ++ [i] }
    | .builtin _ => return { c with internalCalls := c.internalCalls ++ [i], builtinCalls := c.builtinCalls ++ [i] }
    | .lowLevel d _ =>
      if !(d.isVariable || d.isBuiltin) then throw (.broken "")
      return { c with lowLevelCalls := c.lowLevelCalls ++ [i] }
    | .highLevel d _ _ =>
      let call <- a.outward f n i d
      return { c with outwardCalls := c.outwardCalls ++ [call] }
    | .library d _ callee =>
      match callee with
      | some (.func _) =>
        return { c with outwardCalls := c.outwardCalls ++ [⟨d, i⟩], libraryCalls := c.libraryCalls ++ [i] }
      | _ => throw (.broken "")
    | _ => return c
  | _ => return c

def declaredAhead : List Value :=
  let node := (a.flow f).node n
  node.declared.elim [] fun v => if node.kind == .branch && (a.program.var v).expr.isSome then [.var v] else []

def usage (instrs : List Instr) : Result NodeCode := do
  let c <- instrs.foldlM (a.addUsage f n) { instrs, written := a.declaredAhead f n }
  return { c with read := distinct c.read, written := distinct c.written }

def callee? : Op -> Option Target
  | .call c => match c.kind with
    | .internal (some g) _ _ => some (.func g)
    | .builtin t => some t
    | .library _ _ g | .highLevel _ _ g => g
    | _ => none
  | _ => none

def calledFunction? (op : Op) : Option FunctionId := if let some (.func g) := callee? op then some g else none

def calleesOf (nodes : List NodeCode) : List FunctionId :=
  nodes.flatMap (fun c => c.internalCalls.filterMap fun i => calledFunction? i.op) ++
  nodes.flatMap fun c => c.libraryCalls.filterMap fun i => calledFunction? i.op

end Analysis

/-! ## Operations of a unit

Intermediate values are numbered contract by contract, over the whole unit.
-/

abbrev Analyze := EStateM Fault Analysis

namespace Analyze

def program : Analyze Program := return (<- get).program

def lifted {α : Type} (x : Result α) : Analyze α :=
  match x with
  | .ok a => pure a
  | .error f => throw f

def modifyProgram (f : Program -> Program) : Analyze Unit := modify fun a => { a with program := f a.program }

def lower {α : Type} (x : Lower α) : Analyze α := fun a =>
  match x.run { program := a.program, store := a.store } with
  | .ok r s => .ok r { a with program := s.program, store := s.store }
  | .error f s => .error f { a with program := s.program, store := s.store }

def generateNode (f : FunctionId) (n : NodeId) : Analyze Unit := do
  let p <- program
  let node := (p.function f).flow.node n
  let place : Lower.Place := { function := f, contract := p.functionContract? f }
  let instrs <- node.expr.elim (pure []) fun e => lower (.ofExpression place node.kind e)
  modify fun a => a.modifyNode f n fun c => { c with instrs }
  let a <- get
  let c <- lifted (a.usage f n instrs)
  modify fun a => a.modifyNode f n fun _ => c

def generateFunction (f : FunctionId) : Analyze Unit := do
  let p <- program
  for n in (p.function f).flow.order do generateNode f n
  modify fun a =>
    let callees := Analysis.calleesOf ((a.nodeIds f).map (a.nodeCode f))
    a.modifyCode f fun c => { c with usageKnown := true, callsKnown := true, callees }

/-- If something is missing, the contract is incomplete, or, in a Vyper unit, cannot be analysed. -/
def generateInContract (disallowPartial : Bool) (c : ContractId) (f : FunctionId) : Analyze Unit :=
  tryCatch (generateFunction f) fun fault => do
    match fault with
    | .noProperty why =>
      let p <- program
      if p.language == .vyper then throw fault
      let text := s!"Impossible to generate IR for {(p.contract c).name}.{p.functionName f} ({p.sourceText (p.function f).source}):\n {why}"
      if disallowPartial then throw (.parsing text)
      modifyProgram fun p => p.modifyContract c fun x => { x with incomplete := true }
    | fault => throw fault

/-- What is missing is passed over. -/
def generateTopLevel (f : FunctionId) : Analyze Unit :=
  tryCatch (generateFunction f) fun fault =>
    match fault with
    | .noProperty _ => pure ()
    | fault => throw fault

def codeOf (p : Program) (c : ContractId) : List FunctionId :=
  (p.contract c).functions.values ++ (p.contract c).modifiers.values

def generateContract (disallowPartial : Bool) (c : ContractId) : Analyze Unit := do
  modifyProgram (·.addInitialFunctions c)
  for f in codeOf (<- program) c do generateInContract disallowPartial c f

end Analyze

end ContractAudit
