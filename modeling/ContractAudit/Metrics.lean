import ContractAudit.Analysis.Kinds

/-! # Measures of contracts

The code is also taken as a sequence of operators and operands, whose numbers measure its size and difficulty.
-/

namespace ContractAudit.Metrics

open Ir Number

/-! ## Measures of coupling

A contract is the more stable the more others depend on it.
-/

variable (a : Analysis) (p : Program)

def destinationName? (v : Value) : Result (Option String) := do
  match v with
  | .target (.contract c) => return some (a.program.contract c).name
  | v =>
    match a.program.typing a.store v with
    | .ok (.one (.contract c)) => return some (a.program.contract c).name
    | .ok (.one (.information (.contract c))) => return some (a.program.contract c).name
    | .ok (.one (.elementary t)) => return some t.name
    | .ok _ => return none
    | .error (.noProperty _) => return none
    | .error fault => throw fault

def outwardNames (f : FunctionId) : Result (List (String × String)) := do
  let calls := (a.nodeIds f).flatMap fun n => (a.ssa f n).filterMap fun i => match i.op with
    | .call { kind := .highLevel d name _, .. } | .call { kind := .library d name _, .. } => some (name.render, d)
    | _ => none
  let named <- calls.mapM fun (name, d) => do return (<- destinationName? a d).map fun on_ => (name, on_)
  return named.filterMap id

structure Coupling where
  dependents : Nat := 0
  dependencies : Nat := 0

namespace Coupling

def instability (x : Coupling) : Rat :=
  if x.dependencies + x.dependents == 0 then 0 else nearestDouble x.dependencies (x.dependencies + x.dependents)

def distance (abstractness : Rat) (x : Coupling) : Rat :=
  if x.dependencies + x.dependents == 0 then 0
  else
    let d := x.instability - abstractness
    nearestDouble d.num.natAbs d.den

def ofContracts (contracts : List (Analysis × ContractId)) : Result (Table String Coupling) := do
  let depends <- contracts.mapM fun (a, c) => do
    let calls <- (a.program.functionsOf c).mapM (outwardNames a)
    return ((a.program.contract c).name, (calls.flatten.map (·.2)).eraseDups)
  let depends := Table.ofList depends
  return depends.map fun (name, on_) =>
    (name, { dependencies := on_.length, dependents := (depends.filter (·.2.contains name)).length })

end Coupling

def abstractness (contracts : List (Analysis × ContractId)) : Rat :=
  nearestDouble (contracts.filter fun (a, c) => !(a.program.contract c).fullyImplemented.truthy).length contracts.length

/-! ## Measures of contracts -/

structure ContractMetrics where
  stored : Nat := 0
  constants : Nat := 0
  immutables : Nat := 0
  publicFunctions : Nat := 0
  externalFunctions : Nat := 0
  internalFunctions : Nat := 0
  privateFunctions : Nat := 0
  mutating : Nat := 0
  view : Nat := 0
  pure : Nat := 0
  /-- Callable from outside to change something, those that let everyone do it, and those without modifiers. -/
  openMutating : Nat := 0
  unprotected : Nat := 0
  unmodified : Nat := 0
  calls : Nat := 0
  response : Nat := 0
  children : Nat := 0
  depth : Nat := 0
  coupling : Nat := 0

def inheritanceDepth (p : Program) : Nat -> ContractId -> Nat
  | 0, _ => 0
  | fuel + 1, c => (p.contract c).inheritance.foldl (fun k d => max k (inheritanceDepth p fuel d + 1)) 0

def hasAuthorization (f : FunctionId) : Bool :=
  (p.function f).modifiers.any fun m =>
    let name := p.targetText m.target
    Text.contains name "auth" || Text.contains name "only_owner"

namespace ContractMetrics

def addFunction (a : Analysis) (m : ContractMetrics) (f : FunctionId) : Result ContractMetrics := do
  let p := a.program
  let x := p.function f
  let visibility <- Analysis.visibilityOf p f
  let one (b : Bool) : Nat := if b then 1 else 0
  let isView := !x.pure && x.view
  let isMutating := !x.pure && !isView
  let isOpen := visibility == "external" || visibility == "public"
  let isOpenMutating := visibility == "external" || (visibility == "public" && isMutating)
  let calls <- outwardNames a f
  return { m with
    publicFunctions := m.publicFunctions + one (visibility == "public")
    externalFunctions := m.externalFunctions + one (visibility == "external")
    internalFunctions := m.internalFunctions + one (visibility == "internal")
    privateFunctions := m.privateFunctions + one (visibility == "private")
    mutating := m.mutating + one isMutating, view := m.view + one isView, pure := m.pure + one x.pure
    openMutating := m.openMutating + one isOpenMutating
    unprotected := m.unprotected + one (isOpenMutating && !hasAuthorization p f)
    unmodified := m.unmodified + one (isOpenMutating && x.modifiers.isEmpty)
    calls := m.calls + calls.length
    response := m.response + one isOpen + (calls.map fun (name, on_) => name ++ on_).eraseDups.length }

def ofContract (all : List (Analysis × ContractId)) (couplings : Table String Coupling) (a : Analysis) (c : ContractId) :
    Result ContractMetrics := do
  let p := a.program
  let x := p.contract c
  let vars := (p.stateVariables c).map p.var
  let coupling := (couplings.find? x.name).getD {}
  let children := all.filter fun (b, d) =>
    (b.program.contract d).inheritance.any fun i => (b.program.contract i).name == x.name
  let start : ContractMetrics :=
    { stored := (vars.filter fun v => !v.isConstant && !v.isImmutable).length
      constants := (vars.filter (·.isConstant)).length
      immutables := (vars.filter fun v => !v.isConstant && v.isImmutable).length
      children := (children.map fun (b, d) => (b.program.contract d).name).eraseDups.length
      depth := inheritanceDepth p p.contractTable.size c, coupling := coupling.dependents + coupling.dependencies }
  ((p.functionsOf c).filter (p.functionName · != "constructor")).foldlM (addFunction a) start

def rows (m : ContractMetrics) : List (String × Nat) :=
  [("State variables", m.stored), ("Constants", m.constants), ("Immutables", m.immutables), ("Public", m.publicFunctions),
    ("External", m.externalFunctions), ("Internal", m.internalFunctions), ("Private", m.privateFunctions),
    ("Mutating", m.mutating), ("View", m.view), ("Pure", m.pure), ("External mutating", m.openMutating),
    ("No auth or onlyOwner", m.unprotected), ("No modifiers", m.unmodified), ("Ext calls", m.calls), ("RFC", m.response),
    ("NOC", m.children), ("DIT", m.depth), ("CBO", m.coupling)]

end ContractMetrics

/-! ## Measures of operators and operands -/

def operatorOf (op : Op) : Result String := do
  match op with
  | .assign .. => return "assignment"
  | .index .. => return "index"
  | .binary _ o _ _ => return s!"binary({o.sign})"
  | .delete .. => return "delete"
  | .member .. | .length .. | .unary .. | .condition _ | .conversion .. | .returns _ | .unpack .. | .initArray .. =>
    a.opShape op
  | .call { kind := .transfer .., .. } => return "transfer"
  | .call { kind := .send .., .. } => return "send"
  | .call c => a.callShape c
  | op => throw (.unhandled s!"encode_ir_for_halstead: {(OpStyle.plain a.program a.store false).text op}")

def hasResult : Op -> Bool
  | .call { kind := .event _, .. } | .call { kind := .transfer .., .. } => false
  | .condition _ | .returns _ | .nop => false
  | _ => true

/-- A result that is not kept counts. -/
def operandsOf (op : Op) : List Value :=
  let result := if hasResult op then [op.lvalue?.getD .absent] else []
  (op.reads ++ result).filter (!·.isTemporary)

structure Sequence where
  operators : List String := []
  operands : List Value := []

def Sequence.ofContract (c : ContractId) : Result Sequence := do
  let ops := (a.program.functionsOf c).flatMap fun f => (a.allInstrs f).map (·.op)
  return { operators := <- ops.mapM (operatorOf a), operands := ops.flatMap operandsOf }

def sameOperand : Value -> Value -> Bool
  | .type s, .type t => p.sameType s t
  | v, w => v.same w

def distinctOperands (vs : List Value) : Nat :=
  (vs.foldl (fun seen v => if seen.any (sameOperand p v) then seen else v :: seen) ([] : List Value)).length

structure Halstead where
  operators : Nat := 0
  operands : Nat := 0
  distinctOperators : Nat := 0
  distinctOperands : Nat := 0

namespace Halstead

variable (h : Halstead)

/-- Code with operators has to have operands. -/
def ofSequence (p : Program) (s : Sequence) : Result Halstead := do
  if s.operators.isEmpty then return {}
  if s.operands.isEmpty then throw (.badValue "n1 and n2 must be greater than 0")
  return { operators := s.operators.length, operands := s.operands.length
           distinctOperators := s.operators.eraseDups.length, distinctOperands := Metrics.distinctOperands p s.operands }

def isMeasured : Bool := h.operators != 0

def vocabulary : Nat := h.distinctOperators + h.distinctOperands

def length : Nat := h.operators + h.operands

def estimatedLength : Float :=
  if !h.isMeasured then 0
  else h.distinctOperators.toFloat * h.distinctOperators.toFloat.log2
    + h.distinctOperands.toFloat * h.distinctOperands.toFloat.log2

def volume : Float := if !h.isMeasured then 0 else h.length.toFloat * h.vocabulary.toFloat.log2

def difficulty : Float :=
  if !h.isMeasured then 0 else (h.distinctOperators.toFloat / 2) * (h.operands.toFloat / h.distinctOperands.toFloat)

def effort : Float := h.difficulty * h.volume

def time : Float := h.effort / 18

def estimatedBugs : Float := h.effort.pow (2.0 / 3.0) / 3000

def rows : List (String × String) :=
  let whole (x : Float) : String := fixed 0 (ofDouble x)
  [("Total Operators", toString h.operators), ("Unique Operators", toString h.distinctOperators),
    ("Total Operands", toString h.operands), ("Unique Operands", toString h.distinctOperands),
    ("Vocabulary", toString h.vocabulary), ("Program Length", toString h.length),
    ("Estimated Length", whole h.estimatedLength), ("Volume", whole h.volume), ("Difficulty", whole h.difficulty),
    ("Effort", whole h.effort), ("Time", whole h.time),
    ("Estimated Bugs", fixed 3 (ofDouble h.estimatedBugs))]

end Halstead

end ContractAudit.Metrics
