import ContractAudit.Analysis.Kinds
import ContractAudit.Detect.Basic

/-! # Functions that let anyone do what only some should -/

namespace ContractAudit.Detect

open Ir Analysis Analyze Detector

section

variable (a : Analysis) (p : Program) (c : ContractId) (f : FunctionId)

inductive Sending where
  | harmless
  | nothing
  | to (destination value : Value)

def sending : Op -> Sending
  | .call c => match c.kind with
    | .builtin (.builtinFunction "ecrecover(bytes32,uint8,bytes32,bytes32)") => .harmless
    | .highLevel d _ callee | .library d _ callee =>
      match callee with
      | some (.func g) =>
        if p.functionFullName g == "transferFrom(address,address,uint256)" then .harmless else along d c.value
      | _ => along d c.value
    | .lowLevel d _ => along d c.value
    | .send d v | .transfer d v => .to d v
    | _ => .nothing
  | _ => .nothing
where
  along (d : Value) : Option Value -> Sending
    | some v => .to d v
    | none => .nothing

def isImmutable : Value -> Bool
  | .target (.var v) => p.isStateVariable v && (p.var v).isImmutable
  | _ => false

/-- `none` if the function is harmless. -/
def sendsArbitrary (op : Op) : Analyze (Option Bool) := do
  let a <- get
  let context := contextOf a.program f
  match op with
  | .index _ _ r => if <- lifted (a.isDependent r sender context) then return none else return some false
  | _ => match sending a.program op with
    | .harmless => return none
    | .nothing => return some false
    | .to d v =>
      if v.same messageValue || isImmutable a.program d then return some false
      if <- lifted (a.isDependent v messageValue context) then return some false
      if d.isVariable || d.isBuiltin then return some (<- isTainted d context) else return some false

def arbitrarySends : Analyze (List NodeId) := do
  let a <- get
  if <- lifted (a.isProtected f) then return []
  let mut found := []
  for x in a.placedInstrs f do
    match <- sendsArbitrary f x.instr.op with
    | none => return []
    | some true => found := found ++ [x.node]
    | some false => pure ()
  return found

def arbitrarySendEth : Detector :=
  .plain "arbitrary-send-eth" .high .medium "Functions that send Ether to arbitrary destinations"
    "Ensure that an arbitrary user cannot withdraw unauthorized funds." <| .asking do
    findEach (<- get).program.allDeclared arbitrarySends fun f nodes =>
      .ofNodes [.func f, " sends eth to arbitrary user\n", "\tDangerous calls:\n"] f nodes.mergeSort

def destroys : Bool :=
  (a.allInternalCalls f).any fun i => (callee? i.op).any fun t =>
      ["suicide(address)", "selfdestruct(address)"].contains (a.program.targetText t)

def isSuicidal : Result Bool := do
  if (a.program.function f).kind == .constructor then return false
  if !(<- isOpen a.program f) then return false
  if !destroys a f then return false
  return !(<- a.isProtected f)

def suicidal : Detector :=
  .plain "suicidal" .high .high "Suicidal"
    "Protect access to all sensitive functions." <| .inUnit fun p a => do
    let found <- p.allDeclared.filterM (isSuicidal a)
    return found.map fun f => .of [.func f, " allows anyone to destruct the contract\n"]

def codeNamed? (signature : String) : Option FunctionId :=
  (p.functionsOf c ++ p.modifiersOf c).find? (p.functionFullName · == signature)

def unprotectedWrites : List Finding :=
  let called := (a.allInternalCalls f).filterMap (calledFunction? ·.op)
  (a.allStateWritten f).flatMap fun v =>
    (((a.program.var v).writeProtection.getD []).filterMap (codeNamed? a.program c)).filterMap fun g =>
      if called.contains g then none
      else some (.of [.func f, " should have ", .func g, " to protect ", .var v, "\n"])

def protectedVariables : Detector :=
  .plain "protected-vars" .high .high "Protected Variables"
    "Add access controls to the vulnerable function" <| .inUnit fun p a =>
    return p.mostDerived.flatMap fun c => (p.entryPoints c).flatMap (unprotectedWrites a c)

def backdoor : Detector :=
  .plain "backdoor" .high .high "Backdoor example"
    ".." <| .inUnit fun p _ =>
    let found := (p.mostDerived.flatMap p.functionsOf).filter fun f => Text.contains (p.functionName f) "backdoor"
    return found.map fun f => .of ["Backdoor function found in ", .func f, "\n"]

/-- A run stops at a node. -/
def stopsAt (n : NodeId) : Bool :=
  (a.flow f).kind n == .throws || (a.nodeCode f n).internalCalls.any fun i => (callee? i.op).any fun t =>
      ["revert()", "revert(string"].contains (a.program.targetText t)

/-- The node after a node on the way on which all conditions fail. -/
def defaultSon (g : Flow) (seen : List NodeId) (n : NodeId) : Result (Option NodeId) :=
  let second := ((g.sons n)[1]?).elim (.error .outOfRange) fun m => .ok (some m)
  match g.kind n, g.sons n with
  | _, [] => .ok none
  | .branch, _ => second
  | .loopBranch, sons => match sons.find? fun m => g.kind m == .endLoop with
    | some m => .ok (some m)
    | none => .error .exhausted
  | _, first :: _ => if seen.contains first then second else .ok (some first)

/-- The way on which all conditions fail ends without the placeholder and without a stop. It is a fault if it does not end. -/
def fallsThrough : Nat -> List NodeId -> NodeId -> Result Bool
  | 0, _, _ => .error .depth
  | fuel + 1, seen, n => do
    let g := a.flow f
    if g.kind n == .placeholder || stopsAt a f n then return false
    let some m <- defaultSon g (n :: seen) n | return true
    fallsThrough fuel (n :: seen) m

def isPassable : Result Bool :=
  let g := a.flow f
  g.entry.elim (.ok true) fun n => fallsThrough a f ((g.nodes.size + 1) * (g.nodes.size + 1)) [] n

def incorrectModifier : Detector :=
  .plain "incorrect-modifier" .low .high "Incorrect modifier"
    "All the paths in a modifier must execute `_` or revert." <| .inUnit fun p a => do
    let found <- (p.contracts.flatMap p.declaredModifiers).filterM (isPassable a)
    return found.map fun f => .of ["Modifier ", .func f, " does not always execute _; or revert\n"]

end

/-! ## What others control -/

section

variable (a : Analysis) (c : ContractId) (p : Program) (f : FunctionId)

def anyTainted (vs : List Value) : Analyze Bool := (vs.filter (·.isVariable)).anyM fun v => isTainted v (.contract c)

/-- `lengths` are the lengths that were taken before. -/
def setsLength : List Op -> List Value -> Analyze (Bool × List Value)
  | [], lengths => return (false, lengths)
  | op :: rest, lengths => do
    match op with
    | .length r _ => setsLength rest (Value.addNew r lengths)
    | .assign r _ | .binary r _ _ _ =>
      if r.isReference && lengths.any (·.same r) then
        if <- anyTainted c op.reads then if !op.reads.any (·.same r) then return (true, lengths)
      setsLength rest lengths
    | _ => setsLength rest lengths

def controlledLengths : Analyze (List NodeId) := do
  let a <- get
  let nodes := (a.nodeIds f).filter fun n => (a.flow f).kind n == .expression
  let (found, _) <- nodes.foldlM (fun (found, lengths) n => do
    let (isSet, lengths) <- setsLength c ((a.instrs f n).map (·.op)) lengths
    return (if isSet then found ++ [n] else found, lengths)) (([] : List NodeId), ([] : List Value))
  return found

def controlledArrayLength : Detector :=
  .inVersions (series4 ++ series5) <|
  .plain "controlled-array-length" .high .medium "Array Length Assignment"
    ("Do not allow array lengths to be set directly set; instead, opt to add values as needed.\nOtherwise, " ++
      "thoroughly review the contract to ensure a user-controlled variable cannot reach an array length " ++
      "assignment.") <| .asking do
    let p := (<- get).program
    let found <- p.contracts.mapM fun c => do
      (p.declaredCode c).flatMapM fun f => do
        return (<- controlledLengths c f).map fun n =>
          .ofNodes [.contract c, " contract sets array length with a user-controlled value:\n"] f [n]
    return found.flatten

def controlledDelegates : Analyze (List NodeId) := do
  let a <- get
  let found <- (a.placedCalls f (·.lowLevelCalls)).filterM fun x => match x.instr.op with
    | .call { kind := .lowLevel d name, .. } =>
      if ["delegatecall", "callcode"].contains name.render then isTainted d (contextOf a.program f)
      else return false
    | _ => return false
  return found.map (·.node)

def controlledDelegatecall : Detector :=
  .plain "controlled-delegatecall" .high .medium "Controlled Delegatecall"
    "Avoid using `delegatecall`. Use only trusted destinations." <| .asking do
    let a <- get
    a.program.mostDerived.flatMapM fun c => do
      (a.program.functionsOf c).flatMapM fun f => do
        let isSafe <- if a.isProxy c then lifted (a.isProtected f) else pure false
        if isSafe then return []
        return (<- controlledDelegates f).map fun n =>
          .ofNodes [.func f, " uses delegatecall to a input-controlled function id\n"] f [n]

def isAnySize (type : String) : Bool := Text.contains type "[]" || type == "bytes" || type == "string"

def givesAnySize (c : Call) : Bool :=
  match c.kind with
  | .highLevel _ _ (some (.func g)) | .library _ _ (some (.func g)) => (p.returnTexts g).any isAnySize
  | _ => true

def destination? (c : Call) : Option Value :=
  match c.kind with
  | .highLevel d _ _ | .library d _ _ | .lowLevel d _ => some d
  | _ => none

def returnBombs : Analyze (List NodeId) := do
  let a <- get
  let calls := (a.placedOutward f).map (fun (n, x) => (n, x.instr.op))
    ++ (a.placedCalls f (·.lowLevelCalls)).map fun x => (x.node, x.instr.op)
  let found <- calls.filterM fun (_, op) => match op with
    | .call call => do
      if !(<- isTainted ((destination? call).getD .absent) (.contract c)) then return false
      return givesAnySize a.program call && call.gas.isSome
    | _ => return false
  return (found.map (·.1)).mergeSort

def returnBomb : Detector :=
  .plain "return-bomb" .low .medium "Return Bomb"
    "Avoid unlimited implicit decoding of returndata." <| .asking do
    let p := (<- get).program
    p.contracts.flatMapM fun c => findEach (p.declaredFunctions c) (returnBombs c) fun f nodes =>
      .of [.func f, " tries to limit the gas of an external call that controls implicit decoding\n"]
        (Phrase.lines "\t" (nodes.map (.node f)))

def destroyers : List FunctionId :=
  (a.program.entryPoints c).filter fun f =>
    ((a.allLowLevelCalls f).any fun i => match i.op with
      | .call { kind := .lowLevel _ name, .. } => ["delegatecall", "codecall"].contains name.render
      | _ => false) ||
    (a.allBuiltinCalls f).any fun i => (builtinCallee? i.op).any fun name =>
        ["suicide(address)", "selfdestruct(address)"].contains name

def hasModifier (names : List String) : Bool := (p.function f).modifiers.any fun m => names.contains (p.targetText m.target)

def preventsInitialization : Bool :=
  hasModifier a.program f ["initializer"] || (a.allInternalCalls f).any fun i =>
    (calledFunction? i.op).any (a.program.functionName · == "_disableInitializers")

def unprotectedUpgrade : Detector :=
  .plain "unprotected-upgrade" .high .high "Unprotected upgradeable contract"
    "Add a constructor to ensure `initialize` cannot be called on the logic contract." <| .inUnit fun p a =>
    return p.mostDerived.filterMap fun c =>
      let constructors := (p.functionsOf c).filter fun f => (p.function f).kind == .constructor
      let destroyers := destroyers a c
      let initializers := (p.functionsOf c).filter fun f =>
        hasModifier p f ["initializer", "reinitializer"] && !hasModifier p f ["onlyProxy"]
      let early := constructors.flatMap a.allStateWritten
      let late := (initializers.flatMap a.allStateWritten).filter (!early.contains ·)
      if !p.isUpgradeable c || constructors.any (preventsInitialization a) || destroyers.isEmpty || late.isEmpty then none
      else
        let head : List Phrase := [.contract c, " is an upgradeable contract that does not protect its initialize functions: "]
        some (.of (head ++ initializers.map .func) [". Anyone can delete the contract with: "] (destroyers.map .func))

end

end ContractAudit.Detect
