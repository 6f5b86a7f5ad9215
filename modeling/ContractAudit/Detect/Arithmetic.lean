import ContractAudit.Detect.Basic

/-! # Defects of integer arithmetic -/

namespace ContractAudit.Detect

open Ir Analysis

section

variable (a : Analysis) (v : Value) (ops : List BinaryOp) (f : FunctionId) (n : NodeId) (g : FunctionId)

def opsAt : List Op := (a.instrs f n).map (·.op)

def among (vs : List Value) : Bool := vs.any v.same

def parametersOf : List Value := (a.program.function f).parameters.map .var

def checkedValues : List Value := ((a.nodeIds f).filter (a.requires f)).flatMap fun n => (a.nodeCode f n).read

/-- A node that writes what is checked is safe. -/
def uncheckedOperands (operands written parameters checked : List Value) : List Value :=
  if written.any fun v => among v checked then []
  else (operands.map (rootOf a.store)).filter fun v => among v parameters && !among v checked

def exposedParameters : List Value :=
  let parameters := parametersOf a g
  let checked := checkedValues a g
  (a.nodeIds g).flatMap fun n => (opsAt a g n).flatMap fun
    | .binary _ op l r =>
      if ops.contains op then uncheckedOperands a [l, r] (a.nodeCode g n).written parameters checked else []
    | _ => []

def passesUnchecked (exposed : List Value) (g : FunctionId) (c : Call) (parameters checked : List Value) :
    Bool :=
  ((parametersOf a g).zip c.arguments).any fun (parameter, argument) =>
    among parameter exposed && among argument parameters && !among argument checked

def isUncheckedAt : Bool :=
  let parameters := parametersOf a f
  let checked := checkedValues a f
  (opsAt a f n).any fun op => match op with
    | .binary _ op l r =>
      ops.contains op && !(uncheckedOperands a [l, r] (a.nodeCode f n).written parameters checked).isEmpty
    | .call c => (innerCallee? op).any fun g => passesUnchecked a (exposedParameters a ops g) g c parameters checked
    | _ => false

def openFunctions : Result (List FunctionId) := (contractFunctions a.program).filterM (isOpen a.program)

def isCheckedByCompiler (p : Program) : Result Bool :=
  p.pragmaTable.toList.anyM fun x => if x.isVersion then Pragma.isSafe x.render "0.8.0" else return false

def unchecked (words : String) (a : Analysis) : Result (List Finding) := do
  if <- isCheckedByCompiler a.program then return []
  perFunction (<- openFunctions a) (fun f => .ok ((a.nodeIds f).filter (isUncheckedAt a ops f))) words

def integerUnderflow : Detector :=
  .plain "integer-underflow" .medium .medium "--"
    "--" <| .inUnit fun _ => unchecked [.subtraction] " may underflow in subtraction:- \n"

def integerOverflow : Detector :=
  .plain "integer-overflow" .medium .medium "--"
    "--" <| .inUnit fun _ => unchecked [.addition, .multiplication, .power]
    " may overflow in add, multiply and power operations:- \n"

/-- What is found at the nodes, with the values that were checked before. -/
def findChecked {α : Type} (find : NodeId -> List Value -> List α) : List NodeId -> List Value -> List α
  | [], _ => []
  | n :: rest, checked =>
    let checked := if a.requires f n then checked ++ (a.nodeCode f n).read else checked
    find n checked ++ findChecked find rest checked

def exposedDivisors : List Value :=
  let parameters := parametersOf a g
  findChecked a g (fun n checked => (opsAt a g n).filterMap fun
    | .binary _ .division _ r => if !among r checked && among r parameters then some r else none
    | _ => none) (a.nodeIds g) []

def isUnsafeDivision (checked : List Value) : Bool :=
  let parameters := parametersOf a f
  (opsAt a f n).any fun op => match op with
    | .binary _ .division _ r => match r with
      | .constant c => c.value.same (.text "0")
      | r => among r parameters && !among r checked
    | .call c => (innerCallee? op).any fun g => passesUnchecked a (exposedDivisors a g) g c parameters checked
    | _ => false

def unsafeDivisions : List NodeId :=
  findChecked a f (fun n checked => if isUnsafeDivision a f n checked then [n] else []) (a.nodeIds f) []

def divisionByZero : Detector :=
  .plain "div-by-zero" .medium .medium "--"
    "--" <| .inUnit fun _ a => do
    perFunction (<- openFunctions a) (fun f => .ok (unsafeDivisions a f))
      " possible division by zero due to unchecked denominator:- \n"

def multiplyingNames : List String :=
  ["mul", "trymul", "safemul", "wmul", "rmul", "mul_", "multiply", "mulchecked", "safemultiply"]

def multiplies (op : BinaryOp) : Bool := op == .multiplication || op == .power

def comesFromProduct : Result Bool :=
  (a.allInstrs g).anyM fun i => match i.op with
    | .binary r op _ _ => if multiplies op then a.isDependent v r (.function g) else return false
    | _ => return false

/-- What functions that are called at the node of a call return, if a value depends on it. -/
def returnedInto (callee : FunctionId) (context : Context) (ops : List Op) :
    Result (List Value) := do
  ops.flatMapM fun op => do
    match op with
    | .unpack r _ i =>
      if <- a.isDependent v r context then ((a.returnValues callee)[i]?).elim (throw .outOfRange) fun w => return [w]
      else return []
    | .call c => match innerCallee? op with
      | some g =>
        let result := c.result.getD .absent
        if result.isTuple then return []
        if <- a.isDependent v result context then return a.returnValues g else return []
      | none => return []
    | _ => return []

def dependsOnProduct (context : Context) (placed : List Placed) : Result Bool :=
  placed.anyM fun x => match x.instr.op with
    | .binary r op _ _ => if multiplies op then a.isDependent v r context else return false
    | .call _ => match innerCallee? x.instr.op with
      | some g => do
        let returned <- returnedInto a v g context (opsAt a x.function x.node)
        if !returned.isEmpty && multiplyingNames.contains (calledName a.program x.instr.op).toLower then return true
        returned.anyM (comesFromProduct a · g)
      | none => return false
    | _ => return false

def dependsOnTime : Result Bool := do
  let context := contextOf a.program f
  if <- a.isDependent v (.target (.builtin "now")) context then return true
  a.isDependent v (.target (.member "block.timestamp")) context

/-- Divisions after a product are not looked at. -/
def losesPrecision (earlier : List NodeId) : Result Bool :=
  go ((earlier ++ [n]).flatMap fun m => (a.instrs f m).map fun i => { function := f, node := m, instr := i })
    (a.instrs f n) []
where
  go (before : List Placed) : List Instr -> List Placed -> Result Bool
    | [], _ => return false
    | i :: rest, seen => do
      let seen := seen ++ [{ function := f, node := n, instr := i }]
      match i.op with
      | .binary _ op l _ =>
        if multiplies op then return false
        if op == .division then
          if <- dependsOnTime a l f then go before rest seen
          else if <- dependsOnProduct a l (.function f) (before ++ seen) then go before rest seen
          else return true
        else go before rest seen
      | _ => go before rest seen

def lossyDivisions : Result (List NodeId) := go [] (a.nodeIds f)
where
  go (earlier : List NodeId) : List NodeId -> Result (List NodeId)
    | [] => return []
    | n :: rest => do
      let text := a.program.nodeText ((a.flow f).node n)
      let found <- if a.requires f n || !Text.contains text " / " then pure false else losesPrecision a f n earlier
      let others <- go (earlier ++ [n]) rest
      return if found then n :: others else others

def integerDivision : Detector :=
  .plain "int-div" .medium .medium "--"
    "--" <| .inUnit fun p a =>
    let fs := (contractFunctions p).filter fun f =>
      p.functionName f != "slitherConstructorConstantVariables"
    perFunction fs (lossyDivisions a) " possible precision loss due to integer division:- \n"

def bits? : Elementary -> Option Nat
  | .uint b | .int b => some b
  | .bytesN n => some (n * 8)
  | _ => none

def conversionTypes (t : Ty) : Result (Option (Elementary × Elementary)) := do
  match (<- a.program.typing a.store v).elementary?, t with
  | some source, .elementary target => return some (source, target)
  | _, _ => return none

def truncates : Result Bool := do
  let text := (((a.flow f).node n).expr.map a.program.exprText).getD "None"
  if ["address(uint160(", "keccak256(", " >> "].any (Text.contains text) then return false
  (opsAt a f n).anyM fun op => match op with
    | .conversion _ v t => do
      if v.isConstant then return false
      if <- dependsOnTime a v f then return false
      match <- conversionTypes a v t with
      | some (source, target) => match bits? source, bits? target with
        | some m, some n => return n < m
        | _, _ => return false
      | none => return false
    | _ => return false

def truncation : Detector :=
  .plain "truncation" .medium .medium "--"
    "--" <| .inUnit fun p a => perFunction (contractFunctions p)
    (fun f => (a.nodeIds f).filterM (truncates a f)) " possible truncation in type conversion:- \n"

def isSigned? : Elementary -> Option Bool
  | .int _ => some true
  | .uint _ => some false
  | _ => none

def changesSign : Result Bool :=
  (opsAt a f n).anyM fun op => match op with
    | .conversion _ v (.elementary target) => match isSigned? target with
      | some signed => do match (<- a.program.typing a.store v).elementary? with
        | some source => return isSigned? source == some !signed
        | none => return false
      | none => return false
    | _ => return false

def signedness : Detector :=
  .plain "signedness" .medium .medium "--"
    "--" <| .inUnit fun p a => perFunction (contractFunctions p)
    (fun f => (a.nodeIds f).filterM (changesSign a f)) " possible signedness bug in type conversion:- \n"

end

/-! ## Comparisons -/

section

variable (a : Analysis) (f : FunctionId) (op : BinaryOp) (n : NodeId) (p : Program)

def isTruthConstant : Value -> Bool
  | .constant { value := .bool _, .. } => true
  | _ => false

def isEquality : Bool := op == .equal || op == .notEqual

def nodesWith (counts : Op -> Bool) : List NodeId := (a.nodeIds f).filter fun n => (a.instrs f n).any (counts ·.op)

def booleanEquality : Detector :=
  .plain "boolean-equal" .informational .high "Boolean equality"
    "Remove the equality to the boolean constant." <| .inUnit fun p a =>
    let compares : Op -> Bool
      | .binary _ op l r => isEquality op && (isTruthConstant l || isTruthConstant r)
      | _ => false
    return p.allCode.flatMap fun f => (nodesWith a f compares).map fun n =>
      .of [.func f, " compares to a boolean constant:\n\t-", .node f n, "\n"]

def isEndlessHead : Bool :=
  (a.flow f).kind n == .loopBranch && match a.instrs f n with
    | [{ op := .condition v, .. }] => match v with
      | .constant c => c.value.same (.bool true)
      | _ => false
    | _ => false

def misusesTruth : Op -> Bool
  | .assign .. | .call _ | .returns _ | .initArray .. => false
  | .binary _ op l r => op != .addition && !isEquality op && (isTruthConstant l || isTruthConstant r)
  | op => op.reads.any isTruthConstant

def booleanConstant : Detector :=
  .plain "boolean-cst" .medium .medium "Misuse of a Boolean constant"
    "Verify and simplify the condition." <| .inUnit fun p a =>
    return p.allDeclared.flatMap fun f =>
      ((nodesWith a f misusesTruth).filter (!isEndlessHead a f ·)).map fun n =>
        .of [.func f, " uses a Boolean constant improperly:\n\t-", .node f n, "\n"]

def isComparison : Bool := [.greater, .greaterEqual, .less, .lessEqual, .equal, .notEqual].contains op

def selfComparison : Detector :=
  .plain "tautological-compare" .medium .high "Tautological compare"
    "Remove comparison or compare to different value." <| .inUnit fun p a =>
    let compares : Op -> Bool
      | .binary _ op l r => isComparison op && l.same r
      | _ => false
    return (p.allFunctions ++ p.allModifiers).flatMap fun f => (nodesWith a f compares).map fun n =>
      .of [.func f, " compares a variable to itself:\n\t", .node f n, "\n"]

/-- The numbers from which and up to which a type of integers is taken to go. -/
def integerRange? : Elementary -> Option (Int × Int)
  | .uint bits => some (0, Int.pow 2 bits - 1)
  | .int bits =>
    let v := Int.pow 2 (bits - 1) - 1
    some (-v, v)
  | _ => none

/-- A comparison of the numbers of a range with a constant has one outcome. -/
def isDecided (low high c : Int) : BinaryOp -> Bool
  | .less => high < c || low ≥ c
  | .greater => low > c || high ≤ c
  | .lessEqual => high ≤ c || low > c
  | .greaterEqual => low ≥ c || high < c
  | _ => false

def flipped? : BinaryOp -> Option BinaryOp
  | .greater => some .less
  | .greaterEqual => some .lessEqual
  | .less => some .greater
  | .lessEqual => some .greaterEqual
  | _ => none

def comparedNumber : ConstantValue -> Result Int
  | .int i => .ok i
  | .bool b => .ok (if b then 1 else 0)
  | .text _ => .error (.badType s!"'{op.sign}' not supported between instances of 'int' and 'str'")

def isDecidedBy (v : Value) (op : BinaryOp) (c : Constant) : Result Bool := do
  let some (low, high) := (<- a.program.typing a.store v).elementary?.bind integerRange? | return false
  return isDecided low high (<- comparedNumber op c.value) op

def isTautology : Op -> Result Bool
  | .binary _ op l r => match flipped? op with
    | none => return false
    | some back => do
      let left <- if let .constant c := l then isDecidedBy a r back c else pure false
      let right <- if let .constant c := r then isDecidedBy a l op c else pure false
      return left || right
  | _ => return false

def typeTautology : Detector :=
  .plain "tautology" .medium .high "Tautology or contradiction"
    "Fix the incorrect comparison by changing the value type or the comparison." <| .inUnit fun p a => do
    p.allDeclared.flatMapM fun f => do
      let nodes <- (a.nodeIds f).filterM fun n => do
        let found <- (a.instrs f n).mapM (isTautology a ·.op)
        return found.any id
      return nodes.map fun n => .ofNodes [.func f, " contains a tautology or contradiction:\n"] f [n]

def blockValues : List Value := [.target (.builtin "now"), .target (.member "block.number"), .target (.member "block.timestamp")]

def isBalanceGetter (v : VariableId) : Bool :=
  let x := p.var v
  p.isStateVariable v && x.name == "balanceOf" && match x.type with
    | some (.mapping (.elementary k) (.elementary e)) => k == .address && e == .uint 256
    | _ => false

def changeableResult? (op : Op) : Option Value :=
  match op with
  | .call { kind := .builtin (.builtinFunction "balance(address)"), result := r, .. } => some (r.getD .absent)
  | .call { kind := .highLevel _ _ callee, result := r, .. } | .call { kind := .library _ _ callee, result := r, .. } =>
    let isBalance := match callee with
      | some (.func g) => p.functionFullName g == "balanceOf(address)"
      | some (.var v) => isBalanceGetter p v
      | _ => false
    if isBalance then some (r.getD .absent) else none
  | .assign r v => if blockValues.any v.same then some r else none
  | _ => none

def isAddressLike (t : ValueTyping) : Bool := t.isAddress || t.contract?.isSome

def strictEqualities (changeable : List Value) (f : FunctionId) (c : ContractId) :
    Result (List NodeId) :=
  (a.nodeIds f).filterM fun n => (a.ssa f n).anyM fun i => match i.op with
    | .binary r .equal x y => do
      if isAddressLike (<- a.program.typing a.store x) then
        if isAddressLike (<- a.program.typing a.store y) then return false
      [x, y, r].anyM fun v => changeable.anyM fun source => a.isDependentVersion v source (.contract c)
    | _ => return false

def strictEquality : Detector :=
  .plain "incorrect-equality" .medium .high "Dangerous strict equalities"
    "Don't use strict equality to determine if an account has enough Ether or tokens." <| .inUnit fun p a => do
    p.mostDerived.flatMapM fun c => do
      let fs := (a.contractCode c ++ p.modifiersOf c).eraseDups
      let changeable := fs.flatMap (fun f => (a.nodeIds f).flatMap fun n =>
        (a.ssa f n).filterMap (changeableResult? p ·.op)) ++ blockValues
      fs.flatMapM fun f => (p.functionContract? f).elim (return []) fun owner =>
        do return (<- strictEqualities a changeable f owner).map fun n =>
          Finding.ofNodes [.func f, " uses a dangerous strict equality:\n"] f [n]

/-! ## Use of the time and the hash of blocks -/

def blockTime : List Value := [.target (.member "block.timestamp"), .target (.builtin "now")]

def blockHashes : List Value :=
  (a.nodeIds f).flatMap fun n => (a.ssa f n).filterMap fun i =>
    if builtinCallee? i.op == some "blockhash(uint256)" then i.op.lvalue? else none

def isWeakRemainder (hashes : List Value) (f : FunctionId) (op : Op) : Result Bool :=
  match op with
  | .binary _ .modulo l _ =>
    if l.isVariable || l.isBuiltin then
      (blockTime ++ hashes).anyM fun source => a.isDependentVersion l source (contextOf a.program f)
    else return false
  | _ => return false

def weakRandomness : Detector :=
  .plain "weak-prng" .high .medium "Weak PRNG"
    "Do not use `block.timestamp`, `now` or `blockhash` as a source of randomness" <| .inUnit fun p a => do
    let found <- p.mostDerived.mapM fun c => do
      let hashes := (p.functionsOf c).flatMap (blockHashes a)
      (p.functionsOf c).mapM fun f => do
        let nodes <- (a.nodeIds f).filterM fun n => (a.ssa f n).anyM (isWeakRemainder a hashes f ·.op)
        return nodes.map fun n => .of [.func f, " uses a weak PRNG: \"", .node f n, "\" \n"]
    return found.flatten.flatten

def comparesTime : Result Bool := do
  let isTimed (v : Value) : Result Bool := blockTime.anyM fun source => a.isDependent v source (contextOf a.program f)
  let checked := if a.requires f n then (a.nodeCode f n).read else []
  let compared := (a.instrs f n).flatMap fun i => match i.op with
    | .binary _ op l r => if op.isTruth then [l, r].filter fun v => v.isVariable || v.isBuiltin else []
    | _ => []
  (checked ++ compared).anyM isTimed

def timestamp : Detector :=
  .plain "timestamp" .low .medium "Block timestamp"
    "Avoid relying on `block.timestamp`." <| .inUnit fun p a =>
    findEach p.allDeclared (fun f => (a.nodeIds f).filterM (comparesTime a f)) fun f nodes =>
      .ofNodes [.func f, " uses timestamp for comparisons\n", "\tDangerous comparisons:\n"] f nodes.mergeSort

end

end ContractAudit.Detect
