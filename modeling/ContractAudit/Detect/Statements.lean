import ContractAudit.Detect.Basic

/-! # Statements that are better written another way -/

namespace ContractAudit.Detect

open Ir Analysis

section

variable (a : Analysis) (f : FunctionId) (n : NodeId)

def assemblyUse : Detector :=
  .plain "assembly" .informational .high "Assembly usage"
    "Do not use `evm` assembly." <| .inUnit fun p a =>
    perFunction p.allDeclared
      (fun f => .ok ((a.nodeIds f).filter fun n => (a.flow f).kind n == .assembly).mergeSort) " uses assembly\n"

def changesState : Bool :=
  !(a.statesIn (a.nodeCode f n).written).isEmpty || (a.enteredAt f n).any fun g => !(a.stateWritten g).isEmpty

def assertStateChange : Detector :=
  .plain "assert-state-change" .informational .high "Assert state change"
    "Use `require` for invariants modifying the state." <| .inUnit fun p a =>
    return p.allCode.flatMap fun f =>
      let asserts := (a.placedCalls f (·.internalCalls)).filter fun x =>
        builtinCallee? x.instr.op == some "assert(bool)" && changesState a f x.node
      asserts.map fun x => .of [.func f, " has an assert() call which possibly changes state.\n", "\t-",
        .node f x.node, "\n", "Consider using require() or change the invariant to not modify the state.\n"]

structure Retired where
  old : String
  new : String

def retiredNames (e : Expr) : List Retired :=
  let known : List (Target × Retired) :=
    [(.member "block.blockhash", ⟨"block.blockhash()", "blockhash()"⟩), (.member "msg.gas", ⟨"msg.gas", "gasleft()"⟩),
      (.builtinFunction "suicide(address)", ⟨"suicide()", "selfdestruct()"⟩),
      (.builtinFunction "sha3()", ⟨"sha3()", "keccak256()"⟩)]
  (known.filter (e.targets.contains ·.1)).map (·.2)

def retiredInNode : List Retired :=
  let node := (a.flow f).node n
  (node.expr.map retiredNames).getD []
    ++ (if node.kind == .throws then [⟨"throw", "revert()"⟩] else [])
    ++ (a.instrs f n).filterMap fun i => match i.op with
      | .call { kind := .lowLevel _ name, .. } =>
        if name.render == "callcode" then some ⟨"callcode", "delegatecall"⟩ else none
      | _ => none

def deprecatedStandards : Detector :=
  .forSolidity <|
  .plain "deprecated-standards" .informational .high "Deprecated standards"
    "Replace all uses of deprecated symbols." <| .inUnit fun p a =>
    let uses (c : ContractId) : List (Subject × List Retired) :=
      (p.declaredVariables c).map (fun v => (.declared (.var v), ((p.var v).expr.map retiredNames).getD []))
      ++ (p.declaredCode c).flatMap fun f => (a.nodeIds f).map fun n => (.node f n, retiredInNode a f n)
    findEach (p.contracts.flatMap uses) (.ok ·.2) fun (s, _) found =>
      .of ["Deprecated standard detected ", .subject s, ":\n"] (found.map fun x =>
        .text s!"\t- Usage of \"{x.old}\" should be replaced with \"{x.new}\"\n")

def isIdle : Expr -> Bool
  | .typeName .. | .name .. => true
  | _ => false

def redundantStatements : Detector :=
  .plain "redundant-statements" .informational .high "Redundant Statements"
    "Remove redundant statements if they congest code but offer no value." <| .inUnit fun p a =>
    return p.contracts.flatMap fun c => (p.declaredCode c).flatMap fun f =>
      let idle := (a.nodeIds f).filter fun n =>
        (a.flow f).kind n == .expression && (((a.flow f).node n).expr.map isIdle).getD false
      idle.map fun n => .of ["Redundant expression \"", .node f n, "\" in", .contract c, "\n"]

def asksOrigin : Bool :=
  let read := (a.nodeCode f n).read
  (a.branches true f n || a.requires f n) && read.any (·.same (.target (.member "tx.origin"))) && !read.any (·.same sender)

def txOrigin : Detector :=
  .plain "tx-origin" .medium .medium "Dangerous usage of `tx.origin`"
    "Do not use `tx.origin` for authorization." <| .inUnit fun p a =>
    return (p.contracts.flatMap p.functionsOf).flatMap fun f =>
      ((a.nodeIds f).filter (asksOrigin a f)).map fun n =>
        .of [.func f, " uses tx.origin for authorization: ", .node f n, "\n"]

def isHexAddress (s : String) : Bool :=
  let cs := s.toList
  let digits := match cs with
    | '0' :: 'x' :: rest | '0' :: 'X' :: rest => rest
    | cs => cs
  let isAddress (cs : List Char) : Bool :=
    cs.length == 40 && cs.all fun c => c.isDigit || ('a' ≤ c && c ≤ 'f') || ('A' ≤ c && c ≤ 'F')
  isAddress cs || isAddress digits

def isLongNumber : Value -> Bool
  | .constant c => Text.contains c.written "00000" && !isHexAddress c.written
  | _ => false

def tooManyDigits : Detector :=
  .plain "too-many-digits" .informational .medium "Too many digits"
    ("\nUse:\n- [Ether " ++
      "suffix](https://solidity.readthedocs.io/en/latest/units-and-global-variables.html#ether-units),\n- " ++
      "[Time suffix](https://solidity.readthedocs.io/en/latest/units-and-global-variables.html#time-units), " ++
      "or\n- [The scientific " ++
      "notation](https://solidity.readthedocs.io/en/latest/types.html#rational-and-integer-literals)\n") <|
    .inUnit fun p a =>
    return (p.mostDerived.flatMap p.functionsOf).flatMap fun f =>
      let nodes := (a.nodeIds f).filter fun n => (a.instrs f n).any (·.op.reads.any isLongNumber)
      nodes.map fun n => .of [.func f, " uses literals with too many digits:", "\n\t- ", .node f n, "\n"]

def isPlus : Expr -> Bool
  | .unary _ .plus _ => true
  | _ => false

def assignsPlus : Expr -> Bool
  | .assign _ _ _ r _ => isPlus r
  | _ => false

def incorrectUnary : Detector :=
  .plain "incorrect-unary" .low .medium "Dangerous unary expressions"
    "Remove the unary expression." <| .inUnit fun p a =>
    let ofVariable (v : VariableId) : Option Finding :=
      (p.var v).expr.bind fun e => if e.parts.any isPlus then
        some { info := [.var v, " uses an dangerous unary operator: " ++ p.exprText e ++ "\n"] } else none
    let ofNode (f : FunctionId) (n : NodeId) : Option Finding :=
      ((a.flow f).node n).expr.bind fun e => if e.parts.any assignsPlus then
        some { info := [.func f, " uses an dangerous unary operator: ", .node f n, "\n"] } else none
    return p.contracts.flatMap fun c =>
      (p.stateVariables c).filterMap ofVariable ++ (p.declaredCode c).flatMap fun f => (a.nodeIds f).filterMap (ofNode f)

/-- Those in a structure that holds a mapping itself do not count. -/
def structsWithMapping (p : Program) : Nat -> Option Ty -> List StructId
  | fuel + 1, some (.struct s) =>
    let members := (p.struct s).members.values.map fun v => (p.var v).type
    let holdsMapping := members.any fun t => t matches some (.mapping ..)
    if holdsMapping then [s] else members.flatMap (structsWithMapping p fuel)
  | _, _ => []

def mappingDeletion : Detector :=
  .plain "mapping-deletion" .medium .high "Deletion on mapping containing a structure"
    "Use a lock mechanism instead of a deletion to disable structure containing a mapping." <| .inUnit fun p a => do
    ((p.contracts.flatMap p.functionsOf).flatMap a.placedInstrs).flatMapM fun x => match x.instr.op with
      | .delete _ v => do
        let type := (<- p.typing a.store v).ty?
        return (structsWithMapping p (p.structTable.size + 1) type).map fun s =>
          .of [.func x.function, " deletes ", .subject (.declared (.struct s)), " which contains a mapping:\n",
            "\t-", .node x.function x.node, "\n"]
      | _ => return []

/-! ## Defects of assembly code -/

def haltingReturn : String := "return(uint256,uint256)"

def isHaltingReturn (op : Op) : Bool := builtinCallee? op == some haltingReturn

def haltAt? : Option Placed :=
  (a.overCallees f fun g => a.placedCalls g (·.builtinCalls)).find? (isHaltingReturn ·.instr.op)

def haltingCalls : List Finding :=
  (a.placedCalls f (·.internalCalls)).filterMap fun x =>
    if ((a.flow f).sons x.node).isEmpty then none
    else (calledFunction? x.instr.op).bind fun g => (haltAt? a g).map fun h =>
      .of [.func f, " calls ", .func g, " which halt the execution ", .node h.function h.node, "\n"]

def incorrectReturn : Detector :=
  .plain "incorrect-return" .high .medium "Incorrect return in assembly"
    "Use the `leave` statement." <| .inUnit fun p a =>
    return p.allCode.flatMap (haltingCalls a)

def returnInsteadOfLeave : Detector :=
  .plain "return-leave" .high .medium "Return instead of leave in assembly"
    "Use the `leave` statement." <| .inUnit fun p a => do
    let fs <- p.allDeclared.filterM fun f => do
      if (p.function f).returns.length == 2 && (p.function f).containsAssembly then return !(<- isOpen p f)
      else return false
    return fs.flatMap fun f =>
      ((a.placedCalls f (·.builtinCalls)).filter (isHaltingReturn ·.instr.op)).map fun x =>
        .of [.func f, " contains an incorrect call to return: ", .node f x.node, "\n"]

def assemblyNodes : List NodeId := go false (a.nodeIds f)
where
  go (inside : Bool) : List NodeId -> List NodeId
    | [] => []
    | n :: rest =>
      match (a.flow f).kind n with
      | .assembly => go true rest
      | .endAssembly => go false rest
      | _ => if inside then n :: go inside rest else go inside rest

def shiftsConstant : Op -> Bool
  | .binary _ op l r => (op == .leftShift || op == .rightShift) && l.isConstant && !r.isConstant
  | _ => false

def shiftParameterMixup : Detector :=
  .plain "incorrect-shift" .high .high "Incorrect shift in assembly."
    "Swap the order of parameters." <| .inUnit fun p a =>
    let fs := p.allDeclared.filter fun f => (p.function f).containsAssembly
    return fs.flatMap fun f => (assemblyNodes a f).flatMap fun n =>
      ((a.instrs f n).filter (shiftsConstant ·.op)).map fun _ =>
        .of [.func f, " contains an incorrect shift operation: ", .node f n, "\n"]

end

/-! ## Defects of loops -/

section

variable (p : Program) (a : Analysis) (f : FunctionId)

def opsWithCallees (n : NodeId) : List Instr := (a.placedWithCallees f n).map (·.instr)

def lengthOf? : Expr -> Option VariableId
  | .member _ (.name _ (.var v) _ _) "length" _ =>
    if p.isStateVariable v && ((p.var v).type matches some (.array _ _)) then some v else none
  | _ => none

def comparedArray? : Expr -> Option VariableId
  | .binary _ _ (.name ..) r@(.member ..) => lengthOf? p r
  | .binary _ _ l@(.member ..) (.name ..) => lengthOf? p l
  | _ => none

def touchesArray (v : VariableId) (i : Instr) : Bool :=
  match i.op with
  | .length _ w => w.same (.var v)
  | .delete .. => match i.expr with
    | some (.unary _ _ (.name _ t _ _)) => t == .var v
    | _ => false
  | .call c => c.kind.isHighLevel && (calledFunction? i.op).any fun g => !(p.function g).view && !(p.function g).pure
  | _ => false

/-- `depth` counts the loops around a node. -/
def loopTouches (v : VariableId) :
    Nat -> Nat -> List NodeId -> NodeId -> Bool × List NodeId
  | 0, _, visited, _ => (false, visited)
  | fuel + 1, depth, visited, n =>
    let visited := n :: visited
    let depth := match (a.flow f).kind n with
      | .startLoop => depth + 1
      | .endLoop => depth - 1
      | _ => depth
    if depth == 0 then (false, visited)
    else if (a.flow f).kind n == .expression && (opsWithCallees a f n).any (touchesArray a.program v) then (true, visited)
    else ((a.flow f).sons n).foldl (fun (found, visited) m =>
      if found || visited.contains m then (found, visited) else loopTouches v fuel depth visited m) (false, visited)

def enteredFrom (nodes : List NodeId) : List FunctionId := (nodes.flatMap (a.enteredAt f)).eraseDups

def fixedLengths : Analyze (List NodeId) := do
  let a <- get
  let g := a.flow f
  ((a.nodeIds f).filter (g.kind · == .startLoop)).flatMapM fun n => do
    match g.sons n with
    | [] => throw .outOfRange
    | m :: _ =>
      if g.kind m != .loopBranch then return []
      let some v := (g.node m).expr.bind (comparedArray? a.program) | return []
      let (touched, visited) := loopTouches a f v (g.nodes.size + 1) 1 [] m
      modify (·.widen (enteredFrom a f (visited.filter (g.kind · == .expression))))
      return if touched then [] else [m]

def cacheArrayLength : Detector :=
  .plain "cache-array-length" .optimization .high "Cache array length"
    "Cache the lengths of storage arrays if they are used and not modified in `for` loops." <| .asking do
    (<- get).program.allFunctions.flatMapM fun f => do
      return (<- fixedLengths f).map fun n => .of ["Loop condition ", .node f n,
        " should use cached array length instead of referencing `length` member of the storage array.\n "]

inductive LoopVerdict where
  | pass
  | found
  | foundLast
  | skip

structure LoopWalk where
  visited : List Place := []
  found : List Place := []
  asked : List FunctionId := []

abbrev LoopRule := Int -> Placed -> Result LoopVerdict

def openLoops (g : Flow) (n : NodeId) (depth : Int) : Int :=
  match g.kind n with
  | .startLoop => depth + 1
  | .endLoop => depth - 1
  | _ => depth

/-- `enter` walks through a function that is called. -/
def follow (enter : FunctionId -> NodeId -> LoopWalk -> Result LoopWalk) (x : Placed) (w : LoopWalk) : Result LoopWalk :=
  (entered? x.instr.op).elim (.ok w) fun g => (a.flow g).entry.elim (.ok w) (enter g · w)

def LoopWalk.note (w : LoopWalk) (x : Placed) : LoopWalk := { w with found := w.found ++ [(x.function, x.node)] }

def lookAt (judge : LoopRule) (enter : FunctionId -> NodeId -> LoopWalk -> Result LoopWalk)
    (depth : Int) : List Placed -> LoopWalk -> Result LoopWalk
  | [], w => .ok w
  | x :: rest, w => do
    match <- judge depth x with
    | .pass => lookAt judge enter depth rest (<- follow a enter x w)
    | .found => lookAt judge enter depth rest (<- follow a enter x (w.note x))
    | .foundLast => .ok (w.note x)
    | .skip => lookAt judge enter depth rest w

/-- Every node is taken up once, also in functions that are called. `everywhere`: operations outside loops are looked at. -/
def walkLoops (judge : LoopRule) (everywhere : Bool) :
    Nat -> Int -> FunctionId -> NodeId -> LoopWalk -> Result LoopWalk
  | 0, _, _, _, w => .ok w
  | fuel + 1, depth, f, n, w => do
    if w.visited.contains (f, n) then return w
    let depth := openLoops (a.flow f) n depth
    let (ops, asked) := if everywhere || depth > 0 then (a.placedWithCallees f n, a.enteredAt f n) else ([], [])
    let w <- lookAt a judge (walkLoops judge everywhere fuel depth) depth ops
      { w with visited := w.visited ++ [(f, n)], asked := addAllNew w.asked asked }
    ((a.flow f).sons n).foldlM (fun w m => walkLoops judge everywhere fuel depth f m w) w

def foundInLoops (judge : Analysis -> LoopRule) (everywhere : Bool) (counts : Function -> Bool) :
    Analyze (List Place) := do
  let a <- get
  let p := a.program
  let fs := (p.mostDerived.flatMap p.entryPoints).filter fun f =>
    (p.function f).implemented == some true && counts (p.function f)
  fs.flatMapM fun f => (a.flow f).entry.elim (return []) fun n => do
    let w <- Analyze.lifted (walkLoops a (judge a) everywhere (p.nodeCount + 1) 0 f n {})
    modify (·.widen w.asked)
    return w.found

/-- A call that leaves the contract; calls of libraries do not. -/
def isOutward (op : Op) : Bool :=
  if let .call c := op then c.kind matches .lowLevel .. | .highLevel .. | .send .. | .transfer .. else false

def judgeCall : LoopRule := fun _ x => return if isOutward x.instr.op then .found else .pass

def callsLoop : Detector :=
  .plain "calls-loop" .low .medium "Calls inside a loop"
    ("Favor [pull over " ++
      "push](https://github.com/ethereum/wiki/wiki/Safety#favor-pull-over-push-for-external-calls) strategy " ++
      "for external calls.") <| .asking do
    return (<- foundInLoops (fun _ => judgeCall) false fun _ => true).map fun (f, n) =>
      .of [.func f, " has external calls inside a loop: ", .node f n, "\n"]

def judgeWrite : LoopRule := fun _ x => return match x.instr.op.lvalue? with
  | some (.target (.var v)) => if p.isStateVariable v then .foundLast else .pass
  | _ => .pass

def costlyLoop : Detector :=
  .plain "costly-loop" .informational .medium "Costly operations inside a loop"
    "Use a local variable to hold the loop computation result." <| .asking do
    return (<- foundInLoops (judgeWrite ·.program) false fun _ => true).map fun (f, n) =>
      .ofNodes [.func f, " has costly operations inside a loop:\n"] f [n]

def judgeDelegate : LoopRule := fun depth x => return match x.instr.op with
  | .call { kind := .lowLevel _ name, .. } => if depth > 0 && name.render == "delegatecall" then .found else .pass
  | _ => .pass

def delegatecallLoop : Detector :=
  .plain "delegatecall-loop" .high .medium "Payable functions using `delegatecall` inside a loop"
    ("\nCarefully check that the function called by `delegatecall` is not payable/doesn't use " ++
      "`msg.value`.\n") <| .asking do
    return (<- foundInLoops (fun _ => judgeDelegate) true (·.payable)).map fun (f, n) =>
      .of [.func f, " has delegatecall inside a loop in a payable function: ", .node f n, "\n"]

def isZeroValue : Value -> Bool
  | .constant c => c.value.same (.int 0)
  | .target (.var v) => match (p.var v).expr with
    | some (.literal _ value _ _) => value.render == "0"
    | _ => false
  | _ => false

def comparedWith : List Value -> Result Value
  | [] => .error .outOfRange
  | [v] => if v.same messageValue then .error .outOfRange else .ok v
  | v :: w :: _ => .ok (if v.same messageValue then w else v)

/-- An operation that reads the value of the message, unless it compares it with zero. -/
def judgeMessageValue : LoopRule := fun depth x => do
  let reads := x.instr.op.reads
  if depth ≤ 0 || !reads.any (·.same messageValue) then return .pass
  if !(<- a.isConditional true x.function x.node) then return .found
  return if isZeroValue a.program (<- comparedWith reads) then .skip else .found

def msgValueLoop : Detector :=
  .plain "msg-value-loop" .high .medium "`msg.value` inside a loop"
    ("\nProvide an explicit array of amounts alongside the receivers array, and check that the sum of all " ++
      "amounts matches `msg.value`.\n") <| .asking do
    return (<- foundInLoops judgeMessageValue true (·.payable)).map fun (f, n) =>
      .of [.func f, " use msg.value in a loop: ", .node f n, "\n"]

end

end ContractAudit.Detect
