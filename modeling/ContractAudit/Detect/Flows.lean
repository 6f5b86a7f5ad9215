import ContractAudit.Detect.Statements

/-! # Defects that show on the way through a function -/

namespace ContractAudit.Detect

open Ir Analysis Analyze

structure PendingResult where
  value : Value
  part : Option Nat

def PendingResult.same (x y : PendingResult) : Bool := x.value.same y.value && x.part == y.part

structure ResultWalk where
  pending : List PendingResult := []
  origins : List (Value × NodeId) := []

namespace ResultWalk

def drop (x : PendingResult) : List PendingResult -> List PendingResult
  | [] => []
  | y :: rest => if x.same y then rest else y :: drop x rest

/-- Using a part also uses the value. -/
def use (w : ResultWalk) (x : PendingResult) : ResultWalk :=
  if w.pending.any x.same then
    let pending := x.part.elim w.pending fun _ => drop { x with part := none } w.pending
    { w with pending := drop x pending }
  else w

def give (w : ResultWalk) (n : NodeId) (v : Value) (parts : Nat) : ResultWalk :=
  { pending := w.pending ++ { value := v, part := none } ::
      (List.range parts).map fun i => { value := v, part := some i }
    origins := (v, n) :: w.origins }

def nodes (w : ResultWalk) : List NodeId :=
  w.pending.filterMap fun x => (w.origins.find? fun (v, _) => v.same x.value).map (·.2)

end ResultWalk

def isState (p : Program) : Value -> Bool
  | .target (.var v) => p.isStateVariable v
  | _ => false

def partCount (a : Analysis) (v : Value) : Result Nat := do
  match v with
  | .tuple i => match a.store.tuples.getD i .unknown with
    | .several ts => return ts.length
    | .one t => throw (.badType s!"object of type '{a.program.typeKindName t}' has no len()")
    | _ => throw (.badType "object of type 'NoneType' has no len()")
  | _ => return 0

def stepResults (a : Analysis) (gives : NodeId -> Op -> Bool) (byPart : Bool) (w : ResultWalk) (x : Placed) :
    Result ResultWalk := do
  let op := x.instr.op
  let w <- match op.lvalue? with
    | some v =>
      if gives x.node op && !isState a.program v then
        let parts <- if byPart then partCount a v else pure 0
        pure (w.give x.node v parts)
      else pure w
    | none => pure w
  let part := match op with
    | .unpack _ _ i => if byPart then some i else none
    | _ => none
  return op.reads.foldl (fun w v => w.use { value := v, part }) w

def unusedResults (gives : Analysis -> FunctionId -> NodeId -> Op -> Bool) (byPart : Bool) (a : Analysis) :
    Result (List Finding) := do
  let p := a.program
  let fs := p.mostDerived.flatMap fun c => p.functionsOf c ++ p.modifiersOf c
  fs.flatMapM fun f => do
    let w <- (a.placedInstrs f).foldlM (stepResults a (gives a f) byPart) {}
    return w.nodes.map fun n => .of [.func f, " ignores return value by ", .node f n, "\n"]

def movesTokens (p : Program) (op : Op) : Bool :=
  (calledFunction? op).any fun g =>
    ["transfer(address,uint256)", "transferFrom(address,address,uint256)"].contains (p.soliditySignature g)

def isHighLevel : Op -> Bool
  | .call c => c.kind.isHighLevel
  | _ => false

def unusedReturn : Detector :=
  .plain "unused-return" .medium .medium "Unused return"
    "Ensure that all the return values of the function calls are used." <| .inUnit fun _ => unusedResults (fun a f n op =>
    (isHighLevel op && !movesTokens a.program op) || ((a.flow f).kind n == .tries && op matches .assign .. | .unpack ..)) true

def uncheckedTransfer : Detector :=
  .plain "unchecked-transfer" .high .medium "Unchecked transfer"
    "Use `SafeERC20`, or ensure that the transfer/transferFrom return value is checked." <|
    .inUnit fun _ => unusedResults (fun a _ _ op => isHighLevel op && movesTokens a.program op) true

def uncheckedSend : Detector :=
  .plain "unchecked-send" .medium .medium "Unchecked Send"
    "Ensure that the return value of `send` is checked or logged." <|
    .inUnit fun _ => unusedResults (fun _ _ _ op => op matches .call { kind := .send .., .. }) true

def uncheckedLowLevel : Detector :=
  .plain "unchecked-lowlevel" .medium .medium "Unchecked low-level calls"
    "Ensure that the return value of a low-level call is checked or logged." <|
    .inUnit fun _ => unusedResults (fun _ _ _ op => op matches .call { kind := .lowLevel .., .. }) false

/-! ## Defects that show on the way through a function -/

section

variable (p : Program) (a : Analysis) (f : FunctionId) (n : NodeId) (v : Value) (w : Pending)

def computes (sign : BinaryOp) (names : List String) (op : Op) : Bool :=
  match op with
  | .binary _ o _ _ => o == sign
  | .call { kind := .library .., arguments := [_, _], result := some _, .. } => (calledFunction? op).any fun g =>
      names.contains (p.functionName g).toLower
  | _ => false

def factors : Op -> List Value
  | .call c => c.arguments
  | op => op.reads

abbrev Quotients := List (Value × List NodeId)

def Quotients.way? (qs : Quotients) (v : Value) : Option (List NodeId) := (qs.find? (·.1.same v)).map (·.2)

def Quotients.set (qs : Quotients) (v : Value) (way : List NodeId) : Quotients :=
  if (qs.way? v).isSome then qs.map fun x => if x.1.same v then (v, way) else x else qs ++ [(v, way)]

/-- The quotients, the nodes on the way to the last product of one, and whether values were compared. -/
structure QuotientState where
  quotients : Quotients := []
  product : List NodeId := []
  compares : Bool := false

def QuotientState.step (s : QuotientState) (op : Op) : QuotientState :=
  let s := match op with
    | .assign r v => match s.quotients.way? v with
      | some way => { s with quotients := s.quotients.set r (addNew n way) }
      | none => s
    | _ => s
  let s := if computes p .division ["div", "safediv"] op then
      { s with quotients := s.quotients.set (op.lvalue?.getD .absent) [n] } else s
  let s := if computes p .multiplication ["mul", "safemul"] op then
      let ways := ((factors op).filter (!·.isConstant)).filterMap s.quotients.way?
      let product := ways.foldl (fun nodes way => addAllNew nodes (addNew n way)) []
      if product.isEmpty then s else { s with product }
    else s
  if let .binary _ .equal _ _ := op then { s with compares := true } else s

/-- Takes up nodes, the last one that was met first. -/
def exploreQuotients :
    Nat -> List NodeId -> List NodeId -> Quotients -> List (List NodeId) -> List (List NodeId)
  | 0, _, _, _, found => found
  | _, [], _, _, found => found
  | fuel + 1, n :: todo, explored, quotients, found =>
    if explored.contains n then exploreQuotients fuel todo explored quotients found
    else
      let s := ((a.instrs f n).map (·.op)).foldl (QuotientState.step a.program n) { quotients }
      let isCheck := a.requires f n && s.compares
      let found := if s.product.isEmpty || isCheck then found else found ++ [s.product]
      exploreQuotients fuel (((a.flow f).sons n).reverse ++ todo) (n :: explored) s.quotients found

def quotientProducts : List (List NodeId) :=
  (a.flow f).entry.elim [] fun n => exploreQuotients a f ((a.flow f).edgeCount + 2) [n] [] [] []

def divideBeforeMultiply : Detector :=
  .plain "divide-before-multiply" .medium .medium "Divide before multiply"
    "Consider ordering multiplication before division." <| .inUnit fun p a =>
    return p.allCode.flatMap fun f =>
      (quotientProducts a f).map fun nodes =>
        .ofNodes [.func f, " performs a multiplication on the result of a division:\n"] f nodes.mergeSort

abbrev Pending := Table VariableId NodeId

def isElementaryVariable (v : VariableId) : Bool := (p.var v).type matches some (.elementary _)

def Pending.withoutStates : Pending := w.filter (!p.isStateVariable ·.1)

def Pending.read (vs : List VariableId) : Pending := w.filter fun x => !(vs.contains x.1 && isElementaryVariable p x.1)

def Pending.call (op : Op) : Pending :=
  match op with
  | .call { kind := .highLevel .., .. } | .call { kind := .library .., .. } | .call { kind := .dynamic .., .. }
  | .call { kind := .lowLevel .., .. } => w.withoutStates a.program
  | .call { kind := .internal (some g) _ _, .. } =>
    let leaves := !(a.allOutwardCalls g).isEmpty || !(a.allLibraryCalls g).isEmpty
    (if leaves then w.withoutStates a.program else w).read a.program (a.allStateRead g)
  | _ => w

def programVariables (vs : List Value) : List VariableId :=
  vs.filterMap fun
    | .target (.var v) => some v
    | _ => none

structure LostWrite where
  variable_ : VariableId
  first : NodeId
  second : NodeId

def writeStep (s : Pending × List LostWrite) (op : Op) : Pending × List LostWrite :=
  let (w, lost) := s
  let w := (w.call a op).read a.program (programVariables op.reads)
  match op.lvalue? with
  | some (.target (.var v)) =>
    if !isElementaryVariable a.program v || (a.program.var v).name == "_" then (w, lost)
    else
      let lost := (w.find? v).elim lost fun m => lost ++ [⟨v, m, n⟩]
      (w.insert v n, lost)
  | _ => (w, lost)

/-- Each node is taken up once; after a branch nothing is known. -/
def walkWrites :
    Nat -> NodeId -> Pending -> List NodeId × List LostWrite -> List NodeId × List LostWrite
  | 0, _, _, s => s
  | fuel + 1, n, w, (explored, lost) =>
    if explored.contains n then (explored, lost)
    else
      let g := a.flow f
      let ops := if g.kind n == .declaration then [] else (a.instrs f n).map (·.op)
      let (w, lost) := ops.foldl (writeStep a n) (w, lost)
      let w := if (g.sons n).length > 1 then [] else w
      (g.sons n).foldl (fun s m => walkWrites fuel m w s) (n :: explored, lost)

def lostWrites : List LostWrite :=
  (a.flow f).entry.elim [] fun n => (walkWrites a f ((a.flow f).nodes.size + 1) n [] ([], [])).2

def writeAfterWrite : Detector :=
  .plain "write-after-write" .medium .high "Write after write"
    "Fix or remove the writes." <| .inUnit fun p a =>
    return (p.mostDerived.flatMap p.functionsOf).flatMap fun f => (lostWrites a f).map fun x =>
      .of [.var x.variable_, " is written in both\n\t", .node f x.first, "\n\t", .node f x.second, "\n"]

def isCheckOf (op : Op) : Bool :=
  match op with
  | .binary .. => op.reads.any (·.same v)
  | .call { kind := .builtin (.builtinFunction name), .. } =>
    ["require(bool)", "require(bool,string)", "require(bool,error)"].contains name && op.reads.any (·.same v)
  | _ => false

def upToCheck : Bool × List NodeId :=
  let g := a.flow f
  let after := Search.reach g.sons (g.edgeCount + (g.sons n).length + 1) (g.sons n)
  let isChecking (m : NodeId) : Bool := (opsWithCallees a f m).any (isCheckOf v ·.op)
  (after.any isChecking, after.takeWhile (!isChecking ·) ++ (after.find? isChecking).toList)

def priceAt? (ops : List Op) (name : String) : Option Value :=
  let unpacked (i : Nat) : Option Value := ops.findSome? fun
    | .unpack r _ j => if i == j then some r else none
    | _ => none
  if ["read", "latestAnswer"].contains name then ops.findSome? fun
    | .assign r _ => some r
    | _ => none
  else if name == "latestRoundData" then unpacked 1
  else unpacked 0

/-- Calls of an oracle whose answer is not checked. `check` tells whether it is, and which nodes were looked at for it. -/
def uncheckedCalls (owners functions : List String) (words : String)
    (check : Analysis -> FunctionId -> NodeId -> Op -> Analyze (Bool × List NodeId)) : Analyze (List Finding) := do
  let a <- get
  let calls := a.program.mostDerived.flatMap a.contractOutward
  let found <- lifted (calls.filterM fun (_, _, call) => do
    return owners.contains (<- a.program.valueName a.store call.owner)
      && functions.contains (calledName a.program call.instr.op))
  let unchecked <- found.filterM fun (f, n, call) => do
    let (isChecked, nodes) <- check a f n call.instr.op
    modify (·.widen (enteredFrom a f nodes))
    return !isChecked
  return unchecked.map fun (f, n, _) => .of [words, .func f, "\n\t- ", .node f n, "\n"]

def chronicleUncheckedPrice : Detector :=
  .plain "chronicle-unchecked-price" .medium .medium "Chronicle unchecked price"
    "Validate that the price returned by the oracle is valid." <| .asking <|
    uncheckedCalls ["IScribe", "IChronicle"]
      ["read", "tryRead", "readWithAge", "tryReadWithAge", "latestAnswer", "latestRoundData"]
      "Chronicle price is not checked to be valid in " fun a f n op => do
      let some v := priceAt? ((a.instrs f n).map (·.op)) (calledName a.program op) | return (false, [])
      return upToCheck a f n v

/-- The field is taken out of a value, and then compared. `taken` is what holds the field. -/
def fieldCheck (price : Value) (field : String) : List Op -> Option Value -> Bool × Option Value
  | [], taken => (false, taken)
  | op :: rest, taken =>
    let taken := match op with
      | .member r v name => if v.same price && name.render == field then some r else taken
      | _ => taken
    match op, taken with
    | .binary .., some v => if op.reads.any (·.same v) then (true, taken) else fieldCheck price field rest taken
    | _, _ => fieldCheck price field rest taken

/-- In nodes that may follow, the nearest first. The nodes that were looked at are given, too. -/
def isFieldChecked (price : Value) (field : String) :
    Nat -> List NodeId -> List NodeId -> Option Value -> Bool × List NodeId
  | 0, _, visited, _ => (false, visited)
  | _, [], visited, _ => (false, visited)
  | fuel + 1, n :: todo, visited, taken =>
    let (found, taken) := fieldCheck price field ((opsWithCallees a f n).map (·.op)) taken
    if found then (true, n :: visited)
    else if visited.contains n then isFieldChecked price field fuel todo visited taken
    else
      let visited := n :: visited
      let next := ((a.flow f).sons n).filter (!visited.contains ·)
      isFieldChecked price field fuel (todo ++ next) visited taken

def uncheckedField (functions : List String) (field : String) : Analyze (List Finding) :=
  uncheckedCalls ["IPyth"] functions s!"Pyth price {field} field is not checked in " fun a f n _ => do
    let last : Option Op := (a.instrs f n).getLast?.map (·.op)
    match last with
    | some (.assign price _) =>
      let g := a.flow f
      return isFieldChecked a f price field (g.edgeCount + (g.sons n).length + 1) (g.sons n) [] none
    | _ => throw (.broken "")

def pythUncheckedConfidence : Detector :=
  .plain "pyth-unchecked-confidence" .medium .high "Pyth unchecked confidence level"
    ("Check the confidence level of a Pyth price. Visit " ++
      "https://docs.pyth.network/price-feeds/best-practices#confidence-intervals for more information.") <|
    .asking (uncheckedField ["getEmaPrice", "getEmaPriceNoOlderThan", "getEmaPriceUnsafe", "getPrice",
    "getPriceNoOlderThan", "getPriceUnsafe"] "conf")

def pythUncheckedTime : Detector :=
  .plain "pyth-unchecked-publishtime" .medium .high "Pyth unchecked publishTime"
    "Check the publishTime of a Pyth price." <|
    .asking (uncheckedField ["getEmaPrice", "getEmaPriceUnsafe", "getPrice", "getPriceUnsafe"] "publishTime")

end

end ContractAudit.Detect
