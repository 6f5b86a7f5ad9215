import ContractAudit.Analysis.Kinds
import ContractAudit.Detect.Basic

/-! # Defects of tokens, and use of services on the chain -/

namespace ContractAudit.Detect

open Ir Analysis

section

variable (p : Program) (a : Analysis) (f : FunctionId) (c : ContractId) (op : Op)

def calledSignature? : Option String := (calledFunction? op).map p.soliditySignature

def transferFromSignature : String := "transferFrom(address,address,uint256)"

def safeTransferFromSignature : String := "safeTransferFrom(address,address,address,uint256)"

def permitSignature : String := "permit(address,address,uint256,uint256,uint8,bytes32,bytes32)"

def isArbitrary (arguments : List Value) (i : Nat) : Result Bool := do
  let v <- expect arguments[i]? .outOfRange
  let context := contextOf a.program f
  if <- a.isDependent v sender context then return false
  return !(<- a.isDependent v .this context)

def movesArbitrary : Result Bool := do
  match op, calledSignature? a.program op with
  | .call c, some signature =>
    if c.kind.isLibrary && signature == safeTransferFromSignature then isArbitrary a f c.arguments 1
    else if signature == transferFromSignature then isArbitrary a f c.arguments 0
    else return false
  | _, _ => return false

/-- The flag selects the functions that also call for a permit. -/
def arbitraryMoves (withPermit : Bool) (f : FunctionId) : Result (List NodeId) := do
  let outward := (a.outwardCalls f).filterMap (calledSignature? a.program ·.instr.op)
  let library := (a.libraryCalls f).filterMap (calledSignature? a.program ·.op)
  let moves := outward.contains transferFromSignature || library.contains safeTransferFromSignature
  if !moves || outward.contains permitSignature != withPermit then return []
  let found <- (a.placedOutward f).filterM fun (_, c) => movesArbitrary a f c.instr.op
  return found.map (·.1)

def arbitraryFrom (withPermit : Bool) (words : String) (a : Analysis) : Result (List Finding) := do
  (a.program.mostDerived.flatMap a.program.functionsOf).flatMapM fun f => do
    return (<- arbitraryMoves a withPermit f).map fun n => .of [.func f, .text words, .node f n, "\n"]

def arbitraryFromNoPermit : Detector :=
  .plain "arbitrary-send-erc20" .high .high "Arbitrary `from` in transferFrom"
    "\nUse `msg.sender` as `from` in transferFrom.\n" <|
    .inUnit fun _ => arbitraryFrom false " uses arbitrary from in transferFrom: "

def arbitraryFromPermit : Detector :=
  .plain "arbitrary-send-erc20-permit" .high .medium "Arbitrary `from` in transferFrom used with permit"
    "\nEnsure that the underlying ERC20 token correctly implements a permit function.\n" <|
    .inUnit fun _ => arbitraryFrom true " uses arbitrary from in transferFrom in combination with permit: "

def isMissed (e : StandardFunction) (p : Program) (f : FunctionId) : Bool :=
  p.functionName f == e.name && p.parameterTexts f == e.parameters &&
    p.returnTexts f != if e.result == "" then [] else [e.result]

def missedResults (expected : List StandardFunction) (words : String) (p : Program) (contracts : List ContractId) :
    List Finding :=
  contracts.flatMap fun c =>
    ((p.functionsOf c).filter fun f => expected.any (isMissed · p f)).map fun f =>
      .of [.contract c, .text words, .func f, "\n"]

def erc20Interface : Detector :=
  .plain "erc20-interface" .medium .high "Incorrect erc20 interface"
    "Set the appropriate return values and types for the defined `ERC20` functions." <| .inUnit fun p _ => do
    let contracts <- p.mostDerived.filterM fun c => return (<- p.mayBeErc20 c) && !(<- p.mayBeErc721 c)
    return missedResults (TokenStandard.erc20Functions.filter (·.required)) " has incorrect ERC20 function interface:" p contracts

def erc721Interface : Detector :=
  .plain "erc721-interface" .medium .high "Incorrect erc721 interface"
    "Set the appropriate return values and vtypes for the defined `ERC721` functions." <| .inUnit fun p _ => do
    let contracts <- p.mostDerived.filterM fun c => return (<- p.mayBeErc721 c) && (<- p.mayBeErc20 c)
    return missedResults (TokenStandard.erc721Core ++ TokenStandard.erc165Functions) " has incorrect ERC721 function interface:" p contracts

def isErc20 : Result Bool := do return TokenStandard.isMetBy "ERC20" (<- p.openSignatures c)

def unindexedParameters : List (EventId × VariableId) :=
  let isTokenEvent (e : EventId) : Bool :=
    ["Transfer(address,address,uint256)", "Approval(address,address,uint256)"].contains (p.eventFullName e)
  ((p.declaredEvents c).filter isTokenEvent).flatMap fun e =>
    (((p.event e).parameters.take 2).filter fun v => !(p.var v).indexed).map fun v => (e, v)

def erc20Unindexed : Detector :=
  .inParts <|
  .plain "erc20-indexed" .informational .high "Unindexed ERC20 event parameters"
    ("Add the `indexed` keyword to event parameters that should include it, according to the `ERC20` " ++
      "specification.") <| .inUnit fun p _ => do
    let contracts <- p.contracts.filterM (isErc20 p)
    return (contracts.flatMap (unindexedParameters p)).map fun (e, v) =>
      let name := (p.var v).name
      { info := ["ERC20 event ", .subject (.declared (.event e)), s!"does not index parameter {name}\n"]
        more := [(.declared (.event e), [("parameter_name", .str name)])] }

/-- It has the selector and another signature, or the signature and another type. -/
def collides (signature : String) (type : Option Ty) : Bool :=
  if signature == "DOMAIN_SEPARATOR()" then !(type matches some (.elementary (.bytesN 32)))
  else Hash.functionId signature == Hash.functionId "DOMAIN_SEPARATOR()"

def collision? : Option Target :=
  let functions := (p.entryPoints c).map fun f =>
    (Target.func f, p.soliditySignature f, (p.function f).returns.head?.bind fun v => (p.var v).type)
  let vars := ((p.stateVariables c).filter fun v => (p.var v).visibility == some "public").map fun v =>
    (Target.var v, p.getterSignature v, (p.var v).type)
  ((functions ++ vars).find? fun (_, signature, type) => collides signature type).map (·.1)

def domainSeparatorCollision : Detector :=
  .plain "domain-separator-collision" .medium .high "Domain separator collision"
    "Remove or rename the function that collides with DOMAIN_SEPARATOR()." <| .inUnit fun p _ => do
    let tokens <- p.mostDerived.filterM (isErc20 p)
    return ((tokens.findSome? (collision? p)).map fun t => .of ["The function signature of ",
      .subject (.declared t), " collides with DOMAIN_SEPARATOR and should be renamed or removed.\n"]).toList

end

/-! ## Use of services on the chain -/

section

variable (a : Analysis) (f : FunctionId) (p : Program) (op : Op)

def registryFunctions : List String :=
  ["decimals", "description", "versiom", "latestRoundData", "getRoundData", "latestAnswer", "latestTimestamp",
    "latestRound", "getAnswer", "getTimestamp", "getFeed", "getPhaseFeed", "isFeedEnabled", "getPhase", "getRoundFeed",
    "getPhaseRange", "getPreviousRoundId", "getNextRoundId", "proposeFeed", "confirmFeed", "getProposedFeed",
    "proposedGetRoundData", "proposedLatestRoundData", "getCurrentPhaseId"]

def goesTo (contract : String) (functions : List String) (c : OutwardCall) : Result Bool := do
  return (<- a.program.valueName a.store c.owner) == contract && functions.contains (calledName a.program c.instr.op)

def callPlaces (contract : String) (functions : List String) (c : ContractId) :
    Result (List Place) := do
  let found <- (a.contractOutward c).filterM fun (_, _, call) => goesTo a contract functions call
  return found.map fun (f, n, _) => (f, n)

def feedRegistry : Detector :=
  .plain "chainlink-feed-registry" .low .high "Chainlink Feed Registry usage"
    "Do not use Chainlink Feed Registry outside of Ethereum Mainnet." <| .inUnit fun p a =>
    findEach p.mostDerived (callPlaces a "FeedRegistryInterface" registryFunctions) fun c places =>
      .of ["The Chainlink Feed Registry is used in the ", (p.contract c).name,
        " contract. It's only available on Ethereum Mainnet, consider to not use it if the contract needs to be deployed on other chains.\n"]
        (Phrase.lines "\t - " (sortPlaces p places))

def pythDeprecated : Detector :=
  .plain "pyth-deprecated-functions" .medium .high "Pyth deprecated functions"
    "Do not use deprecated Pyth functions. Visit https://api-reference.pyth.network/." <| .inUnit fun p a => do
    let found <- p.mostDerived.mapM (callPlaces a "IPyth" ["getValidTimePeriod", "getEmaPrice", "getPrice"])
    return found.flatten.map fun (f, n) => .of ["The following Pyth deprecated function is used\n\t- ", .node f n, "\n"]

def retiredAddresses : List String :=
  ["0x4200000000000000000000000000000000000000", "0x4200000000000000000000000000000000000001",
    "0x4200000000000000000000000000000000000002", "0x4200000000000000000000000000000000000013"]

def literalAddress? : Value -> Option String
  | .target (.var v) => match (p.var v).expr with
    | some (.conversion _ (.literal _ (.text s) _ _) _) => some s
    | _ => none
  | _ => none

def retiredUses : Nat :=
  let destination : Value := match op with
    | .call { kind := .highLevel d _ _, .. } | .call { kind := .library d _ _, .. } => d
    | _ => .absent
  (literalAddress? p destination).elim 0 fun address =>
    (if retiredAddresses.contains address then 1 else 0) +
      (if address == "0x420000000000000000000000000000000000000F" &&
        ["overhead", "scalar", "getL1GasUsed"].contains (calledName p op) then 1 else 0)

def retiredPredeploys : Detector :=
  .plain "optimism-deprecation" .low .high "Optimism deprecated predeploy or function"
    "Do not use the deprecated components." <| .inUnit fun p a =>
    let uses (c : ContractId) := (a.contractOutward c).flatMap fun (f, n, call) =>
      .replicate (retiredUses p call.instr.op) (f, n)
    findEach p.mostDerived (.ok <| uses ·) fun c places =>
      .of ["A deprecated Optimism predeploy or function is used in the ", (p.contract c).name, " contract.\n"]
        (Phrase.lines "\t - " (sortPlaces p places))

def randomnessRequests : List Place :=
  (a.overCallees f fun g => a.placedCalls g (·.internalCalls)).filterMap fun x =>
    match x.instr.op with
    | .call { kind := .internal .., .. } =>
      if calledName a.program x.instr.op == "_requestRandomness" then some (x.function, x.node) else none
    | _ => none

def unprotectedRandomness : Detector :=
  .plain "gelato-unprotected-randomness" .medium .medium "Gelato unprotected randomness"
    "Function that request randomness should be allowed only to authorized users." <| .inUnit fun p a => do
    let consumers := p.mostDerived.filter fun c =>
      (p.contract c).inheritance.any fun d => (p.contract d).name == "GelatoVRFConsumerBase"
    (consumers.flatMap p.entryPoints).flatMapM fun f => do
      if <- a.isProtected f then return []
      return (sortPlaces p (randomnessRequests a f)).map fun node =>
        .of [.func f, " is unprotected and request randomness from Gelato VRF\n\t- ", .subject node, "\n"]

def ticketFunctions : List String :=
  ["createRetryableTicket", "outboundTransferCustomRefund", "unsafeCreateRetryableTicket"]

def makesTicket : Bool :=
  match op with
  | .call c => c.kind.isHighLevel && (calledFunction? op).any fun g => ticketFunctions.contains (p.functionName g)
  | _ => false

def ticketCount (n : NodeId) : Nat :=
  let own := (a.instrs f n).map (·.op)
  let called := (a.nodeCode f n).internalCalls.flatMap fun i => (calledFunction? i.op).elim [] fun g =>
    (a.allPlacedInstrs g).map (·.instr.op)
  ((own ++ called).filter (makesTicket a.program)).length

structure TicketSearch where
  tickets : Table Place (List NodeId) := []
  known : Table NodeId (List NodeId) := []
  found : List NodeId := []

/-- A node is left alone if it is on the way already, or if nothing new is known about the ways to it. -/
def searchTickets : Nat -> List NodeId -> TicketSearch -> NodeId -> TicketSearch
  | 0, _, s, _ => s
  | fuel + 1, way, s, n =>
    if way.contains n then s
    else
      let before := ((a.flow f).fathers n).flatMap fun m => (s.tickets.find? (f, m)).getD []
      let isOld := (s.known.find? n).any (before.all ·.contains)
      if isOld then s
      else
        let s := { s with known := s.known.alter n [] (· ++ before) }
        let own := (s.tickets.find? (f, n)).getD before ++ .replicate (ticketCount a f n) n
        let s := { s with tickets := s.tickets.insert (f, n) own }
        if own.length > 1 then { s with found := s.found ++ [n] }
        else ((a.flow f).sons n).foldl (searchTickets fuel (n :: way)) s

def repeatedTickets : Analyze (List (List NodeId)) := do
  let a <- get
  let some n := (a.flow f).entry | return []
  let start : TicketSearch := { tickets := a.memo.tickets.insert (f, n) [] }
  let s := searchTickets a f ((a.flow f).nodes.size + 1) [] start n
  let asked := s.known.keys.flatMap fun m => (a.nodeCode f m).internalCalls.filterMap (calledFunction? ·.op)
  set { a with memo := { a.noteAsked asked a.memo with tickets := s.tickets } }
  return s.found.map fun m => (s.tickets.find? (f, m)).getD []

def outOfOrderTickets : Detector :=
  .plain "out-of-order-retryable" .medium .medium "Out-of-order retryable transactions"
    "Do not rely on the order or successful execution of retryable tickets." <| .asking do
    let p := (<- get).program
    let fs := p.allDeclared.filter fun f => (p.function f).implemented == some true
    fs.flatMapM fun f => do
      return (<- repeatedTickets f).map fun nodes =>
        .of ["Multiple retryable tickets created in the same function:\n"] (Phrase.lines "\t -" (nodes.map (.node f)))

end

end ContractAudit.Detect
