import ContractAudit.Analysis.Reentry
import ContractAudit.Report.Finding

/-! # Token standards

What the standards for tokens ask for, and what a contract, and those that inherit from it, lack of it.
-/

namespace ContractAudit

structure StandardEvent where
  name : String
  parameters : List String
  indexed : List Bool

/-- The first parameters are indexed. -/
def StandardEvent.leading (name : String) (parameters : List String) (count : Nat) : StandardEvent :=
  ⟨name, parameters, (List.range parameters.length).map fun i => decide (i < count)⟩

structure StandardFunction where
  name : String
  parameters : List String
  result : String
  view : Bool
  required : Bool
  events : List StandardEvent

def StandardFunction.signature (f : StandardFunction) : String := f.name ++ "(" ++ ",".intercalate f.parameters ++ ")"

namespace StandardFunction

variable (name : String) (parameters : List String) (result : String)

def reads (required : Bool := true) : StandardFunction := ⟨name, parameters, result, true, required, []⟩

def writes (events : List StandardEvent) : StandardFunction := ⟨name, parameters, result, false, true, events⟩

end StandardFunction

structure TokenStandard where
  name : String
  functions : List StandardFunction
  events : List StandardEvent

namespace TokenStandard

def signatures (s : TokenStandard) : List String := (s.functions.filter (·.required)).map (·.signature)

def address : String := "address"

def uint : String := "uint256"

def transfer20 : StandardEvent := .leading "Transfer" [address, address, uint] 2

def approval20 : StandardEvent := .leading "Approval" [address, address, uint] 2

def transfer223 : StandardEvent := .leading "Transfer" [address, address, uint, "bytes"] 2

def transfer721 : StandardEvent := .leading "Transfer" [address, address, uint] 3

def approval721 : StandardEvent := .leading "Approval" [address, address, uint] 3

def approvalForAll : StandardEvent := .leading "ApprovalForAll" [address, address, "bool"] 2

def sent777 : StandardEvent := .leading "Sent" [address, address, address, uint, "bytes", "bytes"] 3

def minted777 : StandardEvent := .leading "Minted" [address, address, uint, "bytes", "bytes"] 2

def burned777 : StandardEvent := .leading "Burned" [address, address, uint, "bytes", "bytes"] 2

def authorizedOperator : StandardEvent := .leading "AuthorizedOperator" [address, address] 2

def revokedOperator : StandardEvent := .leading "RevokedOperator" [address, address] 2

def transferSingle : StandardEvent := .leading "TransferSingle" [address, address, address, uint, uint] 3

def transferBatch : StandardEvent := .leading "TransferBatch" [address, address, address, "uint256[]", "uint256[]"] 3

def uri1155 : StandardEvent := ⟨"URI", ["string", uint], [false, true]⟩

def deposit4626 : StandardEvent := .leading "Deposit" [address, address, uint, uint] 2

def withdraw4626 : StandardEvent := .leading "Withdraw" [address, address, address, uint, uint] 3

def erc20Functions : List StandardFunction := [
  .reads "totalSupply" [] uint,
  .reads "balanceOf" [address] uint,
  .writes "transfer" [address, uint] "bool" [transfer20],
  .writes "transferFrom" [address, address, uint] "bool" [transfer20],
  .writes "approve" [address, uint] "bool" [approval20],
  .reads "allowance" [address, address] uint,
  .reads "name" [] "string" false,
  .reads "symbol" [] "string" false,
  .reads "decimals" [] "uint8" false]

def erc165Functions : List StandardFunction := [ .reads "supportsInterface" ["bytes4"] "bool"]

def erc223Functions : List StandardFunction := [
  .reads "name" [] "string",
  .reads "symbol" [] "string",
  .reads "decimals" [] "uint8",
  .reads "totalSupply" [] uint,
  .reads "balanceOf" [address] uint,
  .writes "transfer" [address, uint] "bool" [transfer223],
  .writes "transfer" [address, uint, "bytes"] "bool" [transfer223],
  .writes "transfer" [address, uint, "bytes", "string"] "bool" [transfer223]]

def erc721Core : List StandardFunction := [
  .reads "balanceOf" [address] uint,
  .reads "ownerOf" [uint] address,
  .writes "safeTransferFrom" [address, address, uint, "bytes"] "" [transfer721],
  .writes "safeTransferFrom" [address, address, uint] "" [transfer721],
  .writes "transferFrom" [address, address, uint] "" [transfer721],
  .writes "approve" [address, uint] "" [approval721],
  .writes "setApprovalForAll" [address, "bool"] "" [approvalForAll],
  .reads "getApproved" [uint] address,
  .reads "isApprovedForAll" [address, address] "bool"]

def erc721Optional : List StandardFunction := [
  .reads "name" [] "string" false,
  ⟨"symbol", [], "string", false, false, []⟩,
  ⟨"tokenURI", [uint], "string", false, false, []⟩]

def erc721Functions : List StandardFunction := erc721Core ++ erc165Functions ++ erc721Optional

def erc1820Functions : List StandardFunction := [ .reads "canImplementInterfaceForAddress" ["bytes32", address] "bytes32"]

def erc777Functions : List StandardFunction := [
  .reads "name" [] "string",
  .reads "symbol" [] "string",
  .reads "totalSupply" [] uint,
  .reads "balanceOf" [address] uint,
  .reads "granularity" [] uint,
  .reads "defaultOperators" [] "address[]",
  .reads "isOperatorFor" [address, address] "bool",
  .writes "authorizeOperator" [address] "" [authorizedOperator],
  .writes "revokeOperator" [address] "" [revokedOperator],
  .writes "send" [address, uint, "bytes"] "" [sent777],
  .writes "operatorSend" [address, address, uint, "bytes", "bytes"] "" [sent777],
  .writes "burn" [uint, "bytes"] "" [burned777],
  .writes "operatorBurn" [address, uint, "bytes", "bytes"] "" [burned777]]

def erc1155Core : List StandardFunction := [
  .writes "safeTransferFrom" [address, address, uint, uint, "bytes"] "" [transferSingle],
  .writes "safeBatchTransferFrom" [address, address, "uint256[]", "uint256[]", "bytes"] "" [],
  .reads "balanceOf" [address, uint] uint,
  .reads "balanceOfBatch" ["address[]", "uint256[]"] "uint256[]",
  .writes "setApprovalForAll" [address, "bool"] "" [approvalForAll],
  .reads "isApprovedForAll" [address, address] "bool"]

def erc1155Optional : List StandardFunction := [
  ⟨"onERC1155Received", [address, address, uint, uint, "bytes"], "bytes4", false, false, []⟩,
  ⟨"onERC1155BatchReceived", [address, address, "uint256[]", "uint256[]", "bytes"], "bytes4", false, false, []⟩,
  .reads "uri" [uint] "string" false]

def erc1155Functions : List StandardFunction := erc1155Core ++ erc165Functions ++ erc1155Optional

def erc2612Core : List StandardFunction := [
  .writes "permit" [address, address, uint, uint, "uint8", "bytes32", "bytes32"] "" [],
  .reads "nonces" [address] uint,
  .reads "DOMAIN_SEPARATOR" [] "bytes32"]

def erc1363Core : List StandardFunction := [
  .writes "transferAndCall" [address, uint] "bool" [],
  .writes "transferAndCall" [address, uint, "bytes"] "bool" [],
  .writes "transferFromAndCall" [address, address, uint] "bool" [],
  .writes "transferFromAndCall" [address, address, uint, "bytes"] "bool" [],
  .writes "approveAndCall" [address, uint] "bool" [],
  .writes "approveAndCall" [address, uint, "bytes"] "bool" []]

def erc4524Core : List StandardFunction := [
  .writes "safeTransfer" [address, uint] "bool" [],
  .writes "safeTransfer" [address, uint, "bytes"] "bool" [],
  .writes "safeTransferFrom" [address, address, uint] "bool" [],
  .writes "safeTransferFrom" [address, address, uint, "bytes"] "bool" []]

def erc4626Core : List StandardFunction := [
  .reads "asset" [] address,
  .reads "totalAssets" [] uint,
  .reads "convertToShares" [uint] uint,
  .reads "convertToAssets" [uint] uint,
  .reads "maxDeposit" [address] uint,
  .reads "previewDeposit" [uint] uint,
  .writes "deposit" [uint, address] uint [deposit4626],
  .reads "maxMint" [address] uint,
  .reads "previewMint" [uint] uint,
  .writes "mint" [uint, address] uint [deposit4626],
  .reads "maxWithdraw" [address] uint,
  .reads "previewWithdraw" [uint] uint,
  .writes "withdraw" [uint, address, address] uint [withdraw4626],
  .reads "maxRedeem" [address] uint,
  .reads "previewRedeem" [uint] uint,
  .writes "redeem" [uint, address, address] uint [withdraw4626]]

def all : List TokenStandard := [
  ⟨"ERC20", erc20Functions, [transfer20, approval20]⟩,
  ⟨"ERC223", erc223Functions, [transfer223]⟩,
  ⟨"ERC165", erc165Functions, []⟩,
  ⟨"ERC721", erc721Functions, [transfer721, approval721, approvalForAll]⟩,
  ⟨"ERC1820", erc1820Functions, []⟩,
  ⟨"ERC777", erc777Functions, [sent777, minted777, burned777, authorizedOperator, revokedOperator]⟩,
  ⟨"ERC1155", erc1155Functions, [transferSingle, transferBatch, approvalForAll, uri1155]⟩,
  ⟨"ERC2612", erc2612Core ++ erc20Functions, []⟩,
  ⟨"ERC1363", erc1363Core ++ erc20Functions ++ erc165Functions, []⟩,
  ⟨"ERC4524", erc4524Core ++ erc20Functions ++ erc165Functions, []⟩,
  ⟨"ERC4626", erc4626Core ++ erc20Functions, [deposit4626, withdraw4626]⟩]

def named? (name : String) : Option TokenStandard := all.find? (·.name == name)

def isMetBy (name : String) (signatures : List String) : Bool := (named? name).any (·.signatures.all signatures.contains)

end TokenStandard

namespace Standard

open Ir

/-! ## Conformance to token standards -/

section

variable (s : Seat) (a : Analysis) (f : StandardFunction) (e : StandardEvent)

structure Deviation where
  check : String
  description : String
  element : Element
  additional : List (String × Json) := []

def Deviation.of (p : Program) (check description : String) (s : Subject) (additional : List (String × Json) := []) :
    Result Deviation := do
  return { check, description, element := <- s.element p [], additional }

def eventSignature : String := e.name ++ "(" ++ ",".intercalate e.parameters ++ ")"

inductive Provider where
  | function (f : FunctionId)
  | getter (v : VariableId)

namespace Provider

def subject : Provider -> Subject
  | function f => .declared (.func f)
  | getter v => .declared (.var v)

def find? : Option Provider :=
  match s.functionBySignature? f.signature with
  | some g => some (function g)
  | none => (s.variableByName? f.name).bind fun v =>
    let visibility := (s.program.var v).visibility
    if (visibility == some "public" || visibility == some "external") && s.program.getterParameters v == f.parameters then
      some (getter v)
    else none

def results (p : Program) : Provider -> List String
  | function f => (p.function f).returns.map p.variableTypeText
  | getter v => p.getterResults v

def isView (p : Program) : Provider -> Bool
  | function f => (p.function f).view
  | getter _ => true

end Provider

def checkResults (p : Program) (f : StandardFunction) (x : Provider) : Result (List Deviation) := do
  let results := x.results p
  let actual := ",".intercalate results
  if actual == f.result then return []
  let shown : Json := if results.isEmpty then .null else .str actual
  return [<- Deviation.of p "incorrect_return_type" s!"\t[ ] {f.signature} -> ({actual}) should return {f.result}" x.subject
    [("expected_return_type", .str f.result), ("actual_return_type", shown)]]

def emits (name : String) (types : List String) (i : Instr) : Bool :=
  match i.op with
  | .call { kind := .event n, arguments := args, .. } =>
    n == name && types == args.map (OpStyle.plain a.program a.store false).typeOf
  | _ => false

def checkEmitted (x : Provider) : Inquiry (List Deviation) := do
  let mut found := []
  for e in f.events do
    match x with
    | .getter _ => throw (.lacks "StateVariable" "all_slithir_operations")
    | .function g =>
      if !(<- a.askOperations g).any fun i => emits a e.name e.parameters i.instr then
        match Deviation.of a.program "missing_event_emmited" ("\t[ ] Must emit be view " ++ eventSignature e) x.subject
          [("missing_event", .str (eventSignature e))] with
        | .ok d => found := found ++ [d]
        | .error fault => throw fault
  return found

def checkFunction : Inquiry (List Deviation) := do
  let p := s.program
  match Provider.find? s f with
  | none =>
    let optional := if f.required then "" else "(optional)"
    return [<- ofExcept (Deviation.of p "missing_function" s!"[ ] {f.signature} is missing {optional}" (.declared (.contract s.contract))
      [("function", .str f.signature), ("required", .bool f.required)])]
  | some x =>
    let results <- ofExcept (checkResults p f x)
    let view <- if f.view && !x.isView p then
        (do return [<- ofExcept (Deviation.of p "should_be_view" s!"\t[ ] {f.signature} should be view" x.subject)])
      else pure []
    return results ++ view ++ (<- checkEmitted s.unit f x)

def checkEvent : Result (List Deviation) := do
  let p := s.program
  let signature := eventSignature e
  match s.eventByFullName? signature with
  | none =>
    return [<- Deviation.of p "missing_event" s!"[ ] {signature} is missing" (.declared (.contract s.contract))
      [("event", .str signature)]]
  | some x =>
    let parameters := (p.event x).parameters
    let missing := e.indexed.zipIdx.filter fun (wanted, i) =>
      wanted && !((parameters[i]?.map fun v => (p.var v).indexed).getD false)
    missing.mapM fun (_, i) =>
      Deviation.of p "missing_event_index" s!"\t[ ] parameter {i} should be indexed" (.declared (.event x))
        [("missing_index", .int i)]

def family (p : Program) : Nat -> ContractId -> List ContractId
  | 0, c => [c]
  | fuel + 1, c => c :: (p.derivedContracts c).flatMap (family p fuel)

def checkAllowance : Result (List Deviation) := do
  let isThere := (s.functionBySignature? "increaseAllowance(address,uint256)").isSome
    || (s.functionBySignature? "safeIncreaseAllowance(address,uint256)").isSome
  if isThere then return []
  return [<- Deviation.of s.program "lack_of_erc20_race_condition_protection"
    s!"\t[ ] {s.name} is not protected for the ERC20 approval race condition" (.declared (.contract s.contract))]

def checkBatch : Inquiry (List Deviation) := do
  let events := [TokenStandard.transferSingle, TokenStandard.transferBatch]
  let mut named := 0
  let mut typed := 0
  if let some f := s.functionBySignature? "safeBatchTransferFrom(address,address,uint256[],uint256[],bytes)" then
    for e in events do
      for i in <- s.unit.askOperations f do
        if let .call { kind := .event n, .. } := i.instr.op then if n == e.name then named := named + 1
        if emits s.unit e.name e.parameters i.instr then typed := typed + 1
  if named == 1 && typed == 1 then return []
  return [<- ofExcept (Deviation.of s.program "erroneous_erc1155_safeBatchTransferFrom_event"
    "[ ] safeBatchTransferFrom must emit TransferSingle or TransferBatch" (.declared (.contract s.contract)))]

def conformance (standard : TokenStandard) (s : Seat) : Inquiry (List Deviation) := do
  let seats := (family s.program s.program.contracts.length s.contract).map fun c => { s with contract := c }
  let general <- seats.mapM fun s => do
    let functions <- standard.functions.mapM (checkFunction s)
    let events <- ofExcept (standard.events.mapM (checkEvent s))
    return functions.flatten ++ events.flatten
  let more <- if standard.name == "ERC20" then ofExcept (seats.mapM checkAllowance)
    else if standard.name == "ERC1155" then seats.mapM checkBatch
    else pure []
  return general.flatten ++ more.flatten

end

end Standard

end ContractAudit
