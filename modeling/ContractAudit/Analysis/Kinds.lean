import ContractAudit.Naming
import ContractAudit.Standard.Conformance

/-! # Kinds of contracts and shapes of code -/

namespace ContractAudit

open Ir Text Naming

namespace Program

variable (p : Program) (c : ContractId)

def openSignatures : Result (List String) := do
  let x := p.contract c
  let isPublic (v : Option String) : Bool := v == some "public" || v == some "external"
  let vars := (x.vars.values.filter fun v => isPublic (p.var v).visibility).map p.getterSignature
  let functions <- x.functions.values.filterM (Analysis.isOpen p)
  return (vars ++ functions.map p.functionFullName).eraseDups

def standards : Result (List String) := do
  let signatures <- p.openSignatures c
  return ["ERC20", "ERC165", "ERC1820", "ERC223", "ERC721", "ERC777", "ERC2612", "ERC1363", "ERC4626"].filter
    (TokenStandard.isMetBy · signatures)

def isToken : Result Bool := do
  let signatures <- p.openSignatures c
  return ["ERC20", "ERC721", "ERC165", "ERC223", "ERC777", "ERC1155"].any fun name => TokenStandard.isMetBy name signatures

def mayBeErc20 : Result Bool := do
  let signatures <- p.openSignatures c
  return ["transfer(address,uint256)", "transferFrom(address,address,uint256)",
    "approve(address,uint256)"].any signatures.contains

def mayBeErc721 : Result Bool := do
  let signatures <- p.openSignatures c
  return ["ownerOf(uint256)", "safeTransferFrom(address,address,uint256,bytes)",
    "safeTransferFrom(address,address,uint256)", "setApprovalForAll(address,bool)", "getApproved(uint256)",
    "isApprovedForAll(address,address)"].any signatures.contains

def mayBeToken : Result Bool := do return (<- p.mayBeErc20 c) || (<- p.mayBeErc721 c)

def isUpgradeable : Bool :=
  let x := p.contract c
  match x.upgradeable with
  | some b => b
  | none =>
    match (p.scope x.scope).contracts.find? "Initializable" with
    | some i => x.inheritance.contains i
    | none => (x.inheritance ++ [c]).any fun d =>
      let name := (p.contract d).name.toLower
      ["upgradeable", "upgradable", "initializable"].any (contains name)

def testWords : List String := ["Test", "test", "Mock", "mock", "Tests", "tests", "Mocks", "mocks"]

def isTest : Bool :=
  let x := p.contract c
  let path := x.source.file.absolute
  hasTestWord x.name "Test" || hasTestWord x.name "Mock" || (path != "" && (Path.parts path).any testWords.contains)

def isSignatureOnly : Bool := (p.contract c).functions.values.all fun f => (p.function f).implemented != some true

end Program

namespace Analysis

def codeNames (word : String) : Json -> Bool
  | .str s => contains s word
  | .obj fields => fields.any fun (k, _) => k == word
  | _ => false

def delegates (a : Analysis) (f : FunctionId) (n : NodeId) : Bool :=
  ((a.instrs f n).any fun i => if let .call { kind := .lowLevel _ name, .. } := i.op then name.render == "delegatecall"
    else false) ||
  ((a.flow f).kind n == .assembly && ((a.flow f).node n).code.any (codeNames "delegatecall"))

def isProxy (a : Analysis) (c : ContractId) : Bool :=
  let x := a.program.contract c
  match x.proxy with
  | some b => b
  | none => contains x.name "Proxy" ||
    x.functions.values.any fun f =>
      a.program.isFallback f && (a.withCallees f).any fun g => (a.nodeIds g).any (a.delegates g)

end Analysis

/-! ## Shapes of code -/

namespace Program

def shapeName (p : Program) : Ty -> String
  | .array t n => match t with
    | .elementary _ => p.typeText (.array t n)
    | _ => "user_defined_array"
  | .contract c => s!"contract({(p.contract c).name})"
  | .struct s => s!"struct({(p.struct s).name})"
  | .enum e => s!"enum({(p.enum e).name})"
  | t => p.typeText t

def shapeOfText (text : String) : String :=
  let text := replace (replace text " memory" "") " storage ref" ""
  (["struct", "enum", "tuple", "contract", "mapping"].find? (contains text)).getD (replace text " " "_")

def typeShape (p : Program) (t : Ty) : String := shapeOfText (p.shapeName t)

def typingShape (p : Program) : ValueTyping -> String
  | .one t => p.typeShape t
  | .function f => shapeOfText (p.functionName f)
  | .several ts => shapeOfText (bracketed (ts.map fun
    | .type t => p.typeText? t
    | .value _ => ""))
  | .unknown => "None"

end Program

namespace Analysis

variable (a : Analysis)

def slotText (v : VariableId) : String :=
  let p := a.program
  let name := (p.var v).name
  (p.stateOwner? v).elim name fun c =>
    if p.isStored v then
      match p.positionIn a.layouts c v with
      | .ok at_ => toString at_.slot
      | .error _ => name
    else name

def valueShape (v : Value) : Result String := do
  let p := a.program
  match v with
  | .constant c => return s!"constant({p.typeShape (.elementary c.type)},{c.render})"
  | .target (.member n) => return s!"solidity_variable_composed({n})"
  | .target (.builtin n) => return s!"solidity_variable{n}"
  | .temporary _ => return "temporary_variable"
  | .reference i | .versionReference i => return s!"reference({p.typingShape (a.store.reference i).typing})"
  | .tuple _ => return "tuple_variable"
  | v =>
    let some x := Program.variableOf? a.store v | return ""
    let shape := p.typingShape (.ofOption (p.var x).type)
    if p.isLocalVariable x then return "local_solc_variable(" ++ shape ++ "," ++ ((p.var x).location.getD "None") ++ ")"
    else if p.isStateVariable x then return s!"state_solc_variable({shape},{a.slotText x})"
    else return ""

def callShape (c : Call) : Result String := do
  match c.kind with
  | .newStruct _ => return "new_structure"
  | .newContract _ => return "new_contract"
  | .newArray t => return s!"new_array({a.program.typeShape t})"
  | .newElementary t => return s!"new_elementary({a.program.typeShape (.elementary t)})"
  | .builtin f => return s!"solidity_call({a.program.targetText f})"
  | .internal .. => return s!"internal_call({Program.shapeOfText c.typeText})"
  | .event _ => return "event"
  | .library .. => return "library_call"
  | .dynamic .. => return "internal_dynamic_call"
  | .highLevel .. => return "high_level_call"
  | .lowLevel .. => return "low_level_call"
  | .transfer _ v => return s!"transfer({<- a.valueShape v})"
  | .send _ v => return s!"send({<- a.valueShape v})"

def opShape (op : Op) : Result String := do
  match op with
  | .assign r v => return s!"({<- a.valueShape r}):=({<- a.valueShape v})"
  | .index _ _ r => return s!"index({a.program.typingShape (<- a.program.typing a.store r)})"
  | .member .. => return "member"
  | .length .. => return "length"
  | .binary _ o l r => return s!"binary({<- a.valueShape l}{o.sign}{<- a.valueShape r})"
  | .unary _ o _ => return s!"unary({o.sign})"
  | .condition v => return s!"condition({<- a.valueShape v})"
  | .delete r v => return s!"delete({<- a.valueShape r},{<- a.valueShape v})"
  | .conversion _ _ t => return s!"type_conversion({a.program.typeShape t})"
  | .returns _ => return "return"
  | .unpack .. => return "unpack"
  | .initArray .. => return "init_array"
  | .call c => a.callShape c
  | .codeSize .. | .phi .. | .phiCallback .. | .nop => return ""

def nodeShape (f : FunctionId) (n : NodeId) : Result (List String) := (a.instrs f n).mapM (a.opShape ·.op)

end Analysis

end ContractAudit
