import ContractAudit.Reader.Unit
import ContractAudit.Vyper.Functions

/-! # Reading Vyper units

A module is a contract. The interfaces that it declares or imports are contracts of their own, and come first.
-/

namespace ContractAudit.Vyper

/-! ## Interfaces that come with the language -/

namespace Standard

def plain (name : String) : Term := .name {} name

def text : Term := .subscript {} (plain "String") (.index {} (.int {} "1"))

/-- Its number, name, parameters with types, result and what is said on its effects. -/
def function (number : Int) (name : String) (parameters : List (String × String)) (result : Term) (effect : String) :
    Item :=
  .function
    { site := { number := number }, name, result := some result
      parameters := parameters.map fun (name, type) => { name, typeTerm := plain type }
      body := [.expression {} (plain effect)] }

def tokenDetails : Item :=
  .interface {} "ERC20Detailed"
    [function (-1) "name" [] text "view", function (-1) "symbol" [] text "view",
      function (-1) "decimals" [] (plain "uint8") "view"]

def token : Item :=
  .interface { number := 1 } "ERC20"
    [function 2 "totalSupply" [] (plain "uint256") "view",
      function 9 "balanceOf" [("_owner", "address")] (plain "uint256") "view",
      function 19 "allowance" [("_owner", "address"), ("_spender", "address")] (plain "uint256") "view",
      function 32 "transfer" [("_to", "address"), ("_value", "uint256")] (plain "bool") "nonpayable",
      function 45 "transferFrom" [("_from", "address"), ("_to", "address"), ("_value", "uint256")] (plain "bool")
        "nonpayable",
      function 61 "approve" [("_spender", "address"), ("_value", "uint256")] (plain "bool") "nonpayable"]

/-- The interface of a name. Of some interfaces only the name is known. -/
def interface (name : String) : Result Item :=
  if name == "ERC20Detailed" then .ok tokenDetails
  else if name == "ERC20" then .ok token
  else if ["ERC165", "ERC721", "ERC4626"].contains name then .ok (.other "[]")
  else .error (.missing name)

end Standard

/-! ## Reading Vyper units -/

open Load

structure Outline where
  contract : ContractId
  functions : List FunctionItem := []
  events : List GroupItem := []
  vars : List VariableItem := []
  enums : List GroupItem := []
  structs : List GroupItem := []

structure Members where
  contract : ContractId
  structs : List (StructId × List Statement) := []
  vars : List (VariableId × VariableItem) := []
  events : List (EventId × List Statement) := []
  functions : List FunctionDraft := []

variable (c : ContractId) (x : GroupItem) (o : Outline)

/-! ## Contracts -/

variable (fuel : Nat) (scope : ScopeId)

def newContract (name : String) (number : Int) (isInterface : Bool) : Load ContractId := do
  let c := (<- program).contractTable.size
  let entry : Contract := { name := Path.stem name, id := number, scope, isInterface := isInterface
                            fullyImplemented := .bool false }
  modifyProgram fun p => { p with contractTable := p.contractTable.push entry }
  return c

/-- Interfaces are not among them. -/
def Outline.add : Item -> Result Outline
  | .function f => .ok { o with functions := o.functions ++ [f] }
  | .event e => .ok { o with events := o.events ++ [e] }
  | .variable_ v => .ok { o with vars := o.vars ++ [v] }
  | .enum e => .ok { o with enums := o.enums ++ [e] }
  | .struct s => .ok { o with structs := o.structs ++ [s] }
  | .imported .. | .implements => .ok o
  | .interface .. => .ok o
  | .other kind => .error (.badValue s!"('Unknown contract node: ', {kind})")

def importedItem? : Item -> Result (Option Item)
  | .imported package name => if package == "vyper.interfaces" then some <$> Standard.interface name else .ok none
  | _ => .ok none

def outlineInterface (site : Site) (name : String) (items : List Item) : Load Outline := do
  let source <- sourceOf (.str site.position)
  let c <- newContract scope name site.number true
  modifyContract c fun x => { x with source }
  let o <- lifted (items.foldlM Outline.add { contract := c })
  let name := ((<- program).contract c).name
  modifyScope scope fun s => { s with contracts := s.contracts.insert name c }
  return o

/-- Imported interfaces follow what the module itself declares. -/
def outlineModule (m : Module) : Load (List Outline) := do
  let c <- newContract scope m.name m.site.number false
  let mut own : Outline := { contract := c }
  let mut interfaces : List Outline := []
  let imported <- lifted (m.items.filterMapM importedItem?)
  for item in m.items ++ imported do
    match item with
    | .interface site name items => interfaces := interfaces ++ [<- outlineInterface scope site name items]
    | item => own <- own.add item
  let source <- sourceOf (.str m.site.position)
  modifyContract c fun x => { x with source }
  return interfaces ++ [own]

def readHeads (files : List Reader.InputFile) : Load (List Outline) := do
  let mut outlines : List Outline := []
  for file in files do
    let m <- Parser.ofJson (<- Ast.need file.tree "ast")
    match Reader.allMatches Reader.fileNumberAt? m.site.position.length m.site.position.toList with
    | [digits] =>
      let n <- Number.decimal (String.ofList digits)
      modify fun s => { s with fileNumbers := s.fileNumbers.insert n file.path }
    | _ => throw (.broken "Source unit not found")
    outlines := outlines ++ (<- outlineModule (<- Reader.scopeOf file.path) m)
  return outlines

/-! ## Declarations -/

def valueName : Statement -> Result String
  | .expression _ t => Lowering.nameOf t
  | .pass _ => .error (.lacks "Pass" "value")
  | s => .error (.lacks s.kindName "id")

def declareEnum : Load Unit := do
  let owner := ((<- program).contract c).name
  let values <- lifted (x.body.mapM valueName)
  let source <- sourceOf (.str x.site.position)
  let e := (<- program).enumTable.size
  let entry : EnumDecl := { owner := .contract c, name := x.name, canonicalName := s!"{owner}.{x.name}"
                            source := source, values }
  modifyProgram fun p => { p with enumTable := p.enumTable.push entry }
  modifyContract c fun y => { y with enums := y.enums.insert x.name e }

/-- Other contracts of the file see it, too. -/
def declareStruct : Load (StructId × List Statement) := do
  let y := (<- program).contract c
  let source <- sourceOf (.str x.site.position)
  let s <- newStruct { owner := .contract c, name := x.name, canonicalName := x.name ++ y.name, source }
  modifyContract c fun y => { y with structs := y.structs.insert x.name s }
  modifyScope y.scope fun f => { f with structs := f.structs.insert x.name s }
  return (s, x.body)

/-- Other contracts of the file see it, too. -/
def declareField (x : VariableItem) : Load (VariableId × VariableItem) := do
  let source <- sourceOf (.str x.site.position)
  let name <- Lowering.nameOf x.target
  let v <- newVariable { kind := .state c, name, source, isConstant := x.isConstant
                         isImmutable := x.isImmutable, initialized := x.value.isSome
                         visibility := some (if x.isPublic then "public" else "internal") }
  require (name != "")
  modifyContract c fun y => { y with
    vars := y.vars.insert name v, variablesOrdered := y.variablesOrdered ++ [v] }
  let scope := ((<- program).contract c).scope
  modifyScope scope fun f => { f with vars := f.vars.insert name v }
  return (v, x)

def declareEvent : Load (EventId × List Statement) := do
  let source <- sourceOf (.str x.site.position)
  let e := (<- program).eventTable.size
  let entry : Event := { owner := .contract c, name := x.name, source }
  modifyProgram fun p => { p with eventTable := p.eventTable.push entry }
  modifyContract c fun y => { y with events := y.events.insert (x.name ++ "()") e }
  return (e, x.body)

def declareMembers : Load Members := do
  let c := o.contract
  modifyProgram fun p => { p with contracts := p.contracts ++ [c] }
  for e in o.enums do declareEnum c e
  let structs <- o.structs.mapM (declareStruct c)
  let vars <- o.vars.mapM (declareField c)
  let events <- o.events.mapM (declareEvent c)
  let functions <- o.functions.mapM (declareFunction c)
  return { contract := c, structs, vars, events, functions }

/-! ## Types and code -/

def readField (c : ContractId) (v : VariableId) (x : VariableItem) : Load Unit := do
  let r : Reading := { scope := .contract c }
  let t <- readType fuel r x.typeTerm
  modifyVariable v fun y => { y with type := some t }
  if let some value := x.value then
    let e <- readTerm fuel r value
    modifyVariable v fun y => { y with expr := some e }

def newTyped (c : ContractId) (x : Variable) (typeTerm : Term) : Load VariableId := do
  let v <- newVariable x
  let t <- readType fuel { scope := .contract c } typeTerm
  modifyVariable v fun y => { y with type := some t }
  return v

def readMember (c : ContractId) (s : StructId) : Statement -> Load Unit
  | .declare site target typeTerm _ => do
    let source <- sourceOf (.str site.position)
    let name <- Lowering.nameOf target
    addMember s name (<- newTyped fuel c { kind := .structMember s, name, source } typeTerm)
  | s => throw (.lacks s.kindName "target")

def isIndexed : Term -> Result Bool
  | .call _ func _ _ => do return (<- Lowering.nameOf func) == "indexed"
  | _ => .ok false

def readEventParameter (c : ContractId) (e : EventId) : Statement -> Load Unit
  | .declare site target typeTerm _ => do
    let source <- sourceOf (.str site.position)
    let name <- Lowering.nameOf target
    let indexed <- isIndexed typeTerm
    let v <- newTyped fuel c { kind := .eventParameter, name, source, indexed } typeTerm
    modifyProgram (·.modifyEvent e fun x => { x with parameters := x.parameters ++ [v] })
  | .pass _ => pure ()
  | _ => throw (.broken "")

def readMembers (m : Members) : Load Unit := do
  let c := m.contract
  for (s, body) in m.structs do for x in body do readMember fuel c s x
  for (e, body) in m.events do for x in body do readEventParameter fuel c e x
  let fields <- lifted (m.vars.mapM fun (_, x) => do return (<- Lowering.nameOf x.target, x.typeTerm))
  let env <- environment fields
  let functions <- m.functions.mapM (readHead env)
  let defaults := functions.map fun f => (f.id, f.item.defaults)
  for f in functions do readContent env defaults c f

def readContents (all : List Members) : Load Unit := do
  let fuel := (<- get).bound
  for m in all do for (v, x) in m.vars do readField fuel m.contract v x
  for m in all do readMembers fuel m

end ContractAudit.Vyper
