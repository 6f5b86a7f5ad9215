import ContractAudit.Reader.Members
import ContractAudit.Text.Wrap

/-! # Reading contracts

Each stage takes the bases of a contract before the contract, and is over for all contracts before the next one starts.
-/

namespace ContractAudit.Reader

open Ast hiding get require

open Load Text

/-! ## Functions and modifiers -/

inductive CodeKind where
  | functions | modifiers
  deriving DecidableEq

namespace CodeKind

variable (k : CodeKind)

def isModifier : Bool := k == modifiers

def of (d : ContractDraft) : CodeDraft :=
  match k with
  | functions => d.functions
  | modifiers => d.modifiers

def modify (u : CodeDraft -> CodeDraft) (d : ContractDraft) : ContractDraft :=
  match k with
  | functions => { d with functions := u d.functions }
  | modifiers => { d with modifiers := u d.modifiers }

def register (f : FunctionId) (p : Program) : Program :=
  match k with
  | functions => { p with allFunctions := p.allFunctions ++ [f] }
  | modifiers => { p with allModifiers := p.allModifiers ++ [f] }

def declared (p : Program) : ContractId -> List FunctionId :=
  match k with
  | functions => p.declaredFunctions
  | modifiers => p.declaredModifiers

def set (t : Table String FunctionId) (c : Contract) : Contract :=
  match k with
  | functions => { c with functions := t }
  | modifiers => { c with modifiers := t }

end CodeKind

variable (k : CodeKind) (c : ContractId)

def isMissing : Fault -> Bool
  | .missingKey _ | .unknownVariable _ => true
  | _ => false

def recovering (x : Load Unit) (caught : Fault -> Bool) (handle : Fault -> Load Unit) : Load Unit :=
  tryCatch x fun f => if caught f then handle f else throw f

def reportIncomplete (text : String) : Load Unit := do
  if (<- get).options.disallowPartial then throw (.parsing text)
  modifyContract c fun x => { x with incomplete := true }

def reportMissing (what : String) (x : Load Unit) (caught : Fault -> Bool := isMissing) : Load Unit :=
  recovering x caught fun f => reportIncomplete c s!"Missing {what} {f.message}"

/-! ## Heads of contracts -/

def versionIn? (comment : String) : Option String := do
  let mark := "@custom:version name="
  let at_ <- find? mark comment
  let rest := (comment.toList.drop (at_ + mark.length)).takeWhile fun c => isWordChar c || c == '-'
  if rest.isEmpty then none else some (.ofList rest)

def readComment (a : Json) : Load Unit := do
  let text? := match a.field? "documentation" with
    | some (.str s) => some s
    | some (.obj o) => (Json.lookup "text" o).map text
    | _ => none
  let some text := text? | return
  modifyContract c fun x => { x with comments := some text }
  for part in splitOn (replace text "\n" ",") "," do
    if contains part "@custom:security isDelegatecallProxy" then modifyContract c fun x => { x with proxy := some true }
    if contains part "@custom:security isUpgradeable" then modifyContract c fun x => { x with upgradeable := some true }
    if let some v := versionIn? part then modifyContract c fun x => { x with version := some v }

def eachBase (tree : Json) (list kind : String) (read : Json -> Load Unit) : Load Unit := do
  if let some bases := tree.field? list then
    for b in <- items bases do if isText (<- need b kind) "InheritanceSpecifier" then read b

def readBases (tree : Json) : Load Unit := do
  let add (number : Json) (position : Json) (calls : Bool) : Load Unit := do
    let some n := number.int? | return
    modifyContractDraft c fun d => { d with
      bases := d.bases ++ [(n, position)], baseCalls := if calls then d.baseCalls ++ [n] else d.baseCalls }
  if <- isCompact then
    eachBase tree "baseContracts" "nodeType" fun b => do
      if let some name := b.field? "baseName" then
        if let some number := name.field? "referencedDeclaration" then
          add number (<- need name "src") !((b.field? "arguments") matches none | some .null)
  else
    eachBase tree "children" "name" fun b => do
      if let some (.arr (name :: _)) := b.field? "children" then
        if isText (name.fieldOrNull "name") "UserDefinedTypeName" then
          if let some number := (name.fieldOrNull "attributes").field? "referencedDeclaration" then
            add number (<- need name "src") !(((b.fieldOrNull "attributes").field? "arguments") matches some .null)

def readRemapping (tree : Json) : Load Unit :=
  eachBase tree "baseContracts" "nodeType" fun b => do
    let name <- need b "baseName"
    let number <- need name "referencedDeclaration"
    let text <- need name "name"
    if let some n := number.int? then
      modifyContractDraft c fun d => { d with remapping := d.remapping.insert n (Ast.text text) }

def readContractItem (item : Json) : Load Unit := do
  let add (u : ContractDraft -> ContractDraft) : Load Unit := modifyContractDraft c u
  match <- kind item with
  | .str "FunctionDefinition" => add (CodeKind.functions.modify fun d => { d with trees := d.trees ++ [item] })
  | .str "EventDefinition" => add fun d => { d with events := d.events ++ [item] }
  | .str "InheritanceSpecifier" => pure ()
  | .str "VariableDeclaration" => add fun d => { d with vars := d.vars ++ [item] }
  | .str "EnumDefinition" => add fun d => { d with enums := d.enums ++ [item] }
  | .str "ModifierDefinition" => add (CodeKind.modifiers.modify fun d => { d with trees := d.trees ++ [item] })
  | .str "StructDefinition" => add fun d => { d with structs := d.structs ++ [item] }
  | .str "UsingForDirective" => add fun d => { d with usings := d.usings ++ [item] }
  | .str "ErrorDefinition" => add fun d => { d with errors := d.errors ++ [item] }
  | .str "UserDefinedValueTypeDefinition" =>
    let t <- readValueType (.contract c) item
    let name := ((<- program).valueType t).name
    let owner := (<- program).contract c
    modifyContract c fun x => { x with valueTypes := x.valueTypes.insert name t }
    modifyScope owner.scope fun s => { s with valueTypes := s.valueTypes.insert (owner.name ++ "." ++ name) t }
  | k => throw (.parsing ("Unknown contract item: " ++ text k))

def declareContract (scope : ScopeId) (tree : Json) : Load ContractId := do
  let a <- attributes tree
  let name := text (<- need a "name")
  let c <- modifyGet fun s => (s.program.contractTable.size,
    { s with
      program := { s.program with
        contractTable := s.program.contractTable.push { name, id := 0, scope } }
      contractDrafts := s.contractDrafts.push { tree := tree } })
  readComment c a
  let number <- need tree "id"
  modifyContract c fun x => { x with id := number.int?.getD 0 }
  if let some k := a.field? "contractKind" then
    modifyContract c fun x => { x with
      isInterface := isText k "interface", isLibrary := isText k "library", kind := textOrNull k }
  let implemented <- need a "fullyImplemented"
  modifyContract c fun x => { x with fullyImplemented := implemented }
  let linearized <- items (<- need a "linearizedBaseContracts")
  modifyContractDraft c fun d => { d with linearized := linearized.filterMap Json.int? }
  if let some abstract_ := a.field? "abstract" then modifyContract c fun x => { x with isAbstract := abstract_ }
  readBases c tree
  readRemapping c tree
  if let some items := tree.field? (if <- isCompact then "nodes" else "children") then
    for item in <- Ast.items items do readContractItem c item
  return c

/-! ## Inheritance -/

/-- A name that is not known stands for a file of its own. -/
def scopeOf (name : String) : Load ScopeId := do
  let p <- program
  match p.scopeNamed? name with
  | some i => return i
  | none =>
    let file := (p.files.find? fun f => f.name.short == name || f.name.absolute == name).elim ⟨name, name⟩ fun f => f.name
    modifyProgram fun p => { p with scopeTable := p.scopeTable.push { file := file } }
    return p.scopeTable.size

def resolveBase (name : String) : Load ContractId := do
  let p <- program
  let scope := p.scope (p.contract c).scope
  let imported <- scope.imports.foldlM (fun (found : Option ContractId) i => do
    let i := p.import_ i
    match i.renames.find? (some name) with
    | some n => return ((<- program).scope (<- scopeOf i.filename)).contracts.find? n
    | none => return found) none
  let t <- expect (imported.or (scope.contracts.find? name)) (.broken s!"Contract {name} not found")
  if t == c then
    let x := p.contract t
    let where_ := p.sourceText x.source
    throw (.inheritance ("Could not resolve contract inheritance. This is likely caused by an import renaming that " ++
      "collides with existing names (see https://github.com/crytic/slither/issues/1758)." ++
      s!"\n Try changing `contract {x.name}` ({where_}) to a unique name as a workaround." ++
      "\n Please share the source code that caused this error here: https://github.com/crytic/slither/issues/"))
  return t

def resolveInheritance : Load Unit := do
  let d <- contractDraft c
  let resolve (n : Int) : Load (Option ContractId) := do
    let some name := d.remapping.find? n | return (<- get).numbers.contracts.find? n
    some <$> resolveBase c name
  let split (xs : List (Int × Option ContractId)) := xs.filterMap (·.2)
  let missing (xs : List (Int × Option ContractId)) := (xs.filter (·.2.isNone)).map (·.1)
  let all <- (d.linearized.drop 1).mapM fun n => return (n, <- resolve n)
  let fathers <- d.bases.mapM fun (n, position) => do
    let t <- resolve n
    if let some t := t then refer (.contract t) (<- sourceOf position)
    return (n, t)
  let calls <- d.baseCalls.mapM fun n => return (n, <- resolve n)
  modifyContract c fun x => { x with
    inheritance := split all, immediateInheritance := split fathers, baseConstructors := split calls }
  let some n := (missing all ++ missing fathers ++ missing calls).getLast? | return
  if n == 0 then return
  modifyContract c fun x => { x with lacksBase := true }
  let p <- program
  let x := p.contract c
  let found := x.inheritance.map fun i =>
    let i := p.contract i
    s!"\t - {i.name} (ID {i.id})\n"
  let found := if found.isEmpty then "" else "Inheritance found:\n" ++ .join found
  reportIncomplete c (s!"Missing inheritance {x.name} ({p.name})\nMissing inheritance ID: {n}\n" ++ found)
  modifyContractDraft c fun d => { d with
    functions := {}, modifiers := {}, events := [], vars := [], enums := [], structs := [], usings := [], errors := [] }

/-- Takes the first contract of a queue if all its bases are done, and puts it back to the end if not. -/
def takeReady (bases : ContractId -> List ContractId) :
    Nat -> List ContractId -> List ContractId -> List ContractId
  | 0, _, _ => []
  | _, _, [] => []
  | fuel + 1, done, c :: rest =>
    if (bases c).all done.contains then c :: takeReady bases fuel (c :: done) rest
    else takeReady bases fuel done (rest ++ [c])

/-- Contracts in an order in which each comes after those it inherits from. Those that are `done` need not come. -/
def inOrder (p : Program) (done cs : List ContractId) : List ContractId :=
  takeReady (fun c => (p.contract c).inheritance) ((cs.length + 1) * (cs.length + 1)) done cs

/-! ## Enumerations, structures and variables -/

def inherit (order : List ContractId -> List ContractId) (take : Contract -> Contract -> Contract) : Load Unit := do
  for f in order ((<- program).contract c).inheritance do
    let father := (<- program).contract f
    modifyContract c (take · father)

def readContractEnums : Load Unit :=
  reportMissing c "enum" (do
    inherit c id fun x father => { x with enums := x.enums.update father.enums }
    for t in (<- contractDraft c).enums do
      let e <- readEnum (.contract c) t
      let name := ((<- program).enum e).canonicalName
      modifyContract c fun x => { x with enums := x.enums.insert name e })

def inheritVariables (p : Program) (x father : Contract) : Contract :=
  { x with
    vars := Table.update x.vars
      (.filter (fun v : String × VariableId => (p.var v.2).visibility != some "private") father.vars)
    variablesOrdered := addAllNew x.variablesOrdered father.variablesOrdered }

def declareStateVariables : Load Unit := do
  inherit c .reverse (inheritVariables (<- program))
  for t in (<- contractDraft c).vars do
    let source <- place t
    let v <- newVariable { kind := .state c, source }
    let _ <- declareVariable v t
    modifyContractDraft c fun d => { d with variableIds := d.variableIds ++ [v] }
    let name := ((<- program).var v).name
    require (name != "")
    if let some n := ((<- variableDraft v).reference.getD .null).int? then
      modifyContract c fun x => { x with variablesById := x.variablesById.insert n v }
    modifyContract c fun x => { x with
      vars := x.vars.insert name v, variablesOrdered := x.variablesOrdered ++ [v] }

def declareCode : Load Unit := do
  for t in (k.of (<- contractDraft c)).trees do
    let f <- declareFunction (.inContract c c) (some c) k.isModifier t
    modifyProgram (k.register f)
    modifyContractDraft c (k.modify fun d => { d with toDo := d.toDo ++ [f], ids := d.ids ++ [f] })
    registerFunction f

def declareMembers : Load Unit := do
  inherit c .reverse fun x father => { x with structs := x.structs.update father.structs }
  for t in (<- contractDraft c).structs do
    let s <- declareStruct (.contract c) t
    let name := ((<- program).struct s).name
    modifyContract c fun x => { x with structs := x.structs.insert name s }
    modifyContractDraft c fun d => { d with structIds := d.structIds ++ [s] }
  declareStateVariables c
  declareCode .modifiers c
  declareCode .functions c
  inherit c .reverse fun x father => { x with errors := x.errors.update father.errors }
  for t in (<- contractDraft c).errors do
    let e <- declareError (.contract c) t
    let name := ((<- program).error e).name
    modifyContract c fun x => { x with errors := x.errors.insert name e }
    modifyContractDraft c fun d => { d with errorIds := d.errorIds ++ [e] }

def readMembers : Load Unit := do
  for v in (<- contractDraft c).variableIds do
    if ((<- program).var v).isConstant then recovering (finishVariable v (.contract c)) isMissing fun _ => pure ()
  reportMissing c "struct" (do for s in (<- contractDraft c).structIds do readStructMembers s)
  reportMissing c "event" (do
    inherit c .reverse fun x father => { x with events := x.events.update father.events }
    for t in (<- contractDraft c).events do
      let e <- declareEvent (.contract c) t
      readEventParameters e
      let name := (<- program).eventFullName e
      modifyContract c fun x => { x with events := x.events.insert name e })
  for e in (<- contractDraft c).errorIds do readErrorParameters e

/-! ## Functions -/

/-- Elements by their full names, and the numbers of the declarations that were met. -/
structure Gathered where
  elements : Table String FunctionId := []
  numbers : List Int := []

def inheritFunction (f : FunctionId) (g : Gathered) : Load Gathered := do
  let p <- program
  let declarer := (p.functionDeclarer? f).getD c
  let copy <- declareFunction (.inContract c declarer) (some c) k.isModifier (<- functionDraft f).tree
  let number := (p.function f).id.bind fun n => if n == 0 then none else some n
  if number.any g.numbers.contains then return g
  let g := { g with numbers := g.numbers ++ number.toList }
  readFunctionHead copy
  modifyProgram (k.register copy)
  registerFunction copy
  modifyContractDraft c (k.modify fun d => { d with ids := d.ids ++ [copy] })
  return { g with elements := g.elements.insert ((<- program).functionCanonicalName copy) copy }

/-- Marks an element that cannot be reached by its name, and the one that hides it. -/
def markShadowed (accessible elements : Table String FunctionId) : Load Unit := do
  for e in elements.values do
    let p <- program
    let full := p.functionFullName e
    let a <- expect (accessible.find? full) (.missing full)
    if some a != elements.find? (p.functionCanonicalName e) then
      modifyFunction e fun fn => { fn with shadowed := true }
      modifyFunction a fun fn => { fn with shadows := true }

/-- Those that are read before a fault count. -/
def readHeads : Load Unit := do
  let start : Gathered := {}
  let rec inherit : List FunctionId -> Gathered -> Load (Gathered × Option Fault)
    | [], g => return (g, none)
    | f :: rest, g => do
      match <- attempt (inheritFunction k c f g) with
      | .ok g => inherit rest g
      | .error why => return (g, some why)
  let fathers := ((<- program).contract c).inheritance
  let drafts := (<- get).contractDrafts
  let theirs := fathers.flatMap fun f => (k.of (drafts.getD f default)).ids
  let (g, fault) <- inherit theirs start
  let finish : Load (Table String FunctionId × Option Fault) := do
    if let some f := fault then return (g.elements, some f)
    let p <- program
    match inheritedElements p c g.elements (k.declared p) with
    | .error f => return (g.elements, some f)
    | .ok accessible =>
      let toDo := (k.of (<- contractDraft c)).toDo
      match <- attempt (toDo.forM readFunctionHead) with
      | .error f => return (g.elements, some f)
      | .ok _ =>
        let p <- program
        let accessible := accessible.update (toDo.map fun f => (p.functionFullName f, f))
        let elements := g.elements.update (toDo.map fun f => (p.functionCanonicalName f, f))
        match <- attempt (markShadowed accessible elements) with
        | .error f => return (elements, some f)
        | .ok _ => return (elements, none)
  let (elements, fault) <- finish
  if let some f := fault then
    if !isMissing f then throw f
    let p <- program
    let where_ := (p.contract c).source.detailed p.lineMark
    reportIncomplete c s!"Missing params {f.message} {where_}"
  modifyContract c (k.set elements)

def isMissingOrUnread : Fault -> Bool
  | .parsing _ => true
  | f => isMissing f

/-- `topHeads` and `topContents` read the functions outside contracts, along with the first contract. -/
def readCode (topHeads topContents : Load Unit) (c : ContractId) : Load Unit := do
  readHeads .modifiers c
  readHeads .functions c
  topHeads
  reportMissing c "state variable" (do
    for v in (<- contractDraft c).variableIds do finishVariable v (.contract c))
  reportMissing c "modifier" (do for f in (<- contractDraft c).modifiers.ids do readFunctionContent f)
  reportMissing c "function" (do for f in (<- contractDraft c).functions.ids do readFunctionContent f) isMissingOrUnread
  topContents

end ContractAudit.Reader
