import ContractAudit.Reader.Usings

/-! # Reading compilation units -/

namespace ContractAudit.Reader

open Load Ast

structure InputFile where
  path : String
  text : String
  tree : Json

structure Input where
  name : String
  version : String
  language : Language := .solidity
  files : List InputFile

/-! ## Declarations outside contracts -/

variable (p : Program) (scope : ScopeId) (tree : Json)

def readRenames (i : ImportId) (tree : Json) : Load Unit := do
  for a in <- items tree do
    if (<- has a "foreign") && (<- has a "local") then
      let new <- need a "local"
      match <- need a "foreign" with
      | .obj o =>
        match Json.lookup "name" o with
        | some n =>
          let new := textOrNull new
          let n := text n
          modifyProgram (·.modifyImport i fun x => { x with renames := x.renames.insert new n })
          if let some new := new then modifyScope scope fun s => { s with renames := s.renames.insert new n }
        | none => fail new
      | _ => fail new
where
  fail (new : Json) : Load Unit := do
    if new.truthy then
      throw (.analysis ("Cannot resolve local alias for import directive due to malformed AST. " ++
        "Please upgrade to solc 0.6.0 or higher."))

def readImport : Load Unit := do
  let number <- need tree "id"
  let compact <- isCompact
  let a <- attributes tree
  let path <- if compact then need a "absolutePath" else pure ((a.field? "absolutePath").getD (.str ""))
  let filename := Path.normal (text path)
  let i := (<- program).importTable.size
  let entry : Import := { filename, scope := scope }
  modifyProgram fun p => { p with importTable := p.importTable.push entry }
  modifyScope scope fun s => { s with imports := s.imports ++ [i] }
  if let some name := a.field? "unitAlias" then
    modifyProgram (·.modifyImport i fun x => { x with aliasName := textOrNull name })
  if compact then if let some names := a.field? "symbolAliases" then readRenames scope i names
  let source <- place tree
  modifyProgram (·.modifyImport i fun x => { x with source })
  if let some n := number.int? then
    modify fun s => { s with numbers := { s.numbers with imports := s.numbers.imports.insert n i } }
  let imported <- scopeOf filename
  modifyScope scope fun s => { s with accessible := s.accessible ++ [imported] }

def readPragma : Load Unit := do
  let literals <- items (<- need (<- attributes tree) "literals")
  let i := (<- program).pragmaTable.size
  let source <- place tree
  let entry : PragmaDirective := { literals := literals.map text, scope, source }
  modifyProgram fun p => { p with pragmaTable := p.pragmaTable.push entry }
  modifyScope scope fun s => { s with pragmas := s.pragmas ++ [i] }

def number (f : Int -> Numbers -> Numbers) : Load Unit := do
  if let some n := (<- need tree "id").int? then modify fun s => { s with numbers := f n s.numbers }

def readTopLevel (file : String) (scope : ScopeId) (tree : Json) : Load Unit := do
  match <- kind tree with
  | .str "ContractDefinition" =>
    let c <- declareContract scope tree
    let name := ((<- program).contract c).name
    modifyScope scope fun s => { s with contracts := s.contracts.insert name c }
    if tree.has "src" then
      let source <- place tree
      modifyContract c fun x => { x with source }
    modify fun s => { s with order := s.order ++ [c] }
  | .str "PragmaDirective" => readPragma scope tree
  | .str "UsingForDirective" =>
    let u <- declareUsing scope tree
    modifyScope scope fun s => { s with usings := s.usings ++ [u] }
    modifyProgram fun p => { p with usings := p.usings ++ [u] }
  | .str "ImportDirective" => readImport scope tree
  | .str "StructDefinition" =>
    let st <- declareStruct (.topLevel scope) tree
    let name := ((<- program).struct st).name
    modifyScope scope fun s => { s with structs := s.structs.insert name st }
    modifyProgram fun p => { p with structs := p.structs ++ [st] }
    number tree fun n x => { x with structs := x.structs.insert n st }
  | .str "EnumDefinition" =>
    let scope <- scopeOf file
    let e <- readEnum (.topLevel scope) tree
    let name := ((<- program).enum e).name
    modifyProgram fun p => { p with enums := p.enums ++ [e] }
    modifyScope scope fun s => { s with enums := s.enums.insert name e }
    number tree fun n x => { x with enums := x.enums.insert n e }
  | .str "VariableDeclaration" =>
    let v <- newVariable { kind := .topLevel scope }
    let _ <- declareVariable v tree
    let source <- place tree
    modifyVariable v fun x => { x with source }
    modifyProgram fun p => { p with vars := p.vars ++ [v] }
    let name := ((<- program).var v).name
    modifyScope scope fun s => { s with vars := s.vars.insert name v }
    number tree fun n x => { x with vars := x.vars.insert n v }
  | .str "FunctionDefinition" =>
    let f <- declareFunction (.topLevel scope) none false tree
    modifyScope scope fun s => { s with functions := s.functions ++ [f] }
    modifyProgram fun p => { p with functions := p.functions ++ [f] }
    registerFunction f
  | .str "ErrorDefinition" =>
    let e <- declareError (.topLevel scope) tree
    modifyScope scope fun s => { s with errors := s.errors ++ [e] }
    modifyProgram fun p => { p with errors := p.errors ++ [e] }
    number tree fun n x => { x with errors := x.errors.insert n e }
  | .str "UserDefinedValueTypeDefinition" =>
    let t <- readValueType (.topLevel scope) tree
    let name := ((<- program).valueType t).name
    modifyProgram fun p => { p with valueTypes := p.valueTypes.insert name t }
    modifyScope scope fun s => { s with valueTypes := s.valueTypes.insert name t }
    number tree fun n x => { x with valueTypes := x.valueTypes.insert n t }
  | .str "EventDefinition" =>
    let e <- declareEvent (.topLevel scope) tree
    modifyScope scope fun s => { s with events := s.events ++ [e] }
    modifyProgram fun p => { p with events := p.events ++ [e] }
    number tree fun n x => { x with events := x.events.insert n e }
  | k => throw (.analysis s!"Top level {Ast.text k} not supported")

/-! ## Files -/

def fileNumberAt? (cs : List Char) : Option (List Char × List Char) :=
  match spanDigits cs with
  | (_, ':' :: rest) =>
    match spanDigits rest with
    | (_, ':' :: rest) => some (spanDigits rest)
    | _ => none
  | _ => none

def fileNumber? : Result (Option Int) :=
  match tree.field? "src" with
  | some (.str s) =>
    match allMatches fileNumberAt? s.length s.toList with
    | [digits] => some <$> Number.decimal (.ofList digits)
    | _ => .ok none
  | _ => .ok none

def exportedNumbers : List Int :=
  let a := if tree.has "nodeType" then tree else tree.fieldOrNull "attributes"
  if let .obj fields := a.fieldOrNull "exportedSymbols" then fields.flatMap fun (_, v) => (v.arr?.getD []).filterMap Json.int?
    else []

/-- `known` is the number of files that were read before. -/
def readFile (known : Nat) (file : InputFile) : Load Unit := do
  let tree := file.tree
  if !tree.truthy then return
  if <- has tree "nodeType" then modify fun s => { s with compact := true }
  let k <- kind tree
  if !isText k "SourceUnit" then return
  let n := (<- fileNumber? tree).getD known
  modify fun s => { s with fileNumbers := s.fileNumbers.insert n file.path }
  let some items := tree.field? (if <- isCompact then "nodes" else "children") | return
  let scope <- scopeOf file.path
  let exported := exportedNumbers tree
  modifyScope scope fun s => { s with exported := addAllNew s.exported exported }
  for t in <- Ast.items items do readTopLevel file.path scope t

/-! ## Scopes -/

def keysIn {α β : Type} (a : Table String α) (b : Table String β) : Bool := a.keys.all (b.has ·)

def FileScope.learn (s other : FileScope) : FileScope :=
  { s with
    usings := addAllNew s.usings other.usings
    valueTypes := if keysIn other.valueTypes s.valueTypes then s.valueTypes else s.valueTypes.update other.valueTypes
    functions := addAllNew s.functions other.functions
    exported := addAllNew s.exported other.exported
    renames := if keysIn other.renames s.renames then s.renames else s.renames.update other.renames }

/-- Whether a scope has nothing to learn from another. -/
def FileScope.knows (s other : FileScope) : Bool :=
  other.usings.all s.usings.contains && keysIn other.valueTypes s.valueTypes && other.functions.all s.functions.contains &&
    other.exported.all s.exported.contains && keysIn other.renames s.renames

/-- Which scopes learn from which. -/
def accesses (scopes : Array FileScope) : List (ScopeId × ScopeId) :=
  (List.range scopes.size).flatMap fun i => (scopes.getD i default).accessible.map (i, ·)

def tell (scopes : Array FileScope) (e : ScopeId × ScopeId) : Array FileScope :=
  scopes.modify e.1 (FileScope.learn · (scopes.getD e.2 default))

def spreadScopes (scopes : Array FileScope) : Array FileScope := (accesses scopes).foldl tell scopes

def isSettled (scopes : Array FileScope) : Bool :=
  (accesses scopes).all fun (i, j) => FileScope.knows (scopes.getD i default) (scopes.getD j default)

def settleScopes : Nat -> Array FileScope -> Array FileScope
  | 0, scopes => scopes
  | rounds + 1, scopes => if isSettled scopes then scopes else settleScopes rounds (spreadScopes scopes)

/-- In each round some scope learns all that another one knew at first, which bounds their number. -/
def settledScopes (scopes : Array FileScope) : Array FileScope := settleScopes (scopes.size * scopes.size + 1) scopes

def addExported (numbers : Numbers) (s : FileScope) (n : Int) : Result FileScope := do
  if let some c := numbers.contracts.find? n then return { s with contracts := s.contracts.insert (p.contract c).name c }
  if let some fs := numbers.functions.find? n then
    if let [f] := fs then return { s with functions := addNew f s.functions } else throw (.broken "")
  if let some i := numbers.imports.find? n then return { s with imports := addNew i s.imports }
  if let some v := numbers.vars.find? n then return { s with vars := s.vars.insert (p.var v).name v }
  if let some e := numbers.events.find? n then return { s with events := addNew e s.events }
  if let some t := numbers.structs.find? n then return { s with structs := s.structs.insert (p.struct t).name t }
  if let some t := numbers.valueTypes.find? n then
    return { s with valueTypes := s.valueTypes.insert (p.valueType t).name t }
  if let some e := numbers.enums.find? n then return { s with enums := s.enums.insert (p.enum e).name e }
  if let some e := numbers.errors.find? n then return { s with errors := addNew e s.errors }
  return s

def completeScopes : Load Unit := do
  let s <- get
  let scopes <- lifted ((settledScopes s.program.scopeTable).mapM fun (x : FileScope) =>
    (x.exported.mergeSort fun a b => decide (a ≤ b)).foldlM (addExported s.program s.numbers) x)
  modifyProgram fun p => { p with scopeTable := scopes }

def registerContracts : Load Unit := do
  for c in (<- get).order do
    let x := (<- program).contract c
    if Text.startsWith x.name "SlitherInternalTopLevelContract" then
      throw (.fatal ("Your codebase has a contract named 'SlitherInternalTopLevelContract'.\n" ++
        "        Please rename it, this name is reserved for Slither's internals"))
    modify fun s => { s with numbers := { s.numbers with contracts := s.numbers.contracts.insert x.id c } }
    modifyProgram fun p => { p with contracts := p.contracts ++ [c] }

/-! ## Units -/

def readHeadsOfUnit (known : List String) (files : List InputFile) : Load Unit := do
  let mut seen := known
  for file in files do
    readFile seen.length file
    seen := addNew file.path seen
  registerContracts
  completeScopes

def failing (x : Load Unit) (text : String -> String) : Load Unit :=
  recovering x isMissing fun f => throw (.analysis (text f.message))

def readTopLevelMembers : Load Unit := do
  failing (do for v in (<- program).vars do finishVariable v (.variable_ v))
    fun e => s!"Missing {e} during variable analyze"
  failing (do for s in (<- program).structs do readStructMembers s)
    fun e => s!"Missing struct {e} during top level structure analyze"
  failing (do for e in (<- program).events do readEventParameters e)
    fun e => s!"Missing event {e} during top level event analyze"

def readTopLevelHeads : Load Unit := do
  for f in (<- program).functions do
    readFunctionHead f
    modifyProgram fun p => { p with allFunctions := addNew f p.allFunctions }
  for e in (<- program).errors do readErrorParameters e

def readTopLevelContents : Load Unit :=
  failing (do for f in (<- program).functions do readFunctionContent f)
    fun e => s!"Missing {e} during top level function analyze"

/-- The orders in which contracts are read: their enumerations, the rest, and the directives at the end. -/
structure Orders where
  enums : List ContractId
  libraries : List ContractId
  others : List ContractId
  usings : List ContractId

def ofLibraryKind (c : ContractId) : Bool := (p.contract c).kind == some "library"

def Orders.of (all : List ContractId) : Orders :=
  let libraries := all.filter (ofLibraryKind p)
  let others := all.filter (!ofLibraryKind p ·)
  { enums := inOrder p (all.filter fun c => (p.contract c).lacksBase) all, libraries, others := inOrder p libraries others
    usings := libraries ++ inOrder p [] others }

def readContracts : Load Unit := do
  let all := (<- get).order
  for c in all do resolveInheritance c
  let o := Orders.of (<- program) all
  for c in o.enums do readContractEnums c
  for c in o.libraries ++ o.others do declareMembers c
  for c in o.libraries do readMembers c
  readTopLevelMembers
  for c in o.others do readMembers c
  for c in o.libraries ++ o.others do readCode readTopLevelHeads readTopLevelContents c
  for u in (<- program).usings do readUsing u
  for c in o.usings do readContractUsings c
  settleUsings o.usings

def State.initial (options : Options) (lineMark : String) (unit : Input) : State :=
  { options := options
    program := { name := unit.name, version := unit.version, language := unit.language, lineMark := lineMark
                 files := unit.files.map fun f => .ofText ⟨f.path, "/w/" ++ f.path⟩ f.text }
    bound := 20 * (unit.files.foldl (fun n f => n + weight f.tree) 1) + 100 }

end ContractAudit.Reader
