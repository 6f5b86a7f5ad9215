import ContractAudit.Reader.Assembly

/-! # Reading statements

Variables are declared on the way. The first fault ends the reading and stays in its place.
-/

namespace ContractAudit.Reader

open Ast hiding get require

open Load

variable (f : FunctionId) (tree : Json)

def addLocal (v : VariableId) : Load Unit := do
  let p <- program
  let name := (p.var v).name
  if name != "" then
    let known := (p.function f).vars.values.map fun x => (p.var x).name
    let (name, k) := freshName known (known.length + 1) name (<- functionDraft f).renamed
    modifyVariable v fun x => { x with name }
    modifyFunctionDraft f fun d => { d with renamed := k }
  let reference := (<- variableDraft v).reference.getD .null
  require reference.truthy
  if let some n := reference.int? then modifyFunctionDraft f fun d => { d with byReference := d.byReference.insert n v }
  let name := ((<- program).var v).name
  modifyFunction f fun fn => { fn with vars := fn.vars.insert name v }
  modifyFunctionDraft f fun d => { d with locals := d.locals ++ [v] }

def addParameter (initialized : Bool) : Load VariableId := do
  let source <- place tree
  let v <- newVariable { kind := .inFunction (some f) none, source }
  let _ <- declareVariable v tree
  finishVariable v (.function f)
  modifyVariable v fun x => { x with
    initialized := x.initialized || initialized
    location := if x.location == some "default" then some "memory" else x.location }
  addLocal f v
  return v

/-- A statement that declares several gives nothing. -/
def addDeclared (component : Option Nat) : Load (Option VariableId) := do
  let source <- place tree
  let v <- newVariable { kind := .inFunction (some f) component, source }
  if <- declareVariable v tree then
    addLocal f v
    return some v
  else return none

structure ForParts where
  init : Option Json
  condition : Option Json
  step : Option Json
  body : Json

def positionNumber (i : Nat) : Result Int := do
  let s <- textFor "split" (<- need tree "src")
  ((Text.splitOn s ":")[i]?).elim (throw .outOfRange) Number.decimal

/-- Told apart by what they are and by what the attributes say to be missing. -/
def legacyForParts : Result ForParts := do
  let children <- items (<- need tree "children")
  Ast.require (1 ≤ children.length && children.length ≤ 4)
  let body := children.getLast?.getD .null
  let parts (a b c : Option Json) : ForParts := ⟨a, b, c, body⟩
  match children with
  | [a, b, c, _] => return parts (some a) (some b) (some c)
  | [_] => return parts none none none
  | _ =>
    let first := children.headD .null
    let second := children[1]?.getD .null
    let attributes <- Ast.get tree "attributes"
    let missing (key : String) : Bool := ((attributes.getD .null).field? key).any fun v => !v.truthy
    let hinted := (attributes.getD .null).truthy && ["condition", "initializationExpression", "loopExpression"].any missing
    if hinted then
      if children.length == 2 then
        if !missing "initializationExpression" then return parts (some first) none none
        else if !missing "condition" then return parts none (some first) none
        else return parts none none (some first)
      else if missing "initializationExpression" then return parts none (some first) (some second)
      else if missing "condition" then return parts (some first) none (some second)
      else return parts (some first) (some second) none
    else
      let firstKind <- need first "name"
      let secondKind <- need second "name"
      if isDeclarationStatement firstKind then
        if children.length == 2 then return parts (some first) none none
        else if isText secondKind "ExpressionStatement" then return parts (some first) none (some second)
        else return parts (some first) (some second) none
      else if isText firstKind "ExpressionStatement" then
        if children.length == 2 then
          let length <- positionNumber first 1
          let start <- positionNumber first 0
          let forStart := (<- positionNumber tree 0) + 3
          let bodyStart <- positionNumber body 0
          if start - forStart > bodyStart - (start + length) then return parts none none (some first)
          else return parts (some first) none none
        else return parts (some first) (some second) none
      else if children.length == 2 then return parts none (some first) none
      else return parts none (some first) (some second)

def forParts : Load ForParts := do
  if <- isCompact then
    let body <- need tree "body"
    let get (key : String) : Option Json := (tree.field? key).filter (·.truthy)
    return ⟨get "initializationExpression", get "condition", get "loopExpression", body⟩
  else
    let p <- legacyForParts tree
    return { p with init := p.init.filter (·.truthy), condition := p.condition.filter (·.truthy)
                    step := p.step.filter (·.truthy) }

def identifierTree (name position number type : Json) : Json :=
  .obj [("nodeType", .str "Identifier"), ("src", position), ("name", name),
    ("referencedDeclaration", number), ("typeDescriptions", type)]

def definitionTree (variable_ : Json) (init : Option Json) : Result Json := do
  return .obj ([("nodeType", .str "VariableDefinitionStatement"), ("src", <- need variable_ "src"),
    ("declarations", .arr [variable_])] ++ (init.map fun i => ("initialValue", i)).toList)

def tupleTree (position : Json) (components : List Json) : Json :=
  .obj [("components", .arr components), ("nodeType", .str "TupleExpression"), ("src", position)]

def assignmentTree (position type left right : Json) : Json :=
  .obj [("nodeType", .str "Assignment"), ("operator", .str "="), ("src", position),
    ("typeDescriptions", .obj [("typeString", type)]), ("leftHandSide", left), ("rightHandSide", right)]

def tryTree (call : Json) (parameters : Json) : Load Json := do
  if !parameters.truthy then return call
  let position <- need parameters "src"
  let ps <- items ((<- Ast.get parameters "parameters").getD .null)
  match ps with
  | [p] =>
    let name <- need p "name"
    if isText name "" then return call
    let _ <- addParameter f p false
    let type <- path p ["typeName", "typeDescriptions", "typeString"]
    let left := identifierTree name (<- need p "src") (<- need p "id") (<- need p "typeDescriptions")
    return assignmentTree position type left call
  | ps =>
    let named <- (ps.zipIdx).filterMapM fun (p, i) => do
      let name <- need p "name"
      if isText name "" then return none
      let _ <- addDeclared f (<- definitionTree p none) (some i)
      return some (identifierTree name (<- need p "src") (<- need p "id") (<- need p "typeDescriptions"))
    return assignmentTree position (.str "tuple()") (tupleTree position named) call

def singleStmt (kind : NodeKind) (tree : Json) (e : Option Json) : Load (Stmt × Bool) := do
  return (.single kind (.ok (<- place tree)) e none, false)

def readDeclarations : List (Json × Option Nat) -> Load (List Stmt × Bool)
  | [] => return ([], false)
  | (tree, component) :: rest => do
    match <- attempt (do return (<- addDeclared f tree component, <- place tree)) with
    | .error why => return ([.fault why], true)
    | .ok (none, _) => return ([.fault (.broken "")], true)
    | .ok (some v, site) =>
      let (more, halted) <- readDeclarations rest
      return (.declare v (.ok site) :: more, halted)

def legacyDefinitionTree (variable_ : Json) (init : Option Json) : Result Json := do
  return .obj [("name", .str "VariableDefinitionStatement"), ("src", <- need variable_ "src"),
    ("children", .arr ([variable_] ++ init.toList))]

def readDefinitions : List (Result Json × Option Nat) -> Load (List Stmt × Bool)
  | [] => return ([], false)
  | (.error why, _) :: _ => return ([.fault why], true)
  | (.ok tree, component) :: rest => do
    let (here, halted) <- readDeclarations f [(tree, component)]
    if halted then return (here, true)
    let (more, halted) <- readDefinitions rest
    return (here ++ more, halted)

/-- Definitions, followed by one assignment. -/
def readAssigned (trees : List (Result Json × Option Nat)) (assignment : Load Json) : Load (Stmt × Bool) := do
  let (stmts, halted) <- readDefinitions f trees
  if halted then return (.block false stmts, true)
  match <- attempt (do singleStmt .expression tree (some (<- assignment))) with
  | .ok (s, _) => return (.block false (stmts ++ [s]), false)
  | .error why => return (.block false (stmts ++ [.fault why]), true)

/-- For `(a, b) = …`, followed by one assignment unless the right side is a tuple of as many parts. -/
def readTupleDeclaration : Load (Stmt × Bool) := do
  let declarations <- items (<- need tree "declarations")
  let init <- need tree "initialValue"
  let isTuple := isText (<- need init "nodeType") "TupleExpression"
  let components <- if isTuple then items (<- need init "components") else pure []
  if isTuple && components.length == declarations.length then
    let named := declarations.filter (!·.isNull)
    let trees := (named.zip components).map fun (d, i) => (definitionTree d (some i), none)
    let (stmts, halted) <- readDefinitions f trees
    return (.block false stmts, halted)
  else
    let trees := ((declarations.zipIdx).filter fun (d, _) => d.truthy).map fun (d, i) => (definitionTree d none, some i)
    readAssigned f tree trees do
      let position <- need tree "src"
      let names <- declarations.mapM fun d => do
        if !d.truthy then return .null
        let type <- typeString d
        return identifierTree (<- need d "name") (<- need d "src") (<- need d "id") (.obj [("typeString", type)])
      return assignmentTree position (.str "tuple()") (tupleTree position names) init

/-- The declarations of `var (a, b) = …` in the legacy form. -/
def readLegacyTupleDeclaration : Load (Stmt × Bool) := do
  let children <- items (<- need tree "children")
  let declared := children.takeWhile fun c => isText (c.fieldOrNull "name") "VariableDeclaration"
  let values := children.drop declared.length
  match values with
  | [] => throw .outOfRange
  | value :: more =>
    require more.isEmpty
    if isText (<- need value "name") "TupleExpression" then
      let parts <- items (<- need value "children")
      require (parts.length == declared.length)
      let trees := (declared.zip parts).map fun (d, i) => (legacyDefinitionTree d (some i), none)
      let (stmts, halted) <- readDefinitions f trees
      return (.block false stmts, halted)
    else
      let k <- need value "name"
      require (isText k "FunctionCall" || isText k "Conditional")
      let trees := (declared.zipIdx).map fun (d, i) => (legacyDefinitionTree d none, some i)
      readAssigned f tree trees do
        let position <- need tree "src"
        let names <- declared.mapM fun d => do
          let a <- need d "attributes"
          return .obj [("name", .str "Identifier"), ("src", <- need d "src"),
            ("attributes", .obj [("value", <- need a "name"), ("type", <- need a "type")])]
        let left := .obj [("name", .str "TupleExpression"), ("src", position), ("children", .arr names)]
        return .obj [("name", .str "Assignment"), ("src", position),
          ("attributes", .obj [("operator", .str "="), ("type", .str "tuple()")]),
          ("children", .arr [left, value])]

def readDefinition : Load (Stmt × Bool) := do
  match <- addDeclared f tree none with
  | some v => return (.declare v (.ok (<- place tree)), false)
  | none => if <- isCompact then readTupleDeclaration f tree else readLegacyTupleDeclaration f tree

def piece : Load Piece := return ⟨tree, <- place tree⟩

mutual
/-- The flag tells that a fault ends the reading. -/
def readStmt : Nat -> FunctionId -> Json -> Load (Stmt × Bool)
  | 0, _, _ => return (.fault .depth, true)
  | fuel + 1, f, tree => do
    match <- attempt (readNode fuel f tree) with
    | .ok r => return r
    | .error why => return (.fault why, true)

def readPart : Nat -> FunctionId -> Load Json -> Load (Stmt × Bool)
  | 0, _, _ => return (.fault .depth, true)
  | fuel + 1, f, tree => do
    match <- attempt tree with
    | .ok tree => readStmt fuel f tree
    | .error why => return (.fault why, true)

def readStmts : Nat -> FunctionId -> List Json -> Load (List Stmt × Bool)
  | 0, _, _ => return ([.fault .depth], true)
  | _ + 1, _, [] => return ([], false)
  | fuel + 1, f, s :: rest => do
    let (x, halted) <- readStmt fuel f s
    if halted then return ([x], true)
    let (xs, halted) <- readStmts fuel f rest
    return (x :: xs, halted)

/-- Variables of the clauses after the first are declared here. -/
def readClauses : Nat -> FunctionId -> Bool -> List Json -> Load (List Stmt × Bool)
  | 0, _, _, _ => return ([.fault .depth], true)
  | _ + 1, _, _, [] => return ([], false)
  | fuel + 1, f, isFirst, c :: rest => do
    let head <- attempt do
      let block := (<- Ast.get c "block").getD .null
      if block.isNull then throw (.parsing ("Catch not correctly parsed by Slither " ++ c.shown))
      return (block, <- place c)
    match head with
    | .error why => return ([.fault why], true)
    | .ok (block, site) =>
      let params <- attempt do
        if isFirst then return
        let params <- if <- isCompact then pure (c.fieldOrNull "parameters") else need c "children"
        if params.truthy then
          for p in <- items ((<- Ast.get params "parameters").getD (.arr [])) do
            require (<- isKind p "VariableDeclaration")
            let _ <- addParameter f p true
      match params with
      | .error why => return ([.clause (.ok site) (.fault why)], true)
      | .ok () =>
        let (body, halted) <- readStmt fuel f block
        if halted then return ([.clause (.ok site) body], true)
        let (more, halted) <- readClauses fuel f false rest
        return (.clause (.ok site) body :: more, halted)

def readNode : Nat -> FunctionId -> Json -> Load (Stmt × Bool)
  | 0, _, _ => throw .depth
  | fuel + 1, f, tree => do
    let name <- kind tree
    let compact <- isCompact
    let is (s : String) : Bool := isText name s
    if is "PlaceholderStatement" && ((<- program).function f).isModifier then singleStmt .placeholder tree none
    else if is "IfStatement" then
      let c <- piece (<- part tree "condition" 0)
      let (t, halted) <- readPart fuel f (part tree "trueBody" 1)
      if halted then return (.ifThen (.ok c) t (.ok {}), true)
      let otherwise := if compact then (tree.field? "falseBody").filter (·.truthy)
        else if let some (.arr [_, _, e]) := tree.field? "children" then some e else none
      match otherwise with
      | none =>
        let site <- attempt (place tree)
        return (.ifThen (.ok c) t site, site matches .error _)
      | some e =>
        let (e, halted) <- readStmt fuel f e
        if halted then return (.ifElse (.ok c) t e (.ok {}), true)
        let site <- attempt (place tree)
        return (.ifElse (.ok c) t e site, site matches .error _)
    else if is "WhileStatement" || is "DoWhileStatement" then
      let loop := if is "WhileStatement" then Stmt.whileLoop else Stmt.doWhile
      let site <- place tree
      match <- attempt (do piece (<- part tree "condition" 0)) with
      | .error why => return (loop (.ok site) (.error why) .skip, true)
      | .ok c =>
        let (body, halted) <- readPart fuel f (part tree "body" 1)
        return (loop (.ok site) (.ok c) body, halted)
    else if is "ForStatement" then
      let parts <- forParts tree
      let site := Except.ok (<- place tree)
      let (init, halted) <- parts.init.elim (pure (.skip, false)) (readStmt fuel f)
      if halted then return (.forLoop site init none .skip .skip, true)
      let condition <- parts.condition.elim (pure none) fun c => some <$> attempt (piece c)
      if condition matches some (.error _) then return (.forLoop site init condition .skip .skip, true)
      let (body, halted) <- readStmt fuel f parts.body
      if halted then return (.forLoop site init condition .skip body, true)
      let (step, halted) <- parts.step.elim (pure (.skip, false)) (readStmt fuel f)
      return (.forLoop site init condition step body, halted)
    else if is "Block" || is "UncheckedBlock" then
      let (body, halted) <- readStmts fuel f (<- items (<- contents tree "statements"))
      return (.block (is "UncheckedBlock") body, halted)
    else if is "InlineAssembly" then
      let site <- place tree
      modifyFunction f fun fn => { fn with containsAssembly := true }
      if tree.has "AST" && !(<- get).options.skipAssembly then
        let p <- program
        let scope := (<- get).assemblyScopes.size
        let index := (<- functionDraft f).assemblies.length
        modify fun s => { s with assemblyScopes := s.assemblyScopes.push {
          path := [p.functionName f, s!"asm_{index}"], owner := f, outer := f
          contract := p.functionContract? f } }
        modifyFunctionDraft f fun d => { d with assemblies := d.assemblies ++ [scope] }
        let (body, halted) <- readAssembly fuel scope (tree.fieldOrNull "AST")
        if halted then return (.assembly (.ok site) scope body none, true)
        match <- attempt (do finishAssemblyFunctions (<- get).bound scope) with
        | .ok () => return (.assembly (.ok site) scope body none, false)
        | .error why => return (.assembly (.ok site) scope body (some why), true)
      else return (.rawAssembly (.ok site) (tree.field? "operations"), false)
    else if is "Continue" then singleStmt .continues tree none
    else if is "Break" then singleStmt .breaks tree none
    else if is "Return" then
      let site <- place tree
      match compact, (tree.field? (if compact then "expression" else "children")).filter (·.truthy) with
      | false, some (.arr [e]) => return (.single .returns (.ok site) (some e) none, false)
      | false, some _ => return (.single .returns (.ok site) none (some (.broken "")), true)
      | _, e => return (.single .returns (.ok site) e none, false)
    else if is "Throw" then singleStmt .throws tree none
    else if is "EmitStatement" then singleStmt .expression tree (some (<- part tree "eventCall" 0))
    else if isDeclarationStatement name then readDefinition f tree
    else if is "ExpressionStatement" then singleStmt .expression tree (some (<- part tree "expression" 0))
    else if is "TryStatement" then
      let call := (<- Ast.get tree "externalCall").getD .null
      if call.isNull then throw (.parsing ("Try/Catch not correctly parsed by Slither " ++ tree.shown))
      let site <- place tree
      let clauses <- attempt (do
        let cs := (<- Ast.get tree "clauses").getD (.arr [])
        let e <- tryTree f call ((<- Ast.get (<- item cs 0) "parameters").getD .null)
        return (e, <- items cs))
      match clauses with
      | .error why => return (.tryCatch (.ok site) (.error why) [], true)
      | .ok (e, cs) =>
        let (clauses, halted) <- readClauses fuel f true cs
        return (.tryCatch (.ok site) (.ok e) clauses, halted)
    else if is "RevertStatement" then singleStmt .expression tree (some (<- part tree "errorCall" 0))
    else throw (.parsing s!"Statement not parsed {Ast.text name}")
end

end ContractAudit.Reader
