import ContractAudit.Reader.Statements

/-! # Reading functions and modifiers

The parameters come first, and the content once all parameters are known.
-/

namespace ContractAudit.Reader

open Ast hiding get require

open Load

variable (f : FunctionId) (g : Flow) (i : NodeId) (s : Expr.Split Expr) (tree : Json)

def declareFunction (functionPlace : FunctionPlace) (contract : Option ContractId) (isModifier : Bool)
    (tree : Json) : Load FunctionId := do
  let source <- place tree
  let attributes <- attributes tree
  let name := text (<- need attributes "name")
  let kind := if name == "" then
      if isText (attributes.fieldOrNull "kind") "receive" then .receive else .fallback
    else .normal
  let f <- newFunction { place := functionPlace, writtenName := some name, kind, kindKnown := true
                         isModifier := isModifier, id := (tree.fieldOrNull "id").int?, source := source
                         documented := tree.has "documentation" }
    { tree, contract := contract }
  let p <- program
  if let .inContract _ declarer := functionPlace then
    if p.functionName f == (p.contract declarer).name then modifyFunction f fun fn => { fn with kind := .constructor }
  return f

def registerFunction : Load Unit := do
  if let some n := ((<- program).function f).id then
    modify fun s => { s with numbers := { s.numbers with
      functions := s.numbers.functions.alter n [] (· ++ [f]) } }

def readOverrides (numbers : Json) : Load Unit := do
  let _ <- size numbers
  for n in <- items numbers do
    let some n := n.int? | continue
    for g in ((<- get).numbers.functions.find? n).getD [] do
      let p <- program
      let some c := p.functionContract? f | throw (.lacks "FunctionTopLevel" "contract")
      let some d := p.functionContract? g | throw (.lacks "FunctionTopLevel" "contract")
      if d == c || (p.contract c).inheritance.contains d then
        modifyFunction f fun fn => { fn with overrides := fn.overrides ++ [g] }
        modifyFunction g fun fn => { fn with overriddenBy := fn.overriddenBy ++ [f] }

def readFunctionAttributes : Load Unit := do
  let a <- attributes (<- functionDraft f).tree
  if let some m := a.field? "stateMutability" then
    if isText m "payable" then modifyFunction f fun fn => { fn with payable := true }
    else if isText m "pure" then modifyFunction f fun fn => { fn with pure := true, view := true }
    else if isText m "view" then modifyFunction f fun fn => { fn with view := true }
  if let some c := a.field? "constant" then modifyFunction f fun fn => { fn with view := c.truthy }
  if (a.fieldOrNull "isConstructor").truthy || isText (a.fieldOrNull "kind") "constructor" then
    modifyFunction f fun fn => { fn with kind := .constructor }
  let visibility := match a.field? "visibility" with
    | some v => textOrNull v
    | none => (a.field? "public").elim (some "public") fun v => some (if v.truthy then "public" else "private")
  modifyFunction f fun fn => { fn with visibility }
  if let some v := a.field? "payable" then modifyFunction f fun fn => { fn with payable := v.truthy }
  if let some numbers := a.field? "baseFunctions" then readOverrides f numbers
  if let some (.obj o) := a.field? "overrides" then
    for x in <- items ((Json.lookup "overrides" o).getD (.arr [])) do
      let n <- need x "referencedDeclaration"
      let known := (<- get).numbers.contracts
      if let some c := n.int?.bind fun n => known.find? n then refer (.contract c) (<- place x)
  if let some v := a.field? "virtual" then modifyFunction f fun fn => { fn with virtual := v.truthy }

def parameterTrees : Load (List Json) := do
  require (<- isKind tree "ParameterList")
  items (<- contents tree "parameters")

def readParameters (isResult : Bool) : Load Unit := do
  require (<- isKind tree "ParameterList")
  let source <- place tree
  if isResult then modifyFunction f fun fn => { fn with returnsSource := some source }
  else modifyFunction f fun fn => { fn with parametersSource := some source }
  let trees <- parameterTrees tree
  if isResult then modifyFunctionDraft f fun d => { d with returns := trees }
  for t in trees do
    require (<- isKind t "VariableDeclaration")
    let v <- addParameter f t false
    if isResult then modifyFunction f fun fn => { fn with returns := fn.returns ++ [v] }
    else modifyFunction f fun fn => { fn with parameters := fn.parameters ++ [v] }

def childrenOfKind (name : String) : Load (List Json) := do (<- items (<- need tree "children")).filterM (isKind · name)

def readFunctionHead : Load Unit := do
  let d <- functionDraft f
  if d.paramsDone then return
  modifyFunctionDraft f fun d => { d with paramsDone := true }
  readFunctionAttributes f
  let isModifier := ((<- program).function f).isModifier
  let (params, results) <- if <- isCompact then do
      let params <- need d.tree "parameters"
      let results <- if isModifier then pure .null else liftM (need d.tree "returnParameters")
      pure (params, results)
    else do
      let lists <- childrenOfKind d.tree "ParameterList"
      match lists with
      | [] => throw .exhausted
      | [params] => if isModifier then pure (params, .null) else throw .exhausted
      | params :: results :: _ => pure (params, if isModifier then .null else results)
  if params.truthy then readParameters f params false
  if results.truthy then readParameters f results true

def isChecked : Load Bool := return !((<- program).version < "0.8.0")

def readBody : Load Unit := do
  require (<- isKind tree "Block")
  let source <- place tree
  let checked <- isChecked
  let entry <- build f (.newNode { kind := .entryPoint, source, checked })
  modifyFunction f fun fn => { fn with flow := { fn.flow with entry := some entry } }
  let statements <- contents tree "statements"
  modifyFunction f fun fn => { fn with empty := some !statements.truthy }
  if statements.truthy then
    let (body, _) <- readStmts (<- get).bound f (<- items statements)
    let name := (<- program).functionName f
    build f (.body name checked entry body)
    build f (modify .dropLoneEnds)

def useOrigin (fn : Function) (uses : List ModifierUse) : NodeId :=
  match uses.getLast? with
  | some u => u.nodes.getLast?.getD 0
  | none => fn.flow.entry.getD 0

/-- Puts the call of a modifier or a base constructor at the entry. -/
def insertModifierUse (checked : Bool) (t : Target) : Load Unit := do
  let isBase := t matches .contract _
  let source <- place tree
  let n <- build f (.newNode { kind := .expression, source, checked, pending := some tree })
  let fn := (<- program).function f
  let entry := useOrigin fn (if isBase then fn.baseCalls else fn.modifiers)
  build f (modify (·.insertAfter entry n))
  let use := .mk t entry [entry, n]
  modifyFunction f fun fn =>
    if isBase then { fn with baseCalls := fn.baseCalls ++ [use] }
    else { fn with modifiers := fn.modifiers ++ [use] }

def readModifierUse : Load Unit := do
  let e <- expression tree (.function f)
  if ((<- program).function f).implemented != some true then return
  let checked <- isChecked
  for t in e.targets do if t matches .func _ | .contract _ then insertModifierUse f tree checked t

/-- A declaration assigns its initial value. -/
def setNodeExpr (e : Expr) : Load Unit := do
  let n := ((<- program).function f).flow.node i
  let e <- match n.kind, n.declared with
    | .declaration, some v => do
      let name := .name { key := <- freshKey, written := true } (.var v) .plain none
      pure (.assign { key := <- freshKey, source := e.source } .assign name e (.type ((<- program).var v).type))
    | _, _ => pure e
  modifyFunction f fun fn => { fn with flow := fn.flow.modify i fun n => { n with expr := some e, surveyed := true } }

def readNodeExpr : Load Unit := do
  let p <- program
  let n := (p.function f).flow.node i
  let initial := if n.kind == .declaration && n.expr.isNone then n.declared.bind fun v => (p.var v).expr else n.expr
  let e <- n.pending.elim (pure initial) fun tree =>
    if tree.truthy then some <$> expression tree (.function f) else pure initial
  if let some e := e then setNodeExpr f i e

def branchAt : Flow :=
  let n := g.node i
  let kind := if n.kind == .returns then .returns else .expression
  let part (k : NodeKind) (e : Option Expr) : Node :=
    { kind := k, source := n.source, checked := n.checked, expr := e, surveyed := e.isSome }
  let branch := { part .branch s.condition with declared := if n.kind == .declaration then n.declared else none }
  g.replaceByBranch i branch (part kind (some s.whenTrue)) (part kind (some s.whenFalse)) (part .endIf none)
    (kind == .returns)

def splitNode : Result Flow := do
  if g.kind i == .declaration then
    Ast.require (s.whenTrue matches .assign ..)
    Ast.require (s.whenFalse matches .assign ..)
  return branchAt g i s

def nextSplit : Option NodeId := g.plainNodes.find? fun i => ((g.node i).expr.map Expr.hasConditional).getD false

def splitConditionals : Nat -> Load Unit
  | 0 => pure ()
  | fuel + 1 => do
    let p <- program
    let g := (p.function f).flow
    match nextSplit g with
    | none => pure ()
    | some i =>
      let n := g.node i
      let e := n.expr.getD .omitted
      let s := e.split
      if s.condition.isNone then
        let text := p.exprText e
        let where_ := p.sourceText n.source
        throw (.parsing s!"Incorrect ternary conversion {text} {where_}")
      let g <- lifted (splitNode g i s)
      modifyFunction f fun fn => { fn with flow := g }
      splitConditionals fuel

def splitBound : Nat := g.order.foldl (fun k i => k + Nat.pow 2 (((g.node i).expr.map Expr.conditionals).getD 0)) 1

def resultTree (compact : Bool) (results : List Json) (name : String) : Result Json := do
  if compact then
    let some r <- results.findM? fun r => return isText (<- need r "name") name | throw .exhausted
    return identifierTree (.str name) (<- need r "src") (<- need r "id") (<- need r "typeDescriptions")
  else
    let some r <- results.findM? fun r => return isText (<- path r ["attributes", "name"]) name | throw .exhausted
    let type <- path r ["attributes", "type"]
    return .obj [("attributes", .obj [("type", type), ("value", .str name)]), ("name", .str "Identifier"),
      ("src", <- need r "src")]

def resultsTree (compact : Bool) (results : List Json) (names : List String) (position : Json) : Result Json := do
  match names with
  | [name] => resultTree compact results name
  | _ =>
    let parts <- (names.filter (· != "")).mapM (resultTree compact results)
    if compact then
      for part in parts do
        let _ <- path part ["typeDescriptions", "typeIdentifier"]
        let _ <- typeString part
      return tupleTree position parts
    else return .obj [("children", .arr parts), ("name", .str "TupleExpression"), ("src", position)]

/-- Adds the return of named results to the ends of a function that returns nothing by itself. -/
def addImplicitReturn : Load Unit := do
  let p <- program
  let fn := p.function f
  let names := fn.returns.map fun v => (p.var v).name
  if names.all (· == "") || fn.implemented != some true then return
  let position <- need tree "src"
  let source <- sourceOf position
  let checked <- isChecked
  let g := fn.flow
  let open_ (i : NodeId) : Bool := (g.sons i).isEmpty && g.kind i != .returns && g.kind i != .throws
  let n <- build f (.newNode { kind := .returns, source, checked })
  let d <- functionDraft f
  let assembly := d.assemblies.flatMap fun k => g.order.filter fun i =>
    (g.node i).assemblyScope == some k && g.kind i != .assembly
  for i in (g.plainNodes ++ assembly).filter open_ do build f (.link i n)
  let e <- resultsTree (<- isCompact) d.returns names position
  build f (modify (·.modify n fun x => { x with pending := some e }))
  readNodeExpr f n

def finishFunction (results : Option Json) : Load Unit := do
  for v in (<- functionDraft f).locals do finishVariable v (.function f)
  for i in ((<- program).function f).flow.plainNodes do readNodeExpr f i
  for k in (<- functionDraft f).assemblies do finishAssembly k
  splitConditionals f (splitBound ((<- program).function f).flow)
  modifyFunction f fun fn => { fn with flow := fn.flow.dropLoneEnds }
  if let some r := results then if r.truthy then addImplicitReturn f r
  if let some entry := ((<- program).function f).flow.entry then
    modifyFunction f fun fn => { fn with flow := fn.flow.markReachable entry }

/-- From here on the function counts as implemented. -/
def implement : Load Unit := do
  modifyFunction f fun fn => { fn with implemented := some true }
  readBody f tree

def readCompactContent (isModifier : Bool) (tree : Json) : Load Unit := do
  let body := (<- Ast.get tree "body").getD .null
  if body.truthy then if <- isKind body "Block" then implement f body
  if !isModifier then for m in <- items (<- need tree "modifiers") do readModifierUse f m
  finishFunction f (if isModifier then none else tree.field? "returnParameters")

def readLegacyContent (isModifier : Bool) (tree : Json) : Load Unit := do
  let children <- items (<- need tree "children")
  if isModifier then
    modifyFunction f fun fn => { fn with implemented := some false }
    if 1 < children.length then
      match <- childrenOfKind tree "Block" with
      | [] => throw .exhausted
      | b :: _ => implement f b
    finishFunction f none
  else
    let results <- item (.arr children) 1
    modifyFunction f fun fn => { fn with implemented := some false }
    for c in children.drop 2 do if <- isKind c "Block" then implement f c
    for c in children.drop 2 do if <- isKind c "ModifierInvocation" then readModifierUse f c
    finishFunction f (some results)

def readFunctionContent : Load Unit := do
  let d <- functionDraft f
  if d.contentDone then return
  modifyFunctionDraft f fun d => { d with contentDone := true }
  let isModifier := ((<- program).function f).isModifier
  if <- isCompact then readCompactContent f isModifier d.tree else readLegacyContent f isModifier d.tree

end ContractAudit.Reader
