import ContractAudit.Flow.Build
import ContractAudit.Reader.Expressions

/-! # Reading assembly code

A function in a block becomes a function of the program; its body is read where it stands, and its expressions at the end of
the block.
-/

namespace ContractAudit

open Text

namespace Reader

open Ast hiding get require

open Load

def attempt {α : Type} (x : Load α) : Load (Result α) := tryCatch (.ok <$> x) fun f => pure (.error f)

def assemblyBinary : Table String BinaryOp :=
  [("add", .addition), ("sub", .subtraction), ("mul", .multiplication), ("div", .division),
    ("sdiv", .divisionSigned), ("mod", .modulo), ("smod", .moduloSigned), ("exp", .power),
    ("lt", .less), ("gt", .greater), ("slt", .lessSigned), ("sgt", .greaterSigned), ("eq", .equal),
    ("and", .and), ("or", .or), ("xor", .caret), ("shl", .leftShift), ("shr", .rightShift),
    ("sar", .rightShiftArithmetic)]

def assemblyUnary : Table String UnaryOp := [("not", .tilde), ("iszero", .bang)]

variable (p : Program) (scope : AssemblyScope) (name : String)

def assemblyName (path : List String) : String := name ++ "_" ++ "_".intercalate path

def assemblyVariable? : Option VariableId :=
  scope.vars.find? fun v => (p.var v).name == assemblyName name scope.path

def assemblyFunction? : Option FunctionId :=
  scope.functions.find? (p.functionName · == name)

def outerAssemblyFunction? (s : State) : Nat -> Option Nat -> String -> Option FunctionId
  | 0, _, _ => none
  | _ + 1, none, _ => none
  | fuel + 1, some i, name =>
    let scope := s.assemblyScopes.getD i default
    (assemblyFunction? s.program scope name).or (outerAssemblyFunction? s fuel scope.parent name)

def suffixedVariable? : Option VariableId :=
  let state (base : String) : Option VariableId := (p.functionDeclarer? scope.owner).bind (p.stateByName? · base)
  let local_ (base : String) (ok : VariableId -> Bool) : Option VariableId := (p.localByName? scope.owner base).filter ok
  let calldata (v : VariableId) : Bool := (p.var v).location == some "calldata"
  let base? (ends : List String) : Option String := (ends.find? (endsWith name)).map fun e => dropLast e.length name
  let slot := (base? ["_slot", ".slot"]).bind fun b => (state b).or (local_ b p.isStorageLocal)
  let offset := (base? ["_offset", ".offset"]).bind fun b => (state b).or (local_ b calldata)
  slot.or (offset.or ((base? [".length"]).bind (local_ · calldata)))

def findInAssembly (s : State) (scopeId : Nat) (name : String) : Result Target := do
  let p := s.program
  let scope := s.assemblyScopes.getD scopeId default
  if Builtin.assemblyNames.contains name then return .opcode name
  if let some v := p.localByName? scope.outer name then return .var v
  if let some c := p.functionDeclarer? scope.outer then if let some v := p.stateByName? c name then return .var v
  if let some v := assemblyVariable? p scope name then return .var v
  if let some f := assemblyFunction? p scope name then return .func f
  if let some f := outerAssemblyFunction? s (s.assemblyScopes.size + 1) scope.parent name then return .func f
  if let some v := suffixedVariable? p scope name then return .var v
  if let some t <- atTopLevel? p (some name) (p.functionScope scope.outer) then return t
  throw (.analysis s!"unresolved reference to identifier {name}")

def typeListText : List String -> String
  | [] => ""
  | [t] => t
  | ts => "tuple(" ++ ",".intercalate ts ++ ")"

def knownType : Expr -> String
  | .name _ _ _ t => p.typeText? t
  | .literal _ _ t _ => p.typeText t
  | _ => "None"

def placeless : Load ExprInfo := return { key := <- freshKey }

def readAssemblyExpr (scope : Nat) : Nat -> Json -> Load (Option Expr)
  | 0, _ => throw .depth
  | fuel + 1, tree => do
    let k <- need tree "nodeType"
    let is (s : String) : Bool := isText k s
    let inner (j : Json) : Load Expr := do
      let some e <- readAssemblyExpr scope fuel j | throw (.broken "")
      return e
    let assignment (key : String) : Load Expr := do
      let left <- (<- items (<- need tree key)).mapM inner
      let right <- inner (<- need tree "value")
      let p <- program
      let type := typeListText (left.map (knownType p))
      let target <- match left with
        | [e] => pure e
        | es => pure (.tuple (<- placeless) es)
      return .assign (<- placeless) .assign target.markWritten right (.text type)
    let e <- if is "YulVariableDeclaration" then
        (tree.field? "value").elim (pure none) fun v => if v.truthy then some <$> assignment "variables" else pure none
      else if is "YulAssignment" then some <$> assignment "variableNames"
      else if is "YulFunctionCall" then some <$> do
        let args <- (<- items (<- need tree "arguments")).mapM inner
        let head <- inner (<- need tree "functionName")
        let argument (i : Nat) : Load Expr := expect args[i]? .outOfRange
        let callTo (target : Target) (head : Expr) (args : List Expr) : Load Expr := do
          let p <- program
          let types <- match target with
            | .func f => pure (p.returnTexts f)
            | .builtinFunction n => pure ((Builtin.results? n).getD [])
            | _ => throw (.analysis "unexpected function call target type")
          return .call (<- placeless) head args none (typeListText types) .omitted .omitted .omitted false
        match head with
        | .name _ (.opcode name) _ _ =>
          match assemblyBinary.find? name, assemblyUnary.find? name with
          | some op, _ =>
            let (i, j) := if ["shl", "shr", "sar"].contains name then (1, 0) else (0, 1)
            return .binary (<- placeless) op (<- argument i) (<- argument j)
          | none, some op => return .unary (<- placeless) op (<- argument 0)
          | none, none =>
            let zero : Load Expr := return .literal (<- placeless) (.text "0") .uint256 none
            let (name, args) <- if name == "stop" then pure ("return", [<- zero, <- zero]) else pure (name, args)
            let signature := Builtin.instructionSignature name
            if !Builtin.isFunction signature then throw (.broken "")
            let target := .builtinFunction signature
            callTo target (.name (<- placeless) target .plain none) args
        | .name _ target _ _ => callTo target head args
        | _ => throw (.analysis "expected identifier from parsing function name")
      else if is "YulIdentifier" then some <$> do
        let name := text (<- need tree "name")
        return .name (<- placeless) (<- lifted (findInAssembly (<- get) scope name)) .plain none
      else if is "YulTypedName" then some <$> do
        let name := text (<- need tree "name")
        let p <- program
        let v <- expect (assemblyVariable? p (<- assemblyScope scope) name) (.lacks "NoneType" "underlying")
        return .name (<- placeless) (.var v) .plain (p.var v).type
      else if is "YulLiteral" then some <$> do
        let kind <- need tree "kind"
        let value <- if isText kind "string" then
            (tree.field? "value").elim (need tree "hexValue") pure
          else need tree "value"
        let kind := if kind.truthy then text kind
          else if isText value "true" || isText value "false" then "bool" else "uint256"
        let kind := if kind == "number" then "uint256" else kind
        let type <- lifted (Ty.ofName kind)
        return .literal (<- placeless) (literalValue value) type none
      else throw (.analysis (s!"no parser available for {Ast.text k} " ++ tree.shown))
    let some e := e | return none
    return some (e.withSource (<- place tree))

def finishAssembly (scope : Nat) : Load Unit := do
  let f := (<- assemblyScope scope).owner
  for i in ((<- program).function f).flow.order do
    let n := ((<- program).function f).flow.node i
    if n.assemblyScope == some scope then
      if let some tree := n.pending then
        let e <- readAssemblyExpr scope (<- get).bound tree
        if e.isSome then
          modifyFunction f fun fn => { fn with flow := fn.flow.modify i fun n => { n with expr := e, surveyed := true } }

def finishAssemblyFunctions : Nat -> Nat -> Load Unit
  | 0, _ => throw .depth
  | fuel + 1, scope => do
    for i in (<- assemblyScope scope).nested do
      finishAssembly i
      finishAssemblyFunctions fuel i

/-- A fault keeps the nodes that were made before it. -/
def build {α : Type} (f : FunctionId) (b : Build α) : Load α := do
  match b.run ((<- program).function f).flow with
  | .ok a g =>
    modifyFunction f fun fn => { fn with flow := g }
    return a
  | .error why g =>
    modifyFunction f fun fn => { fn with flow := g }
    throw why

def newAssemblyVariable (scope : Nat) (tree : Json) : Load VariableId := do
  require (isText (<- need tree "nodeType") "YulTypedName")
  let s <- assemblyScope scope
  let source <- place tree
  let name := assemblyName (text (<- need tree "name")) s.path
  let v <- newVariable { kind := .inFunction (some s.owner) none, name, source := source
                         type := some .uint256, location := some "memory" }
  modifyAssemblyScope scope fun s => { s with vars := s.vars ++ [v] }
  return v

/-- A condition that compares the value under a name with the value of a case. -/
def caseTest (name : String) (body value position : Json) (otherwise : Option Json) : Json :=
  let identifier (n : String) := .obj [("nodeType", .str "YulIdentifier"), ("src", position), ("name", .str n)]
  .obj ([("nodeType", .str "YulIf"), ("src", position),
    ("condition", .obj [("nodeType", .str "YulFunctionCall"), ("src", position),
      ("functionName", identifier "eq"), ("arguments", .arr [identifier name, value])]),
    ("body", body)] ++ otherwise.toList.map ("false_body", ·))

/-- Bodies, values and positions of the cases that have values, and the body of the default. -/
def switchCases (cases : List Json) : Result (List (Json × Json × Json) × Option Json) := do
  let parts <- cases.mapM fun c => do return (<- need c "body", <- need c "value", c)
  let tests <- (parts.filter (!isText ·.2.1 "default")).mapM fun x => do return (x.1, x.2.1, <- need x.2.2 "src")
  return (tests, (parts.reverse.find? (isText ·.2.1 "default")).map (·.1))

/-- The conditions that a `switch` stands for, with the value under a name of its own. -/
def switchTree (tree : Json) : Result Json := do
  let cases <- items (<- need tree "cases")
  let value <- need tree "expression"
  let position <- need tree "src"
  let name := "switch_expr_" ++ replace (<- textFor "replace" position) ":" "_"
  let valuePosition <- need value "src"
  let declaration := .obj [("nodeType", .str "YulVariableDeclaration"), ("src", valuePosition),
    ("variables", .arr [.obj [("nodeType", .str "YulTypedName"), ("src", valuePosition),
      ("name", .str name), ("type", .str "")]]), ("value", value)]
  let (tests, fallback) <- switchCases cases
  let chain := tests.foldr (fun (body, value, at_) rest => some (caseTest name body value at_ rest)) fallback
  return .obj [("nodeType", .str "YulBlock"), ("src", position), ("statements", .arr ([declaration] ++ chain.toList))]

def registerAssemblyFunction (f : FunctionId) (contract : Option ContractId) : Load Unit := do
  if let some c := contract then
    let canonical := (<- program).functionCanonicalName f
    modifyFunction f fun fn => { fn with fixedName := some canonical }
    modifyContract c fun k => { k with functions := k.functions.insert canonical f }

mutual
/-- The flag tells that a fault ends the reading. -/
def readAssembly : Nat -> Nat -> Json -> Load (Yul × Bool)
  | 0, _, _ => return (.fault .depth, true)
  | fuel + 1, scope, tree => do
    match <- attempt (readAssemblyNode fuel scope tree) with
    | .ok r => return r
    | .error f => return (.fault f, true)

def readAssemblyNode : Nat -> Nat -> Json -> Load (Yul × Bool)
  | 0, _, _ => throw .depth
  | fuel + 1, scope, tree => do
    let k <- need tree "nodeType"
    let is (s : String) : Bool := isText k s
    let single (k : NodeKind) (e : Option Json) : Load (Yul × Bool) := return (.single k (.ok (<- place tree)) e, false)
    if is "YulBlock" then
      let (body, halted) <- readAssemblyList fuel scope (<- items (<- need tree "statements"))
      return (.block body, halted)
    else if is "YulFunctionDefinition" then
      readAssemblyFunction fuel scope tree
      return (.block [], false)
    else if is "YulVariableDeclaration" then
      let (names, halted) <- readAssemblyList fuel scope (<- items (<- need tree "variables"))
      if halted then return (.block names, true)
      match <- attempt (place tree) with
      | .ok site => return (.block (names ++ [.single .expression (.ok site) (some tree)]), false)
      | .error f => return (.block (names ++ [.fault f]), true)
    else if is "YulAssignment" then single .expression (some tree)
    else if is "YulExpressionStatement" then
      let position <- need tree "src"
      let e <- need tree "expression"
      return (.single .expression (.ok (<- sourceOf position)) (some e), false)
    else if is "YulIf" then
      let position <- need tree "src"
      let condition <- need tree "condition"
      let body <- need tree "body"
      let site := .ok (<- sourceOf position)
      let (t, halted) <- readAssembly fuel scope body
      let otherwise := tree.fieldOrNull "false_body"
      if halted then return (.ifThen site condition t, true)
      if !otherwise.truthy then return (.ifThen site condition t, false)
      let (f, halted) <- readAssembly fuel scope otherwise
      return (.ifElse site condition t f, halted)
    else if is "YulSwitch" then readAssembly fuel scope (<- switchTree tree)
    else if is "YulForLoop" then
      let pre <- need tree "pre"
      let condition <- need tree "condition"
      let post <- need tree "post"
      let body <- need tree "body"
      let site := .ok (<- place tree)
      let (i, halted) <- readAssembly fuel scope pre
      if halted then return (.forLoop site i condition site (.block []) (.block []), true)
      let conditionSite <- attempt (place condition)
      if conditionSite matches .error _ then return (.forLoop site i condition conditionSite (.block []) (.block []), true)
      let (b, halted) <- readAssembly fuel scope body
      if halted then return (.forLoop site i condition conditionSite (.block []) b, true)
      let (p, halted) <- readAssembly fuel scope post
      return (.forLoop site i condition conditionSite p b, halted)
    else if is "YulBreak" then single .breaks none
    else if is "YulContinue" then single .continues none
    else if is "YulLeave" then single .returns none
    else if is "YulTypedName" then
      let v <- newAssemblyVariable scope tree
      return (.declare v (.ok (<- place tree)), false)
    else throw (.analysis (s!"no converter available for {Ast.text k} " ++ tree.shown))

def readAssemblyList : Nat -> Nat -> List Json -> Load (List Yul × Bool)
  | 0, _, _ => return ([.fault .depth], true)
  | _ + 1, _, [] => return ([], false)
  | fuel + 1, scope, s :: rest => do
    let (y, halted) <- readAssembly fuel scope s
    if halted then return ([y], true)
    let (ys, halted) <- readAssemblyList fuel scope rest
    return (y :: ys, halted)

def readAssemblyFunction : Nat -> Nat -> Json -> Load Unit
  | 0, _, _ => throw .depth
  | fuel + 1, scope, tree => do
    let outer <- assemblyScope scope
    let p <- program
    let name := text (<- need tree "name")
    require (isText (<- need tree "nodeType") "YulFunctionDefinition")
    let functionPlace := match outer.contract, p.functionContract? outer.outer with
      | some c, some _ => .inContract c c
      | _, _ => .topLevel (p.functionScope outer.outer)
    let position <- need tree "src"
    let source <- sourceOf position
    let f <- newFunction { place := functionPlace, writtenName := some name, language := .yul
                           visibility := some "private", source, innerScope := outer.path
                           implemented := some true } {}
    let inner := (<- get).assemblyScopes.size
    modify fun s => { s with assemblyScopes := s.assemblyScopes.push {
      path := outer.path ++ [name], owner := f, outer := outer.outer, contract := outer.contract
      parent := some scope, functions := [f] } }
    let entry <- build f (Build.yulNode inner .assembly (.ok source) none none)
    modifyFunction f fun fn => { fn with flow := { fn.flow with entry := some entry } }
    registerAssemblyFunction f outer.contract
    modifyProgram fun p => { p with allFunctions := addNew f p.allFunctions }
    modifyAssemblyScope scope fun s => { s with functions := s.functions ++ [f], nested := s.nested ++ [inner] }
    let start <- build f do
      let n <- Build.yulNode inner .entryPoint (.ok source) none none
      Build.link entry n
      return n
    let last <- readAssemblyNames fuel inner f start true (<- items ((tree.field? "parameters").getD (.arr [])))
    let last <- readAssemblyNames fuel inner f last false (<- items ((tree.field? "returnVariables").getD (.arr [])))
    let (body, _) <- readAssembly fuel inner (<- need tree "body")
    let _ <- build f (Build.yul inner last body)

def readAssemblyNames : Nat -> Nat -> FunctionId -> NodeId -> Bool -> List Json -> Load NodeId
  | 0, _, _, _, _, _ => throw .depth
  | _ + 1, _, _, last, _, [] => return last
  | fuel + 1, scope, f, last, isParameter, tree :: rest => do
    let (y, _) <- readAssembly fuel scope tree
    let last <- build f (Build.yul scope last y)
    let name := text (<- need tree "name")
    match assemblyVariable? (<- program) (<- assemblyScope scope) name with
    | none => throw (.lacks "NoneType" "underlying")
    | some v =>
      modifyFunction f fun fn =>
        if isParameter then { fn with parameters := fn.parameters ++ [v] }
        else { fn with returns := fn.returns ++ [v] }
      readAssemblyNames fuel scope f last isParameter rest
end

end Reader

end ContractAudit
